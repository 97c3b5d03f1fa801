import Overload.Cycle.Batch

namespace Overload.Cycle

open Transition
open Batch (get)
open Pool (HttpConnection World)
open Request (HttpReq)

/-- `handle_connection_from_primary` asks only whether the mode is `Immediate`. -/
def handledAs : Transport.LoadGenerationMode → LoadGenerationMode
  | .batch _ => .batch
  | .immediate => .immediate

variable {Req : Type} {s t : Session Req} {a : Action Req} {as : List (Action Req)}
  {requestBundleSize : Nat} {rate : RateMessage}

def Session.dispatched (s : Session Req) (a : Action Req) : Nat :=
  ((s.spawned a).map fun bundle => bundle.1.length).getD 0

def InCycle (as : List (Action Req)) : Prop := ∀ a ∈ as, ∀ rate, a ≠ .rates rate

@[simp] theorem inCycle_nil : InCycle ([] : List (Action Req)) := List.forall_mem_nil _

@[simp] theorem inCycle_cons : InCycle (a :: as) ↔ (∀ rate, a ≠ .rates rate) ∧ InCycle as :=
  List.forall_mem_cons

@[simp] theorem inCycle_append {bs : List (Action Req)} :
    InCycle (as ++ bs) ↔ InCycle as ∧ InCycle bs :=
  List.forall_mem_append

@[simp] theorem inCycle_pool (bs : List Pool.Action) :
    InCycle (bs.map (.pool : Pool.Action → Action Req)) := by
  simp only [InCycle, List.mem_map]
  rintro _ ⟨b, _, rfl⟩ rate hrate
  cases hrate

def Phase.Bundled (requestBundleSize : Nat) (rate : RateMessage) : Phase Req → Prop
  | .waiting => True
  | .starting rate' => rate' = rate
  | .looping loop | .acquiring loop | .pacing loop _ =>
    loop.bundleSize = bundleSize requestBundleSize rate .batch
  | .generating loop connections | .filling loop connections _ =>
    loop.bundleSize = bundleSize requestBundleSize rate .batch ∧
      connections.length ≤ loop.bundleSize

structure Bundled (requestBundleSize : Nat) (rate : RateMessage) (s : Session Req) : Prop
    extends Paced rate.qps s where
  mode : s.mode = .batch
  setting : s.requestBundleSize = requestBundleSize
  bundled : s.phase.Bundled requestBundleSize rate

theorem spawned_phase {bundle : List HttpConnection × List Req} (h : s.spawned a = some bundle) :
    ∃ loop, s.phase = .generating loop bundle.1 ∨
      ∃ fill, s.phase = .filling loop bundle.1 fill := by
  unfold Session.spawned at h
  split at h
  · split at h
    · rename_i loop connections hphase
      split at h
      · cases h
      · split at h
        · cases h
        · cases h
          exact ⟨loop, .inl hphase⟩
    · cases h
  · split at h
    · rename_i loop connections fill hphase
      split at h
      · cases h
        exact ⟨loop, .inr ⟨fill, hphase⟩⟩
      · cases h
    · cases h
  · cases h

theorem step_setup (h : step s a = some t) :
    t.mode = s.mode ∧ t.requestBundleSize = s.requestBundleSize := by
  cases Steps.of_step h with
  | rates hphase h =>
    obtain ⟨world, _, rfl⟩ := Option.map_eq_some_iff.mp h
    exact ⟨rfl, rfl⟩
  | start hphase hcall =>
    unfold Session.start
    split
    · exact ⟨rfl, rfl⟩
    · split <;> exact ⟨rfl, rfl⟩
  | getConnections hphase h =>
    rcases Session.getConnections_eq_some h with rfl | ⟨world, _, rfl⟩
    · exact ⟨rfl, rfl⟩
    · exact ⟨rfl, rfl⟩
  | handOut hphase h =>
    obtain ⟨_, vec, _, _, world, _, _, rfl⟩ := Session.handOut_eq_some h
    exact ⟨rfl, rfl⟩
  | @getRequests loop connections answer hphase =>
    cases answer with
    | error message => exact ⟨rfl, rfl⟩
    | ok requestsToSend =>
      simp only [Session.sendRequests]
      split
      · exact ⟨rfl, rfl⟩
      · split <;> exact ⟨rfl, rfl⟩
  | fill hphase =>
    unfold Session.fillReq
    split <;> exact ⟨rfl, rfl⟩
  | _ => exact ⟨rfl, rfl⟩

namespace Bundled

theorem of_phase (hs : Bundled requestBundleSize rate s) {phase : Phase Req}
    (h : s.phase = phase) : phase.Bundled requestBundleSize rate :=
  h ▸ hs.bundled

theorem handOut (hs : Bundled requestBundleSize rate s) {loop : Loop}
    (hphase : s.phase = .acquiring loop) (h : s.handOut loop = some t) :
    t.phase.Bundled requestBundleSize rate := by
  have hsize := hs.of_phase hphase
  obtain ⟨_, vec, _, _, world, hcall, hworld, rfl⟩ := Session.handOut_eq_some h
  have hle : vec.length ≤ loop.bundleSize :=
    Nat.le_trans (hs.toPaced.length_handOut_le hphase hcall hworld) (Nat.min_le_left _ _)
  simp only [Session.receive]
  split
  · exact hsize
  · exact ⟨hsize, hle⟩

theorem bundled_step (hs : Bundled requestBundleSize rate s) (ha : ∀ rate, a ≠ .rates rate)
    (h : step s a = some t) : t.phase.Bundled requestBundleSize rate := by
  cases Steps.of_step h with
  | rates hphase h => exact absurd rfl (ha _)
  | start hphase hcall =>
    obtain rfl := hs.of_phase hphase
    unfold Session.start
    split
    · trivial
    · split
      · trivial
      · simp only [Phase.Bundled, hs.mode, hs.setting]
  | getConnections hphase h =>
    have hsize := hs.of_phase hphase
    rcases Session.getConnections_eq_some h with rfl | ⟨world, _, rfl⟩
    · trivial
    · exact hsize
  | handOut hphase h => exact hs.handOut hphase h
  | @getRequests loop connections answer hphase =>
    have hsize := hs.of_phase hphase
    cases answer with
    | error message => trivial
    | ok requestsToSend =>
      simp only [Session.sendRequests]
      split
      · trivial
      · split
        · exact hsize
        · exact hsize.1
  | fill hphase =>
    have hsize := hs.of_phase hphase
    unfold Session.fillReq
    split
    · exact hsize
    · exact hsize.1
  | @pace loop availableConnection timeRemaining hphase =>
    have hsize := hs.of_phase hphase
    simp only [Session.pace]
    split
    · trivial
    · split
      · trivial
      · rename_i loop' hsent
        exact (Loop.sent_eq_some hsent).1.trans hsize
  | finishRequest hi hworld => exact hs.bundled
  | pool hb hworld => exact hs.bundled
  | reconnect hphase => exact hs.bundled

theorem step (hs : Bundled requestBundleSize rate s) (ha : ∀ rate, a ≠ .rates rate)
    (h : step s a = some t) : Bundled requestBundleSize rate t where
  toPaced := hs.toPaced.step ha h
  mode := (step_setup h).1.trans hs.mode
  setting := (step_setup h).2.trans hs.setting
  bundled := hs.bundled_step ha h

theorem dispatched_le (hs : Bundled requestBundleSize rate s) (a : Action Req) :
    s.dispatched a ≤ bundleSize requestBundleSize rate .batch := by
  unfold Session.dispatched
  cases h : s.spawned a with
  | none => exact Nat.zero_le _
  | some bundle =>
    obtain ⟨loop, hphase | ⟨fill, hphase⟩⟩ := spawned_phase h
    · obtain ⟨hsize, hle⟩ := hs.of_phase hphase
      exact hsize ▸ hle
    · obtain ⟨hsize, hle⟩ := hs.of_phase hphase
      exact hsize ▸ hle

end Bundled

theorem tally_dispatched (has : InCycle as) (h : run step s as = some t) :
    t.passed.length = s.passed.length + tally step Session.dispatched s as := by
  induction as generalizing s with
  | nil =>
    cases h
    rfl
  | cons a as ih =>
    obtain ⟨ha, has⟩ := inCycle_cons.mp has
    obtain ⟨u, hu, hrest⟩ := run_cons_eq_some.mp h
    have hone : u.passed.length = s.passed.length + s.dispatched a := by
      rw [passed_step ha hu, List.length_append, Session.dispatched]
      cases s.spawned a <;> rfl
    rw [ih has hrest, hone, tally, hu, Option.map_some, Option.getD_some, Nat.add_assoc]

theorem always_bundled (hs : Bundled requestBundleSize rate s) (has : InCycle as) :
    Always step (fun _ t => Bundled requestBundleSize rate t) s as := by
  refine Meets.always (C := fun _ _ a => ∀ rate, a ≠ .rates rate) hs ?_ ?_
  · intro past u a t hu ha h
    exact hu.step ha h
  · rintro past a rest u rfl _
    exact has a (by simp)

theorem run_setup (h : run step s as = some t) :
    t.mode = s.mode ∧ t.requestBundleSize = s.requestBundleSize := by
  refine run_invariant (I := fun u => u.mode = s.mode ∧ u.requestBundleSize = s.requestBundleSize)
    ?_ ⟨rfl, rfl⟩ h
  intro u a v hu hstep
  exact ⟨(step_setup hstep).1.trans hu.1, (step_setup hstep).2.trans hu.2⟩

theorem bundled_of_rates {keepAlive : Pool.ConnectionKeepAlive} {elasticPool : Bool}
    {before : List (Action Req)}
    (h : run step (Session.new Req .batch requestBundleSize keepAlive elasticPool)
      (before ++ [.rates rate]) = some s) :
    Bundled requestBundleSize rate s ∧ s.passed = [] := by
  have hpaced := (always_paced (Paced.new _ _ _ _) _).last h
  rw [received_rates] at hpaced
  obtain ⟨hmode, hsetting⟩ := run_setup h
  obtain ⟨u, _, hstep⟩ := run_concat_eq_some.mp h
  cases Steps.of_step hstep with
  | rates hphase hrate =>
    obtain ⟨world, _, rfl⟩ := Option.map_eq_some_iff.mp hrate
    exact ⟨⟨hpaced, hmode, hsetting, rfl⟩, rfl⟩

theorem step_pool {b : Pool.Action} {world : World} (hb : isBackground b)
    (h : Pool.step s.world b = some world) : step s (.pool b) = some { s with world } := by
  simp [step, hb, h]

theorem run_pool {bs : List Pool.Action} {world : World} (hbs : ∀ b ∈ bs, isBackground b)
    (h : run Pool.step s.world bs = some world) :
    run step s (bs.map .pool) = some { s with world } := by
  induction bs generalizing s with
  | nil =>
    cases h
    rfl
  | cons b bs ih =>
    obtain ⟨hb, hbs⟩ := List.forall_mem_cons.mp hbs
    obtain ⟨u, hu, hrest⟩ := run_cons_eq_some.mp h
    exact run_cons_eq_some.mpr ⟨{ s with world := u }, step_pool hb hu, ih hbs hrest⟩

theorem length_openConnections_replicate (keepAlive : Pool.ConnectionKeepAlive)
    (handle n : Nat) :
    (Pool.openConnections keepAlive handle (List.replicate n (some 0))).length = n := by
  induction n generalizing handle with
  | zero => rfl
  | succ n ih => simp [List.replicate_succ, Pool.openConnections, ih]

theorem shouldDrop_openConnections {keepAlive : Pool.ConnectionKeepAlive} {handle : Nat}
    {results : List (Option Nat)} {con : HttpConnection}
    (h : con ∈ Pool.openConnections keepAlive handle results) : con.shouldDrop = false := by
  induction results generalizing handle with
  | nil => cases h
  | cons result results ih =>
    cases result with
    | none => exact ih h
    | some now =>
      rcases List.mem_cons.mp h with rfl | h
      · rfl
      · exact ih h

theorem run_connect {w : World} {task : Pool.Task} {count n : Nat} (htasks : w.tasks = [task])
    (hstart : Pool.step w (.startTask 0) = some (w.startConnecting 0 count)) (hn : n ≤ count) :
    ∃ w', run Pool.step w [.startTask 0, .finishConnecting 0 (List.replicate n (some 0)),
        .appendNew 0] = some w' ∧
      w'.call = w.call ∧
      w'.pool = { w.pool with
        newConnections := w.pool.newConnections ++
          Pool.openConnections w.pool.keepAlive w.nextHandle (List.replicate n (some 0))
        failedConnection := w.pool.failedConnection + (count - n) } := by
  have hlength := length_openConnections_replicate w.pool.keepAlive w.nextHandle n
  rw [run_cons, hstart, Option.bind_some, run_cons]
  simp [Pool.step, World.startConnecting, World.finishConnecting, World.appendNew, htasks, hn,
    hlength, run_cons]

theorem run_checks {w : World} {connectionRequest dropped broken : Nat}
    {futures vec : List HttpConnection}
    (hcall : w.call = .checking connectionRequest futures vec dropped broken) :
    run Pool.step w (futures.map fun con => .checkReady con true) =
      some { w with call := .checking connectionRequest [] (vec ++ futures) dropped broken } := by
  induction futures generalizing w vec with
  | nil => simp [← hcall]
  | cons con futures ih =>
    rw [List.map_cons, run_cons_eq_some]
    refine ⟨{ w with call := .checking connectionRequest futures (vec ++ [con]) dropped broken },
      ?_, ?_⟩
    · simp [Pool.step, World.checkReady, hcall]
    · rw [ih rfl]
      simp

theorem bundleSize_le_qps (requestBundleSize : Nat) (rate : RateMessage) :
    bundleSize requestBundleSize rate .batch ≤ rate.qps := by
  simp only [bundleSize]
  split <;> exact Nat.min_le_left _ _

def firstLoop (requestBundleSize : Nat) (rate : RateMessage) (hqps : rate.qps ≠ 0) : Loop where
  bundleSize := bundleSize requestBundleSize rate .batch
  totalRemainingQps := rate.qps
  bundleSize_pos := bundleSize_pos _ .batch hqps
  remaining_pos := Nat.pos_of_ne_zero hqps

theorem requestedConnection_firstLoop (hqps : rate.qps ≠ 0) :
    (firstLoop requestBundleSize rate hqps).requestedConnection =
      bundleSize requestBundleSize rate .batch :=
  Nat.min_eq_left (bundleSize_le_qps requestBundleSize rate)

theorem step_start (hphase : s.phase = .starting rate) (hcall : s.world.call = .idle)
    (hmode : s.mode = .batch) (hqps : rate.qps ≠ 0) :
    step s (.start 900) =
      some { s with phase := .looping (firstLoop s.requestBundleSize rate hqps) } := by
  simp [step, hphase, hcall, Session.start, firstLoop, hmode, hqps]

theorem step_getConnections {loop : Loop} (hphase : s.phase = .looping loop)
    (hcall : s.world.call = .idle) :
    step s (.getConnections 900) = some { s with
      world := s.world.claimRecyclable loop.requestedConnection, phase := .acquiring loop } := by
  simp [step, hphase, Session.getConnections, Pool.step, hcall]

theorem step_handOut {loop : Loop} {connectionRequest dropped broken : Nat}
    {vec : List HttpConnection} (hphase : s.phase = .acquiring loop)
    (hcall : s.world.call = .checking connectionRequest [] vec dropped broken) :
    step s .handOut =
      some ({ s with world := s.world.handOut vec dropped broken }.receive loop vec) := by
  simp only [step, hphase, Session.handOut, hcall, Pool.step, Option.map_some]

theorem step_getRequests {loop : Loop} {connections : List HttpConnection}
    (hphase : s.phase = .generating loop connections) (answer : Except String (List Req)) :
    step s (.getRequests answer) = some (s.sendRequests loop connections answer) := by
  simp only [step, hphase]

structure Stocked (loop : Loop) (s : Session Req) : Prop where
  phase : s.phase = .looping loop
  call : s.world.call = .idle
  queue : s.world.pool.connections = []
  recyclable : s.world.pool.recyclableConnections = []
  busy : s.world.pool.busyConnections = 0
  room : s.world.pool.elastic = true ∨
    (loop.requestedConnection : Int) ≤ s.world.pool.maxConnection
  length : s.world.pool.newConnections.length = loop.requestedConnection
  fresh : ∀ con ∈ s.world.pool.newConnections, con.shouldDrop = false

namespace Stocked

variable {loop : Loop}

theorem prepareHandOut (hs : Stocked loop s) :
    ((s.world.claimRecyclable loop.requestedConnection).prepareHandOut loop.requestedConnection
        0).call =
      .checking loop.requestedConnection s.world.pool.newConnections [] 0 0 := by
  have hall : s.world.pool.newConnections.filter (fun con => !con.shouldDrop) =
      s.world.pool.newConnections := by
    simpa using hs.fresh
  have hnone : s.world.pool.newConnections.countP (fun con => con.shouldDrop) = 0 := by
    simpa using hs.fresh
  -- neither side of the adjustment has anything to do
  have hadjust : (((s.world.claimRecyclable loop.requestedConnection).claimNew.takeOffBusy
      0).adjust loop.requestedConnection).pool.connections = s.world.pool.newConnections := by
    simp only [World.adjust, World.requestMore, World.reEnforce, World.claimRecyclable,
      World.claimNew, World.takeOffBusy, hs.queue, hs.recyclable, hs.busy, hs.length,
      List.nil_append]
    split
    · simp
    · rename_i helastic
      have hle := hs.room.resolve_left helastic
      rw [if_neg (by omega)]
  have htake : s.world.pool.newConnections.take loop.requestedConnection =
      s.world.pool.newConnections := List.take_of_length_le (Nat.le_of_eq hs.length)
  simp only [World.prepareHandOut, Nat.not_lt_zero, if_false, World.popConnections,
    Pool.popFront_eq, hadjust, htake, hall, hnone]

theorem checked (hs : Stocked loop s) :
    ∃ bs world, (∀ b ∈ bs, isBackground b) ∧
      run Pool.step (s.world.claimRecyclable loop.requestedConnection) bs = some world ∧
      world.call =
        .checking loop.requestedConnection [] s.world.pool.newConnections 0 0 := by
  refine ⟨.prepareHandOut :: s.world.pool.newConnections.map (.checkReady · true), _, ?_,
    run_cons_eq_some.mpr ⟨_, ?_, run_checks hs.prepareHandOut⟩, rfl⟩
  · simp [isBackground]
  · simp [Pool.step, World.claimRecyclable, hs.recyclable]

theorem full (hs : Stocked loop s) :
    ∃ cycle t connections, InCycle cycle ∧ run step s cycle = some t ∧
      t.phase = .generating loop connections ∧
      connections.length = loop.requestedConnection := by
  obtain ⟨bs, world, hbs, hworld, hcall⟩ := hs.checked
  have hreceive : ¬ asksAgain loop.requestedConnection s.world.pool.newConnections.length
      s.mode := by
    have hpos : 0 < loop.requestedConnection :=
      Nat.lt_min.mpr ⟨loop.bundleSize_pos, loop.remaining_pos⟩
    rw [asksAgain_iff, hs.length]
    omega
  have hrun := run_concat_eq_some.mpr
    ⟨_, run_cons_eq_some.mpr ⟨_, step_getConnections hs.phase hs.call, run_pool hbs hworld⟩,
      step_handOut rfl hcall⟩
  refine ⟨_, _, s.world.pool.newConnections, ?_, hrun, ?_, hs.length⟩
  · simp
  · simp only [Session.receive, if_neg hreceive]

end Stocked

theorem run_grow (keepAlive : Pool.ConnectionKeepAlive) {connectionCount n : Nat}
    (hcount : connectionCount ≠ 0) (hn : n ≤ connectionCount) :
    ∃ world, run Pool.step ((World.new keepAlive false).setConnectionCount connectionCount)
        [.resize, .startTask 0, .finishConnecting 0 (List.replicate n (some 0)), .appendNew 0] =
        some world ∧
      world.call = .idle ∧
      world.pool = { Pool.QueuePool.new keepAlive false with
        maxConnection := connectionCount
        newConnections := Pool.openConnections keepAlive 0 (List.replicate n (some 0))
        failedConnection := connectionCount - n } := by
  have hpos : 0 < connectionCount := Nat.pos_of_ne_zero hcount
  have hset : (World.new keepAlive false).setConnectionCount connectionCount =
      { World.new keepAlive false with call := .resizing connectionCount } := by
    simp [World.setConnectionCount, Pool.QueuePool.shrinkTo, World.new, Pool.QueuePool.new, hpos]
  let grown : World := { World.new keepAlive false with
    pool := { Pool.QueuePool.new keepAlive false with maxConnection := connectionCount }
    tasks := [.resizeConnectionPool connectionCount] }
  have hresize : Pool.step ((World.new keepAlive false).setConnectionCount connectionCount)
      .resize = some grown := by
    rw [hset]
    simp [Pool.step, World.resize, World.spawnResizer, World.new, Pool.QueuePool.new, grown]
  have hstart : Pool.step grown (.startTask 0) =
      some (grown.startConnecting 0 connectionCount) := by
    simp [Pool.step, World.startTask, grown, hpos]
  obtain ⟨world, hworld, hcall, hpool⟩ := run_connect rfl hstart hn
  refine ⟨world, run_cons_eq_some.mpr ⟨grown, hresize, hworld⟩, hcall, ?_⟩
  simp [hpool, grown, World.new, Pool.QueuePool.new]

theorem handOut_nothing (keepAlive : Pool.ConnectionKeepAlive) {n : Nat} (hn : n ≠ 0) :
    ((World.new keepAlive true).claimRecyclable n).prepareHandOut n 0 =
      { World.new keepAlive true with
        tasks := [.addNewConnection n], call := .checking n [] [] 0 0 } := by
  simp [World.prepareHandOut, World.claimRecyclable, World.claimNew, World.takeOffBusy,
    World.adjust, World.requestMore, World.addNewConnectionMut, World.popConnections,
    Pool.popFront_eq, World.new, Pool.QueuePool.new, hn, Nat.pos_of_ne_zero hn]

theorem stocked_of_pool {loop : Loop} {keepAlive : Pool.ConnectionKeepAlive} {elasticPool : Bool}
    {maxConnection : Int} {handle failedConnection : Nat} (hphase : s.phase = .looping loop)
    (hcall : s.world.call = .idle)
    (hpool : s.world.pool = { Pool.QueuePool.new keepAlive elasticPool with
      maxConnection
      newConnections := Pool.openConnections keepAlive handle
        (List.replicate loop.requestedConnection (some 0))
      failedConnection })
    (hroom : elasticPool = true ∨ (loop.requestedConnection : Int) ≤ maxConnection) :
    Stocked loop s where
  phase := hphase
  call := hcall
  queue := by rw [hpool, Pool.QueuePool.new]
  recyclable := by rw [hpool, Pool.QueuePool.new]
  busy := by rw [hpool, Pool.QueuePool.new]
  room := by
    rw [hpool]
    exact hroom
  length := by
    rw [hpool]
    exact length_openConnections_replicate keepAlive handle loop.requestedConnection
  fresh := by
    rw [hpool]
    exact fun con hcon => shouldDrop_openConnections hcon

theorem exists_stocked_sized (keepAlive : Pool.ConnectionKeepAlive) (hqps : rate.qps ≠ 0)
    (hconnections : rate.connections ≠ 0) :
    ∃ (s t : Session Req) (cycle : List (Action Req)),
      run step (.new Req .batch requestBundleSize keepAlive false) [.rates rate] = some s ∧
      InCycle cycle ∧ run step s cycle = some t ∧
      Stocked (firstLoop requestBundleSize rate hqps) t := by
  have hle : (firstLoop requestBundleSize rate hqps).requestedConnection ≤ rate.connections := by
    rw [requestedConnection_firstLoop]
    simp only [bundleSize, if_neg hconnections]
    omega
  obtain ⟨world, hworld, hcall, hpool⟩ := run_grow keepAlive hconnections hle
  let s : Session Req := { Session.new Req .batch requestBundleSize keepAlive false with
    world := (World.new keepAlive false).setConnectionCount rate.connections
    prevConnectionCount := rate.connections
    phase := .starting rate }
  have hrates : step (.new Req .batch requestBundleSize keepAlive false) (.rates rate) =
      some s := by
    simp [step, Session.new, Session.handleRateMsg, Session.resize, hconnections.symm, Pool.step,
      World.new, s]
  have hrun := run_concat_eq_some.mpr
    ⟨_, run_pool (s := s) (by simp [isBackground]) hworld, step_start rfl hcall rfl hqps⟩
  refine ⟨s, _, _, run_singleton.trans hrates, by simp, hrun, ?_⟩
  exact stocked_of_pool rfl hcall hpool (.inr (Int.ofNat_le.mpr hle))

theorem exists_stocked_elastic (keepAlive : Pool.ConnectionKeepAlive) (hqps : rate.qps ≠ 0)
    (hconnections : rate.connections = 0) :
    ∃ (s t : Session Req) (cycle : List (Action Req)),
      run step (.new Req .batch requestBundleSize keepAlive true) [.rates rate] = some s ∧
      InCycle cycle ∧ run step s cycle = some t ∧
      Stocked (firstLoop requestBundleSize rate hqps) t := by
  let loop := firstLoop requestBundleSize rate hqps
  have hne : loop.requestedConnection ≠ 0 :=
    Nat.ne_of_gt (Nat.lt_min.mpr ⟨loop.bundleSize_pos, loop.remaining_pos⟩)
  let asked : World := { World.new keepAlive true with
    tasks := [.addNewConnection loop.requestedConnection] }
  let s : Session Req := { Session.new Req .batch requestBundleSize keepAlive true with
    phase := .starting rate }
  have hrates : step (.new Req .batch requestBundleSize keepAlive true) (.rates rate) =
      some s := by
    simp [step, Session.new, Session.handleRateMsg, Session.resize, hconnections, s]
  have hasked : run step s [.start 900, .getConnections 900, .pool .prepareHandOut, .handOut] =
      some { s with world := asked, phase := .looping loop } := by
    have hprepare : Pool.step ((World.new keepAlive true).claimRecyclable
        loop.requestedConnection) .prepareHandOut = some { asked with
          call := .checking loop.requestedConnection [] [] 0 0 } := by
      rw [← handOut_nothing keepAlive hne]
      rfl
    have hempty : { asked with call := .checking loop.requestedConnection [] [] 0 0 }.handOut [] 0
        0 = asked := by
      simp [World.handOut, World.refill, World.addNewConnectionMut, asked, World.new,
        Pool.QueuePool.new]
    refine run_cons_eq_some.mpr ⟨_, step_start rfl rfl rfl hqps, ?_⟩
    refine run_cons_eq_some.mpr ⟨_, step_getConnections rfl rfl, ?_⟩
    refine run_cons_eq_some.mpr ⟨_, step_pool rfl hprepare, ?_⟩
    rw [run_singleton, step_handOut rfl rfl, hempty]
    simp [Session.receive, asksAgain_iff, s, Session.new, loop]
  obtain ⟨world, hworld, hcall, hpool⟩ := run_connect (w := asked) (n := loop.requestedConnection)
    rfl rfl (Nat.le_refl _)
  have hrun := run_append_eq_some.mpr
    ⟨_, hasked, run_pool (s := { s with world := asked, phase := .looping loop })
      (by simp [isBackground]) hworld⟩
  refine ⟨s, _, _, run_singleton.trans hrates, by simp, hrun, ?_⟩
  exact stocked_of_pool rfl hcall hpool (.inl rfl)

theorem exists_fullBundle (requestBundleSize : Nat) (hqps : rate.qps ≠ 0) (req : Req) :
    ∃ (elasticPool : Bool) (s t u : Session Req) (cycle : List (Action Req)) (a : Action Req),
      run step (.new Req .batch requestBundleSize Pool.keepAliveForever elasticPool)
        [.rates rate] = some s ∧
      InCycle (cycle ++ [a]) ∧ run step s cycle = some t ∧ step t a = some u ∧
      t.dispatched a = bundleSize requestBundleSize rate .batch := by
  obtain ⟨elasticPool, s, stocked, stock, hrates, hstock, hrun, hstocked⟩ : ∃ elasticPool,
      ∃ (s t : Session Req) (cycle : List (Action Req)),
        run step (.new Req .batch requestBundleSize Pool.keepAliveForever elasticPool)
          [.rates rate] = some s ∧
        InCycle cycle ∧ run step s cycle = some t ∧
        Stocked (firstLoop requestBundleSize rate hqps) t := by
    by_cases hconnections : rate.connections = 0
    · exact ⟨true, exists_stocked_elastic _ hqps hconnections⟩
    · exact ⟨false, exists_stocked_sized _ hqps hconnections⟩
  obtain ⟨take, t, connections, htake, hrun', hphase, hlength⟩ := hstocked.full
  rw [requestedConnection_firstLoop] at hlength
  have hne : bundleSize requestBundleSize rate .batch ≠ 0 :=
    Nat.ne_of_gt (bundleSize_pos requestBundleSize .batch hqps)
  refine ⟨elasticPool, s, t, _, stock ++ take,
    .getRequests (.ok (List.replicate connections.length req)), hrates, by simp [hstock, htake],
    run_append_eq_some.mpr ⟨stocked, hrun, hrun'⟩, step_getRequests hphase _, ?_⟩
  simp [Session.dispatched, Session.spawned, hphase, hlength, hne]

/-- In every cycle that a message starts, each bundle has at most the declared size and the
bundles together have at most the requests of the message. -/
def RespectsBatchSize (requestBundleSize : Nat)
    (batchSize : {n : UInt64 // 1 ≤ n ∧ n ≤ 0xffffffffffffffff}) (rate : RateMessage) : Prop :=
  ∀ keepAlive elasticPool before cycle (s t : Session HttpReq),
    run step (.new HttpReq (handledAs (.batch batchSize)) requestBundleSize keepAlive elasticPool)
      (before ++ [.rates rate]) = some s →
    InCycle cycle → run step s cycle = some t →
    Meets step (fun _ u a => u.dispatched a ≤ batchSize.val.toNat) s cycle ∧
      tally step Session.dispatched s cycle ≤ rate.qps

theorem bundleSize_batch (requestBundleSize : Nat) (rate : RateMessage) :
    bundleSize requestBundleSize rate .batch =
      min rate.qps (min (if rate.connections = 0 then rate.qps else rate.connections)
        (max (rate.qps / 100 + 1) requestBundleSize)) := by
  simp only [bundleSize]
  split <;> omega

/-- The declared size is not read: what matters is the size that the loop computes. -/
theorem respectsBatchSize_iff (requestBundleSize : Nat)
    (batchSize : {n : UInt64 // 1 ≤ n ∧ n ≤ 0xffffffffffffffff}) (rate : RateMessage) :
    RespectsBatchSize requestBundleSize batchSize rate ↔
      min rate.qps (min (if rate.connections = 0 then rate.qps else rate.connections)
        (max (rate.qps / 100 + 1) requestBundleSize)) ≤ batchSize.val.toNat := by
  rw [← bundleSize_batch]
  constructor
  · intro h
    by_cases hqps : rate.qps = 0
    · have hle := bundleSize_le_qps requestBundleSize rate
      omega
    · obtain ⟨elasticPool, s, t, u, cycle, a, hrates, hcycle, hrun, hstep, hfull⟩ :=
        exists_fullBundle requestBundleSize hqps (get "/")
      have hmeets := (h Pool.keepAliveForever elasticPool [] (cycle ++ [a]) s u hrates hcycle
        (run_concat_eq_some.mpr ⟨t, hrun, hstep⟩)).1
      have hle : t.dispatched a ≤ batchSize.val.toNat := hmeets cycle a [] t rfl hrun
      exact hfull ▸ hle
  · intro hle keepAlive elasticPool before cycle s t hrates hcycle hrun
    obtain ⟨hs, hpassed⟩ := bundled_of_rates hrates
    constructor
    · rintro past a rest u rfl hu
      have hbundled := always_bundled hs hcycle past (a :: rest) u rfl hu
      exact Nat.le_trans (hbundled.dispatched_le a) hle
    · have htotal := tally_dispatched hcycle hrun
      have hbudget := ((always_bundled hs hcycle).last hrun).budget
      rw [hpassed, List.length_nil] at htotal
      omega

theorem one_valid : (1 : UInt64) ≤ 1 ∧ (1 : UInt64) ≤ 0xffffffffffffffff := by decide

def batchOfOne : {n : UInt64 // 1 ≤ n ∧ n ≤ 0xffffffffffffffff} := ⟨1, one_valid⟩

def takeTwo : List (Action HttpReq) :=
  [.pool .resize, .pool (.startTask 0), .pool (.finishConnecting 0 [some 0, some 0]),
    .pool (.appendNew 0), .start 900, .getConnections 900, .pool .prepareHandOut,
    .pool (.checkReady (Pool.openConnection Pool.keepAliveForever 0 0) true),
    .pool (.checkReady (Pool.openConnection Pool.keepAliveForever 1 0) true), .handOut]

def sendTwo : Action HttpReq := .getRequests (.ok [get "/a", get "/b"])

theorem batchOfOne_sendTwo :
    (run step (.new HttpReq (handledAs (.batch batchOfOne)) 50 Pool.keepAliveForever false)
      ([.rates ⟨2, 2⟩] ++ takeTwo)).map (fun s => s.dispatched sendTwo) = some 2 ∧
    ¬ RespectsBatchSize 50 batchOfOne ⟨2, 2⟩ := by
  have htwo : (run step (.new HttpReq (handledAs (.batch batchOfOne)) 50 Pool.keepAliveForever
      false) ([.rates ⟨2, 2⟩] ++ takeTwo)).map (fun s => s.dispatched sendTwo) = some 2 := by
    decide
  refine ⟨htwo, fun h => ?_⟩
  have hsome : (run step (.new HttpReq (handledAs (.batch batchOfOne)) 50 Pool.keepAliveForever
      false) ([.rates ⟨2, 2⟩] ++ (takeTwo ++ [sendTwo]))).isSome := by decide
  obtain ⟨u, hu⟩ := Option.isSome_iff_exists.mp hsome
  obtain ⟨s, hs, hcycle⟩ := run_append_eq_some.mp hu
  obtain ⟨t, ht, _⟩ := run_concat_eq_some.mp hcycle
  have hmeets := (h _ _ [] _ s u hs (by simp [takeTwo, sendTwo]) hcycle).1
  have hle : t.dispatched sendTwo ≤ 1 := hmeets takeTwo sendTwo [] t rfl ht
  rw [run_append_eq_some.mpr ⟨s, hs, ht⟩, Option.map_some, Option.some.injEq] at htwo
  omega

end Overload.Cycle
