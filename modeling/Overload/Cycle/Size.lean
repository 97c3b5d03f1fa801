import Overload.Cycle.Custody

namespace Overload.Cycle

open Transition
open Pool (HttpConnection World)

variable {Req : Type} {s t : Session Req} {a : Action Req} {w w' : World}

def SizeFollows (s : Session Req) : Prop :=
  ∀ rate, s.phase = .starting rate → s.world.call = .idle →
    s.world.pool.maxConnection = rate.connections

/-- A message with a share of zero connections that meets a handler whose count is
still zero finds a pool of size zero. -/
def ZeroFindsEmpty (s : Session Req) : Action Req → Prop
  | .rates rate =>
    rate.connections = 0 → s.prevConnectionCount = 0 → s.world.pool.maxConnection = 0
  | _ => True

theorem setConnectionCount_size {n : Nat}
    (h : Pool.step w (.setConnectionCount n) = some w') :
    (w'.call = .resizing n ∧ w'.pool.maxConnection = w.pool.maxConnection) ∨
      (w'.call = .idle ∧ w'.pool.maxConnection = n) := by
  cases Pool.Steps.of_step h with
  | setConnectionCount hcall =>
    simp only [World.setConnectionCount]
    split
    · exact .inl ⟨rfl, rfl⟩
    · exact .inr ⟨rfl, rfl⟩

theorem resize_size (h : Pool.step w .resize = some w') :
    ∃ n : Nat, w.call = .resizing n ∧ w'.call = .idle ∧ w'.pool.maxConnection = n := by
  cases Pool.Steps.of_step h with
  | resize hcall => exact ⟨_, hcall, rfl, rfl⟩

theorem prepareHandOut_size (w : World) (connectionRequest returnedToPool : Nat) :
    (w.prepareHandOut connectionRequest returnedToPool).pool.maxConnection =
        w.pool.maxConnection ∧
      ∀ n, (w.prepareHandOut connectionRequest returnedToPool).call ≠ .resizing n := by
  unfold World.prepareHandOut
  split
  · exact ⟨rfl, fun n => by simp⟩
  · exact ⟨(World.adjust_pool _ connectionRequest).2, fun n => by simp [World.popConnections]⟩

theorem size_kept {b : Pool.Action} (h : Pool.step w b = some w') (hresize : b ≠ .resize)
    (hset : ∀ n, b ≠ .setConnectionCount n) :
    w'.pool.maxConnection = w.pool.maxConnection ∧
      ∀ n, w'.call = .resizing n ↔ w.call = .resizing n := by
  cases Pool.Steps.of_step h with
  | setConnectionCount hcall => exact absurd rfl (hset _)
  | resize hcall => exact absurd rfl hresize
  | prepareHandOut hcall =>
    obtain ⟨hsize, hcall'⟩ := prepareHandOut_size w _ _
    exact ⟨hsize, fun n => by simp [hcall, hcall']⟩
  | getConnections hcall => exact ⟨rfl, fun n => by simp [World.claimRecyclable, hcall]⟩
  | ready hcall hmem => exact ⟨rfl, fun n => by simp [hcall]⟩
  | broken hcall hmem => exact ⟨rfl, fun n => by simp [hcall]⟩
  | handOut hcall =>
    refine ⟨?_, fun n => by simp [World.handOut, hcall]⟩
    simp [World.handOut, World.refill]
  | _ => exact ⟨rfl, fun n => .rfl⟩

def Phase.Resizes (call : Pool.Call) : Phase Req → Prop
  | .starting rate => call = .idle ∨ call = .resizing rate.connections
  | .acquiring _ => ∀ n, call ≠ .resizing n
  | _ => call = .idle

theorem Phase.resizes_idle (phase : Phase Req) : phase.Resizes .idle := by
  cases phase with
  | starting rate => exact .inl rfl
  | acquiring loop => exact fun n => by simp
  | _ => rfl

structure Sized (s : Session Req) : Prop where
  call : s.phase.Resizes s.world.call
  prev : ∀ rate, s.phase = .starting rate → s.prevConnectionCount = rate.connections
  size : (∀ n, s.world.call ≠ .resizing n) →
    s.prevConnectionCount = 0 ∨ s.world.pool.maxConnection = s.prevConnectionCount

namespace Sized

theorem new (mode : LoadGenerationMode) (requestBundleSize : Nat)
    (keepAlive : Pool.ConnectionKeepAlive) (elasticPool : Bool) :
    Sized (Session.new Req mode requestBundleSize keepAlive elasticPool) where
  call := rfl
  prev := by simp [Session.new]
  size := fun _ => .inl rfl

theorem call_of_phase (hs : Sized s) {phase : Phase Req} (h : s.phase = phase) :
    phase.Resizes s.world.call :=
  h ▸ hs.call

theorem withPhase (hs : Sized s) {phase : Phase Req} (hcall : s.world.call = .idle)
    (hstart : ∀ rate, phase ≠ .starting rate) {inFlight : List (HttpConnection × Req)}
    {obtained passed : List HttpConnection} :
    Sized { s with phase, inFlight, obtained, passed } where
  call := by
    rw [hcall]
    exact phase.resizes_idle
  prev := fun rate h => absurd h (hstart rate)
  size := hs.size

theorem withWorld (hs : Sized s) {b : Pool.Action} {world : World}
    (h : Pool.step s.world b = some world) (hresize : b ≠ .resize)
    (hset : ∀ n, b ≠ .setConnectionCount n) (hidle : s.world.call = .idle → world.call = .idle)
    {inFlight : List (HttpConnection × Req)} : Sized { s with world, inFlight } := by
  obtain ⟨hsize, hcall⟩ := size_kept h hresize hset
  refine ⟨?_, hs.prev, ?_⟩
  · have hbefore := hs.call
    change s.phase.Resizes world.call
    cases hphase : s.phase with
    | starting rate =>
      rw [hphase] at hbefore
      exact hbefore.imp hidle (hcall _).mpr
    | acquiring loop =>
      rw [hphase] at hbefore
      exact fun n hn => hbefore n ((hcall n).mp hn)
    | _ =>
      rw [hphase] at hbefore
      exact hidle hbefore
  · intro hnone
    rw [hsize]
    exact hs.size fun n hn => hnone n ((hcall n).mpr hn)

theorem resize (hs : Sized s) {world : World} (h : Pool.step s.world .resize = some world) :
    Sized { s with world } := by
  obtain ⟨n, hn, hidle, hsize⟩ := resize_size h
  -- only the start of a cycle can be inside a resize, and it is that of its message
  have hcall := hs.call
  rw [hn] at hcall
  cases hphase : s.phase with
  | starting rate =>
    rw [hphase] at hcall
    obtain rfl : n = rate.connections := by simpa [Phase.Resizes] using hcall
    have hprev := hs.prev rate hphase
    refine ⟨.inl hidle, ?_, fun _ => .inr (by rw [hsize, hprev])⟩
    rintro _ ⟨⟩
    exact hprev
  | acquiring loop =>
    rw [hphase] at hcall
    exact absurd rfl (hcall n)
  | _ =>
    rw [hphase] at hcall
    cases hcall

theorem handleRateMsg (hs : Sized s) {rate : RateMessage} (hphase : s.phase = .waiting)
    (h : s.handleRateMsg rate = some t) : Sized t := by
  have hcall : s.world.call = .idle := hs.call_of_phase hphase
  obtain ⟨world, hworld, rfl⟩ := Option.map_eq_some_iff.mp h
  have hprev : ∀ rate', (Phase.starting rate : Phase Req) = .starting rate' →
      rate.connections = rate'.connections := by
    rintro _ ⟨⟩
    rfl
  rcases Session.resize_eq_some hworld with ⟨_, hworld⟩ | ⟨hsame, rfl⟩
  · rcases setConnectionCount_size hworld with ⟨hcall', _⟩ | ⟨hcall', hsize⟩
    · exact ⟨.inr hcall', hprev, fun hnone => absurd hcall' (hnone _)⟩
    · exact ⟨.inl hcall', hprev, fun _ => .inr hsize⟩
  · refine ⟨.inl hcall, hprev, ?_⟩
    rw [← hsame]
    exact hs.size

theorem getConnections (hs : Sized s) {loop : Loop} {timeRemaining : Int}
    (hphase : s.phase = .looping loop) (h : s.getConnections loop timeRemaining = some t) :
    Sized t := by
  have hcall : s.world.call = .idle := hs.call_of_phase hphase
  rcases Session.getConnections_eq_some h with rfl | ⟨world, hworld, rfl⟩
  · exact hs.withPhase hcall (by simp)
  · obtain ⟨hsize, hresizing⟩ := size_kept hworld (by simp) (by simp)
    have hnone : ∀ n, s.world.call ≠ .resizing n := by simp [hcall]
    refine ⟨fun n hn => hnone n ((hresizing n).mp hn), by simp, fun _ => ?_⟩
    rw [hsize]
    exact hs.size hnone

theorem handOut (hs : Sized s) {loop : Loop} (hphase : s.phase = .acquiring loop)
    (h : s.handOut loop = some t) : Sized t := by
  have hnone : ∀ n, s.world.call ≠ .resizing n := hs.call_of_phase hphase
  obtain ⟨_, vec, _, _, world, _, hworld, rfl⟩ := Session.handOut_eq_some h
  obtain ⟨hsize, _⟩ := size_kept hworld (by simp) (by simp)
  have hidle := call_handOut hworld
  have hsized : s.prevConnectionCount = 0 ∨ world.pool.maxConnection = s.prevConnectionCount := by
    rw [hsize]
    exact hs.size hnone
  unfold Session.receive
  split
  · exact ⟨hidle, by simp, fun _ => hsized⟩
  · exact ⟨hidle, by simp, fun _ => hsized⟩

theorem sendRequests (hs : Sized s) {loop : Loop} {connections : List HttpConnection}
    {answer : Except String (List Req)} (hphase : s.phase = .generating loop connections) :
    Sized (s.sendRequests loop connections answer) := by
  have hcall : s.world.call = .idle := hs.call_of_phase hphase
  cases answer with
  | error message => exact hs.withPhase hcall (by simp)
  | ok requestsToSend =>
    simp only [Session.sendRequests]
    split
    · exact hs.withPhase hcall (by simp)
    · split <;> exact hs.withPhase hcall (by simp)

theorem step (hs : Sized s) (h : Cycle.step s a = some t) : Sized t := by
  cases Steps.of_step h with
  | rates hphase h => exact hs.handleRateMsg hphase h
  | start hphase hcall =>
    unfold Session.start
    split
    · exact hs.withPhase hcall (by simp)
    · split <;> exact hs.withPhase hcall (by simp)
  | getConnections hphase h => exact hs.getConnections hphase h
  | handOut hphase h => exact hs.handOut hphase h
  | getRequests hphase => exact hs.sendRequests hphase
  | fill hphase =>
    have hcall : s.world.call = .idle := hs.call_of_phase hphase
    unfold Session.fillReq
    split <;> exact hs.withPhase hcall (by simp)
  | pace hphase =>
    have hcall : s.world.call = .idle := hs.call_of_phase hphase
    unfold Session.pace
    split
    · exact hs.withPhase hcall (by simp)
    · split <;> exact hs.withPhase hcall (by simp)
  | finishRequest hi hworld =>
    refine hs.withWorld hworld (by simp) (by simp) fun hidle => ?_
    cases Pool.Steps.of_step hworld with
    | returnConnection hmem => exact hidle
  | @pool b world hb hworld =>
    by_cases hresize : b = .resize
    · subst hresize
      exact hs.resize hworld
    · refine hs.withWorld hworld hresize ?_ (background_spec hb hworld).2.1
      rintro n rfl
      cases hb
  | reconnect hphase =>
    refine ⟨hs.call, ?_, fun _ => .inl rfl⟩
    simp [hphase]

end Sized

theorem sizeFollows_rates (hs : Sized s) {rate : RateMessage} (hphase : s.phase = .waiting)
    (h : s.handleRateMsg rate = some t) :
    SizeFollows t ↔ ZeroFindsEmpty s (.rates rate) := by
  have hcall : s.world.call = .idle := hs.call_of_phase hphase
  obtain ⟨world, hworld, rfl⟩ := Option.map_eq_some_iff.mp h
  have hfollows : ∀ {world : World}, SizeFollows { s with
        world
        prevConnectionCount := rate.connections
        phase := .starting rate
        obtained := []
        passed := [] } ↔
      (world.call = .idle → world.pool.maxConnection = rate.connections) := by
    simp [SizeFollows]
  rw [hfollows]
  rcases Session.resize_eq_some hworld with ⟨hchanged, hworld⟩ | ⟨hprev, rfl⟩
  · refine iff_of_true ?_ ?_
    · rcases setConnectionCount_size hworld with ⟨hcall', _⟩ | ⟨_, hsize⟩
      · simp [hcall']
      · exact fun _ => hsize
    · exact fun hzero hprev => absurd (hprev.trans hzero.symm) hchanged
  · have hsize := hs.size (by simp [hcall])
    simp only [ZeroFindsEmpty, hcall, forall_const]
    omega

theorem starting_of_step (h : step s a = some t) (ha : ∀ rate, a ≠ .rates rate)
    {rate : RateMessage} (ht : t.phase = .starting rate) :
    s.phase = .starting rate ∧
      ∃ b, Pool.step s.world b = some t.world ∧ ∀ n, b ≠ .setConnectionCount n := by
  cases Steps.of_step h with
  | rates hphase h => exact absurd rfl (ha _)
  | start hphase hcall =>
    simp only [Session.start] at ht
    split at ht
    · cases ht
    · split at ht <;> cases ht
  | getConnections hphase h =>
    rcases Session.getConnections_eq_some h with rfl | ⟨world, _, rfl⟩
    · cases ht
    · cases ht
  | handOut hphase h =>
    obtain ⟨_, vec, _, _, world, _, _, rfl⟩ := Session.handOut_eq_some h
    simp only [Session.receive] at ht
    split at ht <;> cases ht
  | @getRequests loop connections answer hphase =>
    cases answer with
    | error message => cases ht
    | ok requestsToSend =>
      simp only [Session.sendRequests] at ht
      split at ht
      · cases ht
      · split at ht <;> cases ht
  | fill hphase =>
    unfold Session.fillReq at ht
    split at ht <;> cases ht
  | pace hphase =>
    simp only [Session.pace] at ht
    split at ht
    · cases ht
    · split at ht <;> cases ht
  | finishRequest hi hworld => exact ⟨ht, _, hworld, by simp⟩
  | pool hb hworld =>
    refine ⟨ht, _, hworld, ?_⟩
    rintro n rfl
    cases hb
  | reconnect hphase => cases hphase.symm.trans ht

theorem SizeFollows.of_step (hs : Sized s) (hfollows : SizeFollows s) (h : step s a = some t)
    (ha : ∀ rate, a ≠ .rates rate) : SizeFollows t := by
  intro rate ht hidle
  obtain ⟨hphase, b, hworld, hset⟩ := starting_of_step h ha ht
  have hcall := hs.call_of_phase hphase
  by_cases hresize : b = .resize
  · subst hresize
    obtain ⟨n, hn, _, hsize⟩ := resize_size hworld
    obtain rfl : n = rate.connections := by simpa [Phase.Resizes, hn] using hcall
    exact hsize
  · obtain ⟨hsize, hresizing⟩ := size_kept hworld hresize hset
    rcases hcall with hcall | hcall
    · rw [hsize]
      exact hfollows rate hphase hcall
    · cases hidle.symm.trans ((hresizing _).mpr hcall)

theorem sizeFollows_step (hs : Sized s) (hfollows : SizeFollows s) (h : step s a = some t) :
    SizeFollows t ↔ ZeroFindsEmpty s a := by
  by_cases ha : ∃ rate, a = .rates rate
  · obtain ⟨rate, rfl⟩ := ha
    cases Steps.of_step h with
    | rates hphase h => exact sizeFollows_rates hs hphase h
  · refine iff_of_true (hfollows.of_step hs h fun rate hrate => ha ⟨rate, hrate⟩) ?_
    cases a with
    | rates rate => exact absurd ⟨rate, rfl⟩ ha
    | _ => trivial

/-- Over any number of sessions of a job and any messages: the size follows the
messages exactly if no handler takes over a pool that has a size and then receives a
share of zero as its first. -/
theorem size_follows_iff (mode : LoadGenerationMode) (requestBundleSize : Nat)
    (keepAlive : Pool.ConnectionKeepAlive) (elasticPool : Bool) {as : List (Action Req)}
    (hrun : run step (Session.new Req mode requestBundleSize keepAlive elasticPool) as = some s) :
    Always step (fun _ s => SizeFollows s)
        (Session.new Req mode requestBundleSize keepAlive elasticPool) as ↔
      Meets step (fun _ s a => ZeroFindsEmpty s a)
        (Session.new Req mode requestBundleSize keepAlive elasticPool) as :=
  always_iff_meets (I := Sized) (.new ..) (fun _ _ _ hs h => hs.step h)
    (by simp [SizeFollows, Session.new])
    (fun _ _ _ _ hs hfollows h => sizeFollows_step hs hfollows h) hrun

instance (s : Session Req) : (a : Action Req) → Decidable (ZeroFindsEmpty s a)
  | .rates _ => inferInstanceAs (Decidable (_ → _ → _))
  | .start _ | .getConnections _ | .handOut | .getRequests _ | .fill | .pace _
  | .finishRequest _ _ | .pool _ | .reconnect => inferInstanceAs (Decidable True)

def newBatch : Session Nat := .new Nat .batch 50 Pool.keepAliveForever false

def reconnectTo (rate : RateMessage) : List (Action Nat) :=
  [.rates ⟨0, 2⟩, .pool .resize, .start 900, .reconnect, .rates rate]

def reconnected (rate : RateMessage) : Session Nat :=
  (run step newBatch (reconnectTo rate)).getD newBatch

theorem size_follows_shrink :
    (reconnected ⟨1, 1⟩).phase = .starting ⟨1, 1⟩ ∧
      (reconnected ⟨1, 1⟩).world.pool.maxConnection = 1 := by
  have hrun : run step newBatch (reconnectTo ⟨1, 1⟩) = some (reconnected ⟨1, 1⟩) := by decide
  have halways := (size_follows_iff .batch 50 Pool.keepAliveForever false hrun).mpr (by decide)
  exact ⟨by decide, halways.last hrun ⟨1, 1⟩ (by decide) (by decide)⟩

theorem reconnectTo_zero_keeps_size :
    ¬ Always step (fun _ s => SizeFollows s) newBatch (reconnectTo ⟨1, 0⟩) ∧
    (reconnected ⟨1, 0⟩).phase = .starting ⟨1, 0⟩ ∧
    (reconnected ⟨1, 0⟩).world.call = .idle ∧
    (reconnected ⟨1, 0⟩).world.pool.maxConnection = 2 := by
  have hrun : run step newBatch (reconnectTo ⟨1, 0⟩) = some (reconnected ⟨1, 0⟩) := by decide
  refine ⟨not_always_of_last hrun fun hfollows => ?_, by decide, by decide, by decide⟩
  have hzero := hfollows ⟨1, 0⟩ (by decide) (by decide)
  revert hzero
  decide

end Overload.Cycle
