import Overload.Pool.Bounds

namespace Overload.Pool

open Transition

def World.onHand (w : World) : Nat :=
  w.pool.connections.length + w.pool.newConnections.length +
    w.pool.recyclableConnections.length + w.attempts + w.pool.failedConnection

theorem World.onHand_add_out {w : World} (h : w.call.stage.inHand = 0) :
    w.onHand + w.out = w.counts.supply := by
  simp only [World.onHand, Counts.supply, World.counts, h]
  omega

def Calm (w : World) : Prop :=
  w.pool.elastic = true →
    w.pool.maxConnection = 0 ∧ (∀ connectionCount, w.call ≠ .resizing connectionCount) ∧
      ∀ diff, .resizeConnectionPool diff ∈ w.tasks → 0 ≤ diff

variable {w w' : World} {a : Action}

theorem Calm.of_tasks (hw : Calm w) (helastic : w'.pool.elastic = true → w.pool.elastic = true)
    (hsize : w'.pool.maxConnection = w.pool.maxConnection)
    (hcall : ∀ connectionCount, w'.call ≠ .resizing connectionCount ∨ w'.call = w.call)
    (htasks : ∀ diff, .resizeConnectionPool diff ∈ w'.tasks →
      .resizeConnectionPool diff ∈ w.tasks) : Calm w' := by
  intro he
  obtain ⟨hmax, hresizing, hdiff⟩ := hw (helastic he)
  refine ⟨hsize.trans hmax, ?_, fun diff hmem => hdiff diff (htasks diff hmem)⟩
  intro connectionCount
  cases hcall connectionCount with
  | inl h => exact h
  | inr h =>
    rw [h]
    exact hresizing connectionCount

theorem setConnectionCount_elastic (connectionCount : Nat) :
    (w.setConnectionCount connectionCount).pool.elastic =
      (w.pool.elastic && decide (connectionCount = w.pool.maxConnection.toNat)) := by
  simp only [World.setConnectionCount]
  split <;> rfl

theorem Calm.setConnectionCount (hw : Calm w) (connectionCount : Nat) :
    Calm (w.setConnectionCount connectionCount) := by
  intro he
  rw [setConnectionCount_elastic, Bool.and_eq_true, decide_eq_true_eq] at he
  obtain ⟨hmax, -, hdiff⟩ := hw he.1
  -- an elastic pool has size zero, so this call does not change it
  have hnot : ¬ (connectionCount : Int) - (w.pool.shrinkTo connectionCount).maxConnection > 0 := by
    simp only [QueuePool.shrinkTo]
    omega
  have hzero : (connectionCount : Int) - (w.pool.shrinkTo connectionCount).maxConnection = 0 := by
    simp only [QueuePool.shrinkTo]
    omega
  simp only [World.setConnectionCount, if_neg hnot]
  refine ⟨?_, ?_, ?_⟩
  · simp only [World.spawnResizer]
    omega
  · simp [World.spawnResizer]
  · intro diff hmem
    simp only [World.spawnResizer, hzero, List.mem_append, List.mem_singleton,
      Task.resizeConnectionPool.injEq] at hmem
    cases hmem with
    | inl h => exact hdiff diff h
    | inr h => omega

theorem addNewConnectionMut_tasks {count : Nat} {diff : Int}
    (h : .resizeConnectionPool diff ∈ (w.addNewConnectionMut count).tasks) :
    .resizeConnectionPool diff ∈ w.tasks := by
  simp only [World.addNewConnectionMut] at h
  split at h <;> simpa using h

theorem adjust_tasks {connectionRequest : Nat} {diff : Int}
    (h : .resizeConnectionPool diff ∈ (w.adjust connectionRequest).tasks) :
    .resizeConnectionPool diff ∈ w.tasks := by
  simp only [World.adjust, World.requestMore, World.reEnforce] at h
  split at h
  · split at h
    · exact addNewConnectionMut_tasks h
    · exact h
  · split at h <;> exact h

theorem mem_tasks_set {i : Nat} {task : Task} {diff : Int}
    (htask : ∀ diff, task ≠ .resizeConnectionPool diff)
    (h : .resizeConnectionPool diff ∈ w.tasks.set i task) :
    .resizeConnectionPool diff ∈ w.tasks := by
  cases List.mem_or_eq_of_mem_set h with
  | inl h => exact h
  | inr h => exact absurd h.symm (htask diff)

theorem Calm.step (hw : Calm w) (h : Pool.step w a = some w') : Calm w' := by
  cases Steps.of_step h with
  | setConnectionCount hcall => exact hw.setConnectionCount _
  | @resize connectionCount hcall =>
    intro he
    exact absurd hcall ((hw he).2.1 connectionCount)
  | getConnections hcall =>
    exact hw.of_tasks id rfl (fun _ => .inl (by simp [World.claimRecyclable])) (fun _ => id)
  | @prepareHandOut connectionRequest returnedToPool hcall =>
    simp only [World.prepareHandOut]
    split
    · exact hw.of_tasks id rfl (fun _ => .inl (by simp)) (fun _ => id)
    · obtain ⟨helastic, hsize⟩ :=
        (w.claimNew.takeOffBusy returnedToPool).adjust_pool connectionRequest
      refine hw.of_tasks ?_ hsize (fun _ => .inl (by simp [World.popConnections])) ?_
      · exact fun he => helastic.symm.trans he
      · exact fun _ hmem => adjust_tasks (w := w.claimNew.takeOffBusy returnedToPool) hmem
  | ready hcall hmem => exact hw.of_tasks id rfl (fun _ => .inl (by simp)) (fun _ => id)
  | broken hcall hmem => exact hw.of_tasks id rfl (fun _ => .inl (by simp)) (fun _ => id)
  | handOut hcall =>
    refine hw.of_tasks ?_ ?_ (fun _ => .inl (by simp [World.handOut])) ?_
    · simp [World.handOut, World.refill]
    · simp [World.handOut, World.refill]
    · intro diff hmem
      exact addNewConnectionMut_tasks (w := { w with pool := { w.pool with
        failedConnection := 0 } }) hmem
  | returnConnection hmem => exact hw.of_tasks id rfl (fun _ => .inr rfl) (fun _ => id)
  | pushReturned hmem => exact hw.of_tasks id rfl (fun _ => .inr rfl) (fun _ => id)
  | removeNew hi hneg =>
    exact hw.of_tasks id rfl (fun _ => .inr rfl) (fun _ => List.mem_of_mem_eraseIdx)
  | growPool hi hpos =>
    exact hw.of_tasks id rfl (fun _ => .inr rfl) (fun _ => mem_tasks_set (by simp))
  | leavePool hi =>
    exact hw.of_tasks id rfl (fun _ => .inr rfl) (fun _ => List.mem_of_mem_eraseIdx)
  | startConnecting hi =>
    exact hw.of_tasks id rfl (fun _ => .inr rfl) (fun _ => mem_tasks_set (by simp))
  | finishConnecting hi hle hconn =>
    exact hw.of_tasks id rfl (fun _ => .inr rfl) (fun _ => mem_tasks_set (by simp))
  | appendNew hi =>
    exact hw.of_tasks id rfl (fun _ => .inr rfl) (fun _ => List.mem_of_mem_eraseIdx)

theorem calm_of_reachable {elasticPool : Bool} (h : Reachable Pool.step (Initial elasticPool) w) :
    Calm w := by
  apply h.invariant
  · rintro _ ⟨keepAlive, rfl⟩ -
    exact ⟨rfl, by simp [World.new], by simp [World.new]⟩
  · exact fun _ _ _ => Calm.step

def Stage.vec : Stage → Nat
  | .checking _ _ vec _ => vec
  | _ => 0

def Action.background : Action → Bool
  | .checkReady _ _ | .startTask _ | .finishConnecting _ _ | .appendNew _ => true
  | _ => false

def Action.ready : Action → Bool
  | .checkReady _ true => true
  | _ => false

structure Counts.Moves (s t : Counts) (ready : Nat) : Prop where
  supply : t.supply = s.supply
  out : t.out = s.out
  recyclable : t.recyclable = s.recyclable
  elastic : t.elastic = s.elastic
  vec : t.stage.vec = s.stage.vec + ready
  claiming : ∀ request returned, s.stage = .claiming request returned → t.stage = s.stage

theorem Counts.Moves.refl (s : Counts) : s.Moves s 0 := ⟨rfl, rfl, rfl, rfl, rfl, fun _ _ _ => rfl⟩

theorem Counts.Moves.trans {s t u : Counts} {m n : Nat} (h : s.Moves t m) (h' : t.Moves u n) :
    s.Moves u (m + n) where
  supply := h'.supply.trans h.supply
  out := h'.out.trans h.out
  recyclable := h'.recyclable.trans h.recyclable
  elastic := h'.elastic.trans h.elastic
  vec := by rw [h'.vec, h.vec, Nat.add_assoc]
  claiming := by
    intro request returned hs
    have ht := h.claiming request returned hs
    rw [h'.claiming request returned (ht.trans hs), ht]

def Event.ready : Event → Option Nat
  | .check ok => some ok.toNat
  | .fail _ | .arrive _ | .pause => some 0
  | _ => none

theorem Counts.moves_step {s t : Counts} {e : Event} {ready : Nat} (hs : s.Sound)
    (he : e.ready = some ready) (h : s.step e = some t) : s.Moves t ready := by
  have hsup := supply_step hs h
  cases Steps.of_step h with
  | ready hstage =>
    cases he
    refine ⟨by simpa [shed, grown] using hsup, rfl, rfl, rfl, ?_, by simp [hstage]⟩
    simp [Stage.vec, hstage]
  | broken hstage =>
    cases he
    refine ⟨by simpa [shed, grown] using hsup, rfl, rfl, rfl, ?_, by simp [hstage]⟩
    simp [Stage.vec, hstage]
  | fail hcount =>
    cases he
    exact ⟨by simpa [shed, grown] using hsup, rfl, rfl, rfl, rfl, fun _ _ _ => rfl⟩
  | arrive hcount =>
    cases he
    exact ⟨by simpa [shed, grown] using hsup, rfl, rfl, rfl, rfl, fun _ _ _ => rfl⟩
  | pause =>
    cases he
    exact .refl s
  | _ => cases he

theorem event_ready (hcalm : Calm w) (he : w.pool.elastic = true) (ha : a.background = true) :
    (w.event a).ready = some a.ready.toNat := by
  obtain ⟨-, -, hdiff⟩ := hcalm he
  cases a with
  | checkReady con ok => cases ok <;> rfl
  | startTask i =>
    simp only [World.event]
    split
    · rename_i diff hi
      have := hdiff diff (List.mem_of_getElem? hi)
      rw [if_neg (by omega)]
      rfl
    · rfl
  | finishConnecting i results =>
    simp only [World.event]
    split <;> rfl
  | appendNew i =>
    simp only [World.event]
    split <;> rfl
  | _ => cases ha

theorem moves_run {as : List Action} (hw : w.counts.Sound) (hcalm : Calm w)
    (he : w.pool.elastic = true) (has : ∀ a ∈ as, a.background = true)
    (hrun : run step w as = some w') : w.counts.Moves w'.counts (as.countP Action.ready) := by
  induction as generalizing w with
  | nil =>
    cases hrun
    exact .refl _
  | cons a as ih =>
    obtain ⟨u, hu, hrest⟩ := run_cons_eq_some.mp hrun
    have hready := event_ready hcalm he (has a List.mem_cons_self)
    have hmoves := Counts.moves_step hw hready (step_counts hu)
    have htail := ih (hw.step (step_counts hu)) (hcalm.step hu) (hmoves.elastic.trans he)
      (fun b hb => has b (List.mem_cons_of_mem a hb)) hrest
    have hcount : (a :: as).countP Action.ready = a.ready.toNat + as.countP Action.ready := by
      cases ha : a.ready <;> simp [ha, Nat.add_comm]
    rw [hcount]
    exact hmoves.trans htail

theorem claim_counts {n : Nat} (h : step w (.getConnections n) = some w') :
    w'.counts.supply = w.counts.supply ∧ w'.out = w.out ∧ w'.pool.recyclableConnections = [] ∧
      w'.pool.elastic = w.pool.elastic ∧ ∃ returned, w'.call = .claiming n returned := by
  cases Steps.of_step h with
  | getConnections hcall =>
    refine ⟨?_, rfl, rfl, rfl, _, rfl⟩
    simp [World.claimRecyclable, World.counts, Counts.supply, hcall, Call.stage, Stage.inHand,
      World.attempts, World.out]
    omega

theorem prepare_counts {n returned : Nat} (hw : w.counts.Sound) (he : w.pool.elastic = true)
    (hcall : w.call = .claiming n returned) (h : step w .prepareHandOut = some w') :
    w'.counts.supply = w.counts.supply +
        (n - (w.pool.connections.length + w.pool.newConnections.length)) ∧
      w'.counts.out = w.counts.out ∧ w'.counts.elastic = true ∧ w'.counts.stage.vec = 0 := by
  have hstage : w.counts.stage = .claiming n returned := by simp [World.counts, hcall, Call.stage]
  have helastic : w.counts.elastic = true := he
  have hc := step_counts h
  have hsup := Counts.supply_step hw hc
  have hbusy : ¬ w.counts.busy < returned := by
    have hbal := hw.balance
    rw [hstage] at hbal
    simp only [Stage.credited] at hbal
    omega
  have hevent : ∃ expired, w.event .prepareHandOut = .prepare expired := by
    simp only [World.event, hcall]
    split <;> exact ⟨_, rfl⟩
  obtain ⟨expired, hexpired⟩ := hevent
  rw [hexpired] at hc hsup
  simp only [Counts.shed, Counts.grown, hstage, Counts.kept, Counts.shortage, helastic,
    Bool.true_eq_false, false_and, if_false, if_true] at hsup
  have hcounts := Counts.Steps.of_step hc
  generalize w'.counts = t at hsup hcounts ⊢
  cases hcounts with
  | prepare hstage' hexpired =>
    obtain ⟨rfl, rfl⟩ := Stage.claiming.inj (hstage.symm.trans hstage')
    simp only [Nat.sub_self, Nat.add_zero] at hsup
    refine ⟨hsup, ?_, ?_, ?_⟩ <;> simp only [Counts.prepare, if_neg hbusy]
    · exact helastic
    · rfl

theorem handOut_counts (hw : w.counts.Sound) (h : step w .handOut = some w') :
    w'.counts.supply = w.counts.supply ∧ w'.counts.out = w.counts.out + w.counts.stage.vec ∧
      w'.counts.stage.inHand = 0 := by
  have hc := step_counts h
  have hsup := Counts.supply_step hw hc
  have hcounts := Counts.Steps.of_step hc
  simp only [World.event, Counts.shed, Counts.grown] at hsup hcounts
  generalize w'.counts = t at hsup hcounts ⊢
  cases hcounts with
  | handOut hstage => exact ⟨hsup, by rw [hstage]; rfl, rfl⟩

/-- One `get_connections` on an elastic pool, with the spawned tasks free to run at
its awaits.  The sum stays within the larger of its old value and the request exactly
when the queue covers the request as far as the call does not hand out, or the call
hands out as much as was still being opened or waiting to be retried. -/
theorem elastic_demand_iff (w u w' : World) (n : Nat) (before after : List Action)
    (hreach : Reachable step (Initial true) w) (hidle : w.call = .idle)
    (helastic : w.pool.elastic = true) (hbefore : ∀ a ∈ before, a.background = true)
    (hafter : ∀ a ∈ after, a.background = true)
    (hclaim : run step w (.getConnections n :: before) = some u)
    (hrest : run step u (.prepareHandOut :: after ++ [.handOut]) = some w') :
    w'.onHand ≤ max w.onHand n ↔
      n ≤ u.pool.connections.length + u.pool.newConnections.length + after.countP Action.ready ∨
        u.attempts + u.pool.failedConnection ≤ after.countP Action.ready := by
  obtain ⟨w₁, hw₁, hbackground⟩ := run_cons_eq_some.mp hclaim
  obtain ⟨u₂, hpre, hhand⟩ := run_concat_eq_some.mp hrest
  obtain ⟨u₁, hprepare, hchecks⟩ := run_cons_eq_some.mp hpre
  -- every state on the way is reachable
  have hreach₁ := hreach.run (run_singleton.trans hw₁)
  have hreachU := hreach₁.run hbackground
  have hreachU₁ := hreachU.run (run_singleton.trans hprepare)
  obtain ⟨hsup₁, hout₁, hrec₁, hel₁, returned, hcall₁⟩ := claim_counts hw₁
  have hmoves := moves_run (counts_sound hreach₁) (calm_of_reachable hreach₁)
    (hel₁.trans helastic) hbefore hbackground
  have hstageU : u.call.stage = .claiming n returned := by
    have hstage₁ : w₁.counts.stage = .claiming n returned := by
      simp [World.counts, hcall₁, Call.stage]
    exact (hmoves.claiming n returned hstage₁).trans hstage₁
  have hcallU : u.call = .claiming n returned := by
    cases hu : u.call <;> simp [hu, Call.stage] at hstageU
    simp [hstageU]
  have helU : u.pool.elastic = true := hmoves.elastic.trans (hel₁.trans helastic)
  obtain ⟨hsupU₁, houtU₁, helU₁, hvecU₁⟩ :=
    prepare_counts (counts_sound hreachU) helU hcallU hprepare
  have hmoves' := moves_run (counts_sound hreachU₁) (calm_of_reachable hreachU₁) helU₁ hafter
    hchecks
  obtain ⟨hsup', hout', hhand'⟩ := handOut_counts (counts_sound (hreachU₁.run hchecks)) hhand
  have hw := World.onHand_add_out (w := w) (by simp [hidle, Call.stage, Stage.inHand])
  have hw' := World.onHand_add_out (w := w') hhand'
  have hu := World.onHand_add_out (w := u) (by simp [hstageU, Stage.inHand])
  have hrecU : u.pool.recyclableConnections.length = 0 := by
    have := hmoves.recyclable
    simpa [World.counts, hrec₁] using this
  have hsup := hmoves.supply
  have hout := hmoves.out
  have hsup'' := hmoves'.supply
  have hout'' := hmoves'.out
  have hvec := hmoves'.vec
  have hwout : ∀ v : World, v.counts.out = v.out := fun _ => rfl
  simp only [hwout] at *
  simp only [World.onHand] at hu hw hw' ⊢
  omega

def askFive : List Action := [.getConnections 5, .prepareHandOut, .handOut]

def askedOnce : World :=
  { World.new keepAliveForever true with tasks := [.addNewConnection 5] }

def askedTwice : World :=
  { World.new keepAliveForever true with tasks := [.addNewConnection 5, .addNewConnection 5] }

def claimedFive : World :=
  { World.new keepAliveForever true with call := .claiming 5 0 }

theorem elastic_demand_askFive :
    askedOnce.onHand ≤ max (World.new keepAliveForever true).onHand 5 := by
  refine (elastic_demand_iff (.new keepAliveForever true) claimedFive askedOnce 5 [] []
    (.of_init ⟨keepAliveForever, rfl⟩) rfl rfl ?_ ?_ ?_ ?_).mpr ?_
  all_goals decide

theorem askedTwice_multiplies :
    run step (.new keepAliveForever true) askFive = some askedOnce ∧
      run step askedOnce askFive = some askedTwice ∧
      ¬ askedTwice.onHand ≤ max askedOnce.onHand 5 := by
  decide

end Overload.Pool
