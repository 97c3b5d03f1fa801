import Overload.Pool.Accounting

namespace Overload.Pool

open Transition

variable {w w' : World} {a : Action}

def Task.arriving : Task → Nat
  | .appending conn => conn.length
  | _ => 0

def Call.inHand : Call → Nat
  | .checking _ futures vec _ _ => futures.length + vec.length
  | _ => 0

theorem Call.inHand_checking (connectionRequest dropped broken : Nat)
    (futures vec : List HttpConnection) :
    (checking connectionRequest futures vec dropped broken).inHand = futures.length + vec.length :=
  rfl

namespace World

def stored (w : World) : Nat :=
  w.pool.connections.length + w.pool.newConnections.length + w.pool.recyclableConnections.length

def inTransit (w : World) : Nat :=
  w.call.inHand + (w.tasks.map Task.arriving).sum + w.returning.length

def drift (w : World) : Int := w.metrics.idle - (w.stored + w.inTransit : Nat)

def lost (w : World) : Action → Nat
  | .setConnectionCount connectionCount => w.pool.connections.length - connectionCount
  | .prepareHandOut =>
    match w.call with
    | .claiming connectionRequest returnedToPool =>
      (((w.claimNew.takeOffBusy returnedToPool).adjust
        connectionRequest).pool.connections.take connectionRequest).countP
          fun con => con.shouldDrop
    | _ => 0
  | .checkReady _ false => 1
  | _ => 0

theorem drift_claimNew : w.claimNew.drift = w.drift := by
  simp only [drift, stored, inTransit, claimNew, List.length_append, List.length_nil]
  omega

theorem drift_takeOffBusy (returnedToPool : Nat) :
    (w.takeOffBusy returnedToPool).drift = w.drift := rfl

theorem drift_addNewConnectionMut (count : Nat) :
    (w.addNewConnectionMut count).drift = w.drift := by
  unfold addNewConnectionMut
  split
  · rfl
  · simp [drift, stored, inTransit, Task.arriving]

theorem drift_reEnforce : w.reEnforce.drift = w.drift := by
  simp only [reEnforce]
  split
  · simp only [drift, stored, inTransit, List.length_take]
    omega
  · rfl

theorem drift_adjust (connectionRequest : Nat) : (w.adjust connectionRequest).drift = w.drift := by
  unfold adjust
  split
  · unfold requestMore
    simp only
    split
    · exact drift_addNewConnectionMut _
    · rfl
  · exact drift_reEnforce

theorem adjust_call (connectionRequest : Nat) :
    (w.adjust connectionRequest).call = w.call := by
  obtain ⟨_, _, _, hadjust, _⟩ := w.adjust_frame connectionRequest
  rw [hadjust]

theorem drift_popConnections (connectionRequest : Nat) (hcall : w.call.inHand = 0) :
    (w.popConnections connectionRequest).drift = w.drift +
      ((w.pool.connections.take connectionRequest).countP fun con => con.shouldDrop : Nat) := by
  have hsplit := List.length_eq_countP_add_countP (l := w.pool.connections.take connectionRequest)
    fun con => con.shouldDrop
  simp only [List.length_take, Bool.not_eq_true, Bool.decide_eq_false] at hsplit
  simp only [popConnections, popFront_eq, drift, stored, inTransit, hcall, Call.inHand_checking,
    ← List.countP_eq_length_filter, List.length_drop, List.length_nil]
  omega

theorem drift_handOut {connectionRequest dropped broken : Nat} {vec : List HttpConnection}
    (hcall : w.call = .checking connectionRequest [] vec dropped broken) :
    (w.handOut vec dropped broken).drift = w.drift := by
  have hrefill : (w.refill dropped broken).drift = w.drift := by
    rw [refill, drift_addNewConnectionMut]
    rfl
  have hcall' : (w.refill dropped broken).call = w.call := by
    simp only [refill, addNewConnectionMut]
    split <;> rfl
  rw [← hrefill]
  simp only [handOut, drift, stored, inTransit, hcall', hcall, Call.inHand_checking,
    List.length_nil]
  simp only [Call.inHand]
  omega

theorem drift_removeNew {i toBeRemoved : Nat} {task : Task} (h : w.tasks[i]? = some task)
    (hnone : task.arriving = 0) : (w.removeNew i toBeRemoved).drift = w.drift := by
  have herase := sum_map_eraseIdx Task.arriving h
  have hremoved : (resizeConnContainer w.pool.newConnections toBeRemoved).1.length +
      (resizeConnContainer w.pool.newConnections toBeRemoved).2 =
        w.pool.newConnections.length := by
    unfold resizeConnContainer
    split
    · simp
    · simp only [List.length_take]
      omega
  simp only [removeNew, drift, stored, inTransit]
  omega

theorem drift_startConnecting {i count : Nat} {task : Task} (h : w.tasks[i]? = some task)
    (hnone : task.arriving = 0) : (w.startConnecting i count).drift = w.drift := by
  have hset := sum_map_set Task.arriving (.connecting count) h
  rw [hnone, show (Task.connecting count).arriving = 0 from rfl] at hset
  simp only [startConnecting, drift, stored, inTransit]
  omega

theorem drift_setConnectionCount (connectionCount : Nat) (hcall : w.call = .idle) :
    (w.setConnectionCount connectionCount).drift =
      w.drift + (w.pool.connections.length - connectionCount : Nat) := by
  have hlength := length_shrinkTo w.pool connectionCount
  have hrest : (w.pool.shrinkTo connectionCount).newConnections = w.pool.newConnections ∧
      (w.pool.shrinkTo connectionCount).recyclableConnections = w.pool.recyclableConnections :=
    ⟨rfl, rfl⟩
  simp only [setConnectionCount]
  split
  · simp only [drift, stored, inTransit, hcall, hlength, hrest, Call.inHand]
    omega
  · simp only [spawnResizer, drift, stored, inTransit, hcall, hlength, hrest, Call.inHand,
      List.map_append, List.sum_append, List.map_cons, List.map_nil, List.sum_singleton,
      Task.arriving]
    omega

end World

theorem drift_step (h : step w a = some w') (hpanic : w'.call ≠ .panicked) :
    w'.drift = w.drift + (w.lost a : Nat) := by
  cases Steps.of_step h with
  | setConnectionCount hcall => exact World.drift_setConnectionCount _ hcall
  | resize hcall =>
    simp [World.resize, World.spawnResizer, World.drift, World.stored, World.inTransit, hcall,
      Call.inHand, Task.arriving, World.lost]
  | getConnections hcall =>
    simp only [World.claimRecyclable, World.drift, World.stored, World.inTransit, hcall,
      Call.inHand, World.lost, List.length_append, List.length_nil]
    omega
  | @prepareHandOut connectionRequest returnedToPool hcall =>
    unfold World.prepareHandOut at hpanic ⊢
    split at hpanic
    · exact absurd rfl hpanic
    · rename_i hbusy
      rw [if_neg hbusy, World.drift_popConnections, World.drift_adjust, World.drift_takeOffBusy,
        World.drift_claimNew]
      · simp only [World.lost, hcall]
      · rw [World.adjust_call]
        simp [World.takeOffBusy, World.claimNew, hcall, Call.inHand]
  | ready hcall hmem =>
    have hlength := (List.perm_cons_erase hmem).length_eq
    simp only [List.length_cons] at hlength
    simp only [World.drift, World.stored, World.inTransit, hcall, Call.inHand, World.lost,
      List.length_append, List.length_singleton]
    omega
  | broken hcall hmem =>
    have hlength := (List.perm_cons_erase hmem).length_eq
    simp only [List.length_cons] at hlength
    simp only [World.drift, World.stored, World.inTransit, hcall, Call.inHand, World.lost]
    omega
  | handOut hcall => simpa [World.lost] using World.drift_handOut hcall
  | returnConnection hmem =>
    simp only [World.drift, World.stored, World.inTransit, World.lost, List.length_append,
      List.length_singleton]
    omega
  | pushReturned hmem =>
    have hlength := (List.perm_cons_erase hmem).length_eq
    simp only [List.length_cons] at hlength
    simp only [World.drift, World.stored, World.inTransit, World.lost, List.length_append,
      List.length_singleton]
    omega
  | removeNew hi hneg => simpa [World.lost] using World.drift_removeNew hi rfl
  | growPool hi hpos => simpa [World.lost] using World.drift_startConnecting hi rfl
  | startConnecting hi => simpa [World.lost] using World.drift_startConnecting hi rfl
  | leavePool hi =>
    have herase := sum_map_eraseIdx Task.arriving hi
    simp only [Task.arriving] at herase
    simp only [World.drift, World.stored, World.inTransit, World.lost]
    omega
  | @finishConnecting i count results conn hi hle hconn =>
    have hset := sum_map_set Task.arriving (.appending conn) hi
    simp only [Task.arriving] at hset
    simp only [World.drift, World.stored, World.inTransit, World.lost]
    omega
  | appendNew hi =>
    have herase := sum_map_eraseIdx Task.arriving hi
    simp only [Task.arriving] at herase
    simp only [World.drift, World.stored, World.inTransit, World.lost, List.length_append]
    omega

theorem World.busyGauge_adjust (w : World) (connectionRequest : Nat) :
    (w.adjust connectionRequest).metrics.busy = w.metrics.busy := by
  obtain ⟨_, _, _, hadjust, hbusy⟩ := w.adjust_frame connectionRequest
  rw [hadjust]
  exact hbusy

theorem busyGauge_step (h : step w a = some w') :
    w'.metrics.busy - w'.handedOut.length = w.metrics.busy - w.handedOut.length := by
  cases Steps.of_step h with
  | setConnectionCount hcall =>
    simp only [World.setConnectionCount]
    split <;> rfl
  | @prepareHandOut connectionRequest returnedToPool hcall =>
    unfold World.prepareHandOut
    split
    · rfl
    · have hbusy := ((w.claimNew.takeOffBusy returnedToPool).busyGauge_adjust connectionRequest)
      have hout := ((w.claimNew.takeOffBusy returnedToPool).adjust_handedOut connectionRequest)
      simp only [World.popConnections, hbusy, hout]
      rfl
  | @handOut connectionRequest dropped broken vec hcall =>
    have hbusy : (w.refill dropped broken).metrics.busy = w.metrics.busy := by
      simp only [World.refill, World.addNewConnectionMut]
      split <;> rfl
    have hout : (w.refill dropped broken).handedOut = w.handedOut := by
      simp [World.refill]
    simp only [World.handOut, hbusy, hout, List.length_append]
    omega
  | returnConnection hmem =>
    have hlength := (List.perm_cons_erase hmem).length_eq
    simp only [List.length_cons] at hlength
    simp only
    omega
  | _ => rfl

def Settled (w : World) : Prop := w.call = .idle ∧ w.inTransit = 0

def GaugesTrue (w : World) : Prop :=
  w.metrics.idle = w.stored ∧ w.metrics.busy = w.handedOut.length

/-- Nothing is dropped behind the gauge's back: the queue is not longer than a new size,
no expired connection is popped, and none that is popped turns out to be broken. -/
def Told (w : World) : Action → Prop
  | .setConnectionCount connectionCount => w.pool.connections.length ≤ connectionCount
  | .prepareHandOut =>
    match w.call with
    | .claiming connectionRequest returnedToPool =>
      ∀ con ∈ ((w.claimNew.takeOffBusy returnedToPool).adjust
        connectionRequest).pool.connections.take connectionRequest, con.shouldDrop = false
    | _ => True
  | .checkReady _ ok => ok = true
  | _ => True

theorem lost_eq_zero : w.lost a = 0 ↔ Told w a := by
  cases a with
  | setConnectionCount connectionCount => exact Nat.sub_eq_zero_iff_le
  | prepareHandOut =>
    simp only [World.lost, Told]
    split
    · simp [List.countP_eq_zero]
    · simp
  | checkReady con ok => cases ok <;> simp [World.lost, Told]
  | _ => simp [World.lost, Told]

variable {keepAlive : ConnectionKeepAlive} {elasticPool : Bool} {as : List Action}

def Balanced (w : World) : Prop := w.drift = 0 ∧ w.metrics.busy = w.handedOut.length

theorem Balanced.gaugesTrue (hw : Balanced w) (hsettled : Settled w) : GaugesTrue w := by
  obtain ⟨hdrift, hbusy⟩ := hw
  refine ⟨?_, hbusy⟩
  simp only [World.drift, hsettled.2] at hdrift
  omega

theorem drift_mono (hw : Reachable step (Initial elasticPool) w)
    (hrun : run step w as = some w') : w.drift ≤ w'.drift := by
  have hinv : Reachable step (Initial elasticPool) w' ∧ w.drift ≤ w'.drift := by
    refine run_invariant (I := fun v => Reachable step (Initial elasticPool) v ∧ w.drift ≤ v.drift)
      ?_ ⟨hw, Int.le_refl _⟩ hrun
    rintro u a v ⟨hu, hle⟩ hstep
    have hv := hu.run (run_singleton.trans hstep)
    have hdrift := drift_step hstep (not_panicked hv)
    exact ⟨hv, by omega⟩
  exact hinv.2

/-- As long as nothing is dropped behind its back, the gauges are true between any two
steps; and over a run that ends there, only so. -/
theorem gauges_true_iff (hrun : run step (.new keepAlive elasticPool) as = some w) :
    (Meets step (fun _ w a => Told w a) (.new keepAlive elasticPool) as →
      Always step (fun _ w => Settled w → GaugesTrue w) (.new keepAlive elasticPool) as) ∧
    (Settled w →
      Always step (fun _ w => Settled w → GaugesTrue w) (.new keepAlive elasticPool) as →
      Meets step (fun _ w a => Told w a) (.new keepAlive elasticPool) as) := by
  have hnew : Reachable step (Initial elasticPool) (.new keepAlive elasticPool) :=
    .of_init ⟨keepAlive, rfl⟩
  constructor
  · intro hmeets
    have hbalanced : Always step (fun _ w => Balanced w) (.new keepAlive elasticPool) as := by
      refine Always.of_meets (I := Reachable step (Initial elasticPool)) hnew ?_ ⟨rfl, rfl⟩ ?_
        hmeets
      · intro u a v hu hstep
        exact hu.run (run_singleton.trans hstep)
      · rintro past u a v hu ⟨hdrift, hbusy⟩ htold hstep
        have hv := hu.run (run_singleton.trans hstep)
        have hdrift' := drift_step hstep (not_panicked hv)
        have hbusy' := busyGauge_step hstep
        rw [lost_eq_zero.mpr htold] at hdrift'
        exact ⟨by omega, by omega⟩
    exact hbalanced.mono fun _ _ hw => hw.gaugesTrue
  · intro hsettled halways past a rest u hsplit hu
    have hend : w.drift = 0 := by
      have htrue := (halways.last hrun hsettled).1
      simp only [World.drift, hsettled.2]
      omega
    rw [hsplit, run_append_eq_some] at hrun
    obtain ⟨u', hu', hrest⟩ := hrun
    obtain rfl : u = u' := Option.some.inj (hu.symm.trans hu')
    obtain ⟨v, hstep, hrest⟩ := run_cons_eq_some.mp hrest
    -- the drift starts at zero, never falls and ends at zero
    have hreach := hnew.run hu
    have hv := hreach.run (run_singleton.trans hstep)
    have hbefore := drift_mono hnew hu
    have hafter := drift_mono hv hrest
    have hdrift := drift_step hstep (not_panicked hv)
    have hzero : (World.new keepAlive elasticPool).drift = 0 := rfl
    exact lost_eq_zero.mp (by omega)

instance (w : World) (a : Action) : Decidable (Told w a) := by
  unfold Told
  split
  · infer_instance
  · split <;> infer_instance
  · infer_instance
  · infer_instance

instance (w : World) : Decidable (Settled w) := inferInstanceAs (Decidable (_ ∧ _))

instance (w : World) : Decidable (GaugesTrue w) := inferInstanceAs (Decidable (_ ∧ _))

def keepAliveOnce : ConnectionKeepAlive := ⟨4294967295, 1, by decide⟩

def openAll (results : List (Option Nat)) : List Action :=
  [.setConnectionCount results.length, .resize, .startTask 0, .finishConnecting 0 results,
    .appendNew 0]

def lendFirst (keepAlive : ConnectionKeepAlive) : List Action :=
  [.getConnections 1, .prepareHandOut, .checkReady (openConnection keepAlive 0 0) true, .handOut]

def returnFirst (keepAlive : ConnectionKeepAlive) : List Action :=
  [.returnConnection (openConnection keepAlive 0 0) 5,
    .pushReturned ((openConnection keepAlive 0 0).used 5)]

def afterwards (keepAlive : ConnectionKeepAlive) (as : List Action) : World :=
  (run step (.new keepAlive false) as).getD (.new keepAlive false)

def lendAndReturn : List Action :=
  openAll [some 0] ++ lendFirst keepAliveForever ++ returnFirst keepAliveForever

theorem gauges_true_lendAndReturn :
    (afterwards keepAliveForever lendAndReturn).stored = 1 ∧
      GaugesTrue (afterwards keepAliveForever lendAndReturn) := by
  have hrun : run step (.new keepAliveForever false) lendAndReturn =
      some (afterwards keepAliveForever lendAndReturn) := by decide
  have halways := (gauges_true_iff hrun).1 (by decide)
  exact ⟨by decide, halways.last hrun (by decide)⟩

def shrinkQueue : List Action :=
  openAll [some 0, some 0] ++ lendFirst keepAliveForever ++ [.setConnectionCount 0]

def expire : List Action :=
  openAll [some 0] ++ lendFirst keepAliveOnce ++ returnFirst keepAliveOnce ++
    [.getConnections 1, .prepareHandOut, .handOut]

def breakOne : List Action :=
  openAll [some 0] ++ [.getConnections 1, .prepareHandOut,
    .checkReady (openConnection keepAliveForever 0 0) false, .handOut]

theorem idleGauge_drifts :
    ¬ Always step (fun _ w => Settled w → GaugesTrue w) (.new keepAliveForever false)
        shrinkQueue ∧
    ¬ Always step (fun _ w => Settled w → GaugesTrue w) (.new keepAliveOnce false) expire ∧
    ¬ Always step (fun _ w => Settled w → GaugesTrue w) (.new keepAliveForever false) breakOne ∧
    (afterwards keepAliveOnce expire).metrics.idle = 1 ∧
    (afterwards keepAliveOnce expire).stored = 0 := by
  refine ⟨not_always_of_last (s := afterwards keepAliveForever shrinkQueue) ?_ ?_,
    not_always_of_last (s := afterwards keepAliveOnce expire) ?_ ?_,
    not_always_of_last (s := afterwards keepAliveForever breakOne) ?_ ?_, ?_⟩
  all_goals decide

end Overload.Pool
