import Overload.Pool.Accounting

namespace Overload.Pool

open Transition

/-- `|connections| + |new_connections| + busy_connections` with the attempts under
way and the failed ones.  Inside a call the connections it has in hand count too,
and those it has claimed back but not yet taken off the busy counter count once. -/
def World.total (w : World) : Nat :=
  w.pool.connections.length + w.pool.newConnections.length + w.pool.busyConnections +
    w.attempts + w.pool.failedConnection + w.call.stage.inHand - w.call.stage.credited

theorem World.total_eq_supply {w : World} (h : w.counts.Sound) : w.total = w.counts.supply := by
  have hbal := h.balance
  simp only [World.counts] at hbal
  simp only [World.total, Counts.supply, World.counts]
  omega

def Action.requestedSize : Action → Nat
  | .setConnectionCount connectionCount => connectionCount
  | _ => 0

def largestCount (past : List Action) : Nat := (past.map Action.requestedSize).foldr max 0

theorem largestCount_concat (past : List Action) (a : Action) :
    largestCount (past ++ [a]) = max (largestCount past) a.requestedSize := by
  induction past with
  | nil => simp [largestCount]
  | cons b past ih =>
    simp only [largestCount, List.cons_append, List.map_cons, List.foldr_cons] at ih ⊢
    rw [ih, Nat.max_assoc]

variable {w w' : World} {a : Action}

theorem elastic_step (he : w.pool.elastic = false) (h : step w a = some w') :
    w'.pool.elastic = false := by
  cases Steps.of_step h with
  | setConnectionCount hcall =>
    simp only [World.setConnectionCount, QueuePool.shrinkTo, he]
    split <;> rfl
  | prepareHandOut hcall =>
    simp only [World.prepareHandOut]
    split
    · exact he
    · exact (World.adjust_pool _ _).1.trans he
  | handOut hcall => simpa [World.handOut, World.refill] using he
  | _ => exact he

def Bounded (w : World) : Prop := w.counts.Sound ∧ w.pool.elastic = false

theorem Bounded.new (keepAlive : ConnectionKeepAlive) : Bounded (.new keepAlive false) :=
  ⟨counts_sound (.of_init ⟨keepAlive, rfl⟩), rfl⟩

theorem Bounded.step (hw : Bounded w) (h : Pool.step w a = some w') : Bounded w' :=
  ⟨hw.1.step (step_counts h), elastic_step hw.2 h⟩

theorem total_step (hw : w.counts.Sound) (h : step w a = some w') :
    w'.total + w.counts.shed (w.event a) = w.total + w.counts.grown (w.event a) := by
  have hc := step_counts h
  rw [World.total_eq_supply hw, World.total_eq_supply (hw.step hc)]
  exact Counts.supply_step hw hc

def WithinLargest (past : List Action) (w : World) : Prop := w.total ≤ largestCount past

/-- When `set_connection_count` works out what is missing, either nothing is, or
the attempts and failures it does not look at still leave room. -/
def GrowsWithin (past : List Action) (w : World) (a : Action) : Prop :=
  ∀ connectionCount, a = .resize → w.call = .resizing connectionCount →
    connectionCount ≤
      w.pool.newConnections.length + w.pool.busyConnections + w.pool.connections.length ∨
    connectionCount + w.attempts + w.pool.failedConnection ≤ largestCount past

theorem grown_eq_zero (he : w.pool.elastic = false) (ha : a ≠ .resize)
    (h : step w a = some w') : w.counts.grown (w.event a) = 0 := by
  cases Steps.of_step h with
  | resize hcall => exact absurd rfl ha
  | prepareHandOut hcall =>
    simp only [World.event, hcall]
    split <;> simp [Counts.grown, World.counts, hcall, Call.stage, Counts.shortage, he]
  | removeNew hi hneg => simp [World.event, hi, hneg, Counts.grown]
  | growPool hi hpos =>
    simp [World.event, hi, show ¬ _ < (0 : Int) from Int.not_lt.mpr (Int.le_of_lt hpos),
      Counts.grown]
  | leavePool hi => simp [World.event, hi, Counts.grown]
  | startConnecting hi => simp [World.event, hi, Counts.grown]
  | finishConnecting hi hle hconn => simp [World.event, hi, Counts.grown]
  | appendNew hi => simp [World.event, hi, Counts.grown]
  | _ => rfl

theorem withinLargest_step (past : List Action) (hw : Bounded w) (hin : WithinLargest past w)
    (h : step w a = some w') : WithinLargest (past ++ [a]) w' ↔ GrowsWithin past w a := by
  have htotal := total_step hw.1 h
  by_cases ha : a = .resize
  · subst ha
    cases Steps.of_step h with
    | @resize connectionCount hcall =>
      have hstage : w.counts.stage = .resizing connectionCount := by
        simp [World.counts, hcall, Call.stage]
      have hold : w.total = w.counts.active + w.attempts + w.pool.failedConnection := by
        simp only [World.total, hcall, Call.stage, Stage.inHand, Stage.credited, Counts.active,
          World.counts]
        omega
      have hactive : w.counts.active = w.pool.newConnections.length + w.pool.busyConnections +
          w.pool.connections.length := rfl
      simp only [WithinLargest, GrowsWithin, hcall, largestCount_concat, Action.requestedSize,
        World.event, Counts.shed, Counts.grown, hstage] at *
      simp only [Call.resizing.injEq, true_implies, forall_eq']
      omega
  · refine iff_of_true ?_ (fun _ hresize => absurd hresize ha)
    have hgrown := grown_eq_zero hw.2 ha h
    have hmono : largestCount past ≤ largestCount (past ++ [a]) := by
      rw [largestCount_concat]
      exact Nat.le_max_left _ _
    simp only [WithinLargest] at hin ⊢
    omega

/-- A bounded pool is never over-provisioned exactly when each growth it works out
leaves room for the attempts that are still running or waiting to be retried. -/
theorem supply_le_largest_iff (keepAlive : ConnectionKeepAlive) (as : List Action) (w : World)
    (hrun : run step (.new keepAlive false) as = some w) :
    Always step WithinLargest (.new keepAlive false) as ↔
      Meets step GrowsWithin (.new keepAlive false) as := by
  apply always_iff_meets (I := Bounded)
  · exact .new keepAlive
  · exact fun _ _ _ => Bounded.step
  · simp [WithinLargest, World.new, World.total, World.attempts, QueuePool.new, Call.stage,
      Stage.inHand, largestCount]
  · exact fun past _ _ _ => withinLargest_step past
  · exact hrun

instance (past : List Action) (w : World) (a : Action) : Decidable (GrowsWithin past w a) :=
  match hcall : w.call with
  | .resizing connectionCount =>
    decidable_of_iff (a = .resize →
      connectionCount ≤
        w.pool.newConnections.length + w.pool.busyConnections + w.pool.connections.length ∨
      connectionCount + w.attempts + w.pool.failedConnection ≤ largestCount past)
      (by simp [GrowsWithin, hcall])
  | .idle => isTrue (by simp [GrowsWithin, hcall])
  | .claiming _ _ => isTrue (by simp [GrowsWithin, hcall])
  | .checking _ _ _ _ _ => isTrue (by simp [GrowsWithin, hcall])
  | .panicked => isTrue (by simp [GrowsWithin, hcall])

theorem supply_le_largest_lendOne :
    run step (.new keepAliveForever false) lendOne = some lentOne ∧
      Always step WithinLargest (.new keepAliveForever false) lendOne := by
  have hrun : run step (.new keepAliveForever false) lendOne = some lentOne := by decide
  exact ⟨hrun, (supply_le_largest_iff keepAliveForever lendOne lentOne hrun).mpr (by decide)⟩

def growTwice : List Action :=
  [.setConnectionCount 5, .resize, .setConnectionCount 6, .resize]

def grownTwice : World :=
  { World.new keepAliveForever false with
    pool := { QueuePool.new keepAliveForever false with maxConnection := 6 }
    tasks := [.resizeConnectionPool 5, .resizeConnectionPool 6] }

theorem growTwice_over_provisions :
    ¬ Always step WithinLargest (.new keepAliveForever false) growTwice := by
  have hrun : run step (.new keepAliveForever false) growTwice = some grownTwice := by decide
  have htotal : grownTwice.total = 11 ∧ largestCount growTwice = 6 := by decide
  refine not_always_of_last hrun ?_
  simp only [WithinLargest, htotal]
  omega

def CoversSize (_past : List Action) (w : World) : Prop := w.pool.maxConnection ≤ w.total

/-- A removal spawned by an earlier shrink takes no more than what exceeds the size
the pool has by the time the removal runs. -/
def RemovesSurplus (_past : List Action) (w : World) (a : Action) : Prop :=
  ∀ i diff, a = .startTask i → w.tasks[i]? = some (.resizeConnectionPool diff) → diff < 0 →
    w.pool.maxConnection + min diff.natAbs w.pool.newConnections.length ≤ w.total

theorem event_eq_remove {count : Nat} (h : w.event a = .remove count) :
    ∃ i diff, a = .startTask i ∧ w.tasks[i]? = some (.resizeConnectionPool diff) ∧ diff < 0 ∧
      count = diff.natAbs := by
  cases a with
  | startTask i =>
    simp only [World.event] at h
    split at h
    · rename_i diff hi
      split at h
      · cases h
        exact ⟨i, diff, rfl, hi, ‹_›, rfl⟩
      · cases h
    · cases h
  | prepareHandOut =>
    simp only [World.event] at h
    split at h
    · split at h <;> cases h
    · cases h
  | finishConnecting i results =>
    simp only [World.event] at h
    split at h <;> cases h
  | appendNew i =>
    simp only [World.event] at h
    split at h <;> cases h
  | _ => cases h

theorem coversSize_step (past : List Action) (hw : Bounded w) (hcov : CoversSize past w)
    (h : step w a = some w') : CoversSize (past ++ [a]) w' ↔ RemovesSurplus past w a := by
  have hc := step_counts h
  simp only [CoversSize, RemovesSurplus, World.total_eq_supply hw.1,
    World.total_eq_supply (hw.1.step hc)] at hcov ⊢
  have hiff := Counts.size_le_supply_iff hw.1 hc hcov
  have hsize : ∀ u : World, u.counts.size = u.pool.maxConnection := fun _ => rfl
  rw [hsize, hsize] at hiff
  rw [hiff]
  constructor
  · intro hremove i diff ha hi hneg
    subst ha
    exact hremove diff.natAbs (by simp [World.event, hi, hneg])
  · intro hremove count hevent
    obtain ⟨i, diff, rfl, hi, hneg, rfl⟩ := event_eq_remove hevent
    exact hremove i diff rfl hi hneg

/-- A bounded pool never shrinks below its size exactly when the delayed removals
of its resizers only ever take surplus. -/
theorem supply_covers_size_iff (keepAlive : ConnectionKeepAlive) (as : List Action) (w : World)
    (hrun : run step (.new keepAlive false) as = some w) :
    Always step CoversSize (.new keepAlive false) as ↔
      Meets step RemovesSurplus (.new keepAlive false) as := by
  apply always_iff_meets (I := Bounded)
  · exact .new keepAlive
  · exact fun _ _ _ => Bounded.step
  · simp [CoversSize, World.new, World.total, World.attempts, QueuePool.new]
  · exact fun past _ _ _ => coversSize_step past
  · exact hrun

theorem removesSurplus_startTask {past : List Action} {i : Nat} :
    RemovesSurplus past w (.startTask i) ↔
      ∀ diff, w.tasks[i]? = some (.resizeConnectionPool diff) → diff < 0 →
        w.pool.maxConnection + min diff.natAbs w.pool.newConnections.length ≤ w.total := by
  constructor
  · exact fun h diff => h i diff rfl
  · rintro h _ diff ⟨⟩
    exact h diff

instance (past : List Action) (w : World) : DecidablePred (RemovesSurplus past w)
  | .startTask i =>
    match hi : w.tasks[i]? with
    | some (.resizeConnectionPool diff) =>
      decidable_of_iff (diff < 0 →
        w.pool.maxConnection + min diff.natAbs w.pool.newConnections.length ≤ w.total)
        (by simp [removesSurplus_startTask, hi])
    | some (.addNewConnection _) => isTrue (by simp [removesSurplus_startTask, hi])
    | some (.connecting _) => isTrue (by simp [removesSurplus_startTask, hi])
    | some (.appending _) => isTrue (by simp [removesSurplus_startTask, hi])
    | none => isTrue (by simp [removesSurplus_startTask, hi])
  | .setConnectionCount _ | .resize | .getConnections _ | .prepareHandOut | .checkReady _ _
  | .handOut | .returnConnection _ _ | .pushReturned _ | .finishConnecting _ _ | .appendNew _ =>
    isTrue (by simp [RemovesSurplus])

theorem supply_covers_size_lendOne :
    run step (.new keepAliveForever false) lendOne = some lentOne ∧
      Always step CoversSize (.new keepAliveForever false) lendOne := by
  have hrun : run step (.new keepAliveForever false) lendOne = some lentOne := by decide
  exact ⟨hrun, (supply_covers_size_iff keepAliveForever lendOne lentOne hrun).mpr (by decide)⟩

def shrinkLate : List Action :=
  [.setConnectionCount 2, .resize, .startTask 0, .finishConnecting 0 [some 0, some 0], .appendNew 0,
    .setConnectionCount 1, .setConnectionCount 2, .resize, .startTask 0]

def shrunkLate : World :=
  (run step (.new keepAliveForever false) shrinkLate).getD (.new keepAliveForever false)

theorem shrinkLate_shrinks :
    ¬ Always step CoversSize (.new keepAliveForever false) shrinkLate := by
  have hrun : run step (.new keepAliveForever false) shrinkLate = some shrunkLate := by decide
  have htotal : shrunkLate.pool.maxConnection = 2 ∧ shrunkLate.total = 1 := by decide
  refine not_always_of_last hrun ?_
  simp only [CoversSize, htotal]
  omega

end Overload.Pool
