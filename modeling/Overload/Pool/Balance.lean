import Overload.Pool.Ledger

namespace Overload.Pool

open Transition

variable {w w' : World} {a : Action}

theorem map_requestHandle_openConnections (keepAlive : ConnectionKeepAlive) (handle : Nat)
    (results : List (Option Nat)) :
    (openConnections keepAlive handle results).map HttpConnection.requestHandle =
      List.range' handle (openConnections keepAlive handle results).length := by
  induction results generalizing handle with
  | nil => rfl
  | cons result results ih =>
    cases result with
    | none => exact ih handle
    | some now => simp [openConnections, openConnection, ih, List.range'_succ]

namespace Ledger

structure Sound (l : Ledger) : Prop where
  nodup : ((l.inside + l.out).map HttpConnection.requestHandle).Nodup
  opened : ∀ con ∈ l.inside + l.out, con.requestHandle < l.nextHandle
  success : l.success = l.nextHandle
  balance : l.success = l.gone + l.inside.card + l.out.card

variable {l l' : Ledger} {e : Entry}

theorem Sound.opens (hl : l.Sound) {conn : List HttpConnection}
    (hconn : conn.map HttpConnection.requestHandle = List.range' l.nextHandle conn.length) :
    Sound { l with
      inside := l.inside + conn
      nextHandle := l.nextHandle + conn.length
      success := l.success + conn.length } where
  nodup := by
    have hnew : ((conn : Multiset HttpConnection).map HttpConnection.requestHandle).Nodup := by
      rw [Multiset.map_coe, hconn]
      exact List.nodup_range'
    have hdisjoint : Disjoint ((l.inside + l.out).map HttpConnection.requestHandle)
        ((conn : Multiset HttpConnection).map HttpConnection.requestHandle) := by
      rw [Multiset.disjoint_left]
      intro handle hold hnew
      obtain ⟨con, hcon, rfl⟩ := Multiset.mem_map.mp hold
      rw [Multiset.map_coe, hconn, Multiset.mem_coe, List.mem_range'_1] at hnew
      have hlt := hl.opened con hcon
      omega
    have hall := Multiset.nodup_add.mpr ⟨hl.nodup, hnew, hdisjoint⟩
    rw [← Multiset.map_add, add_right_comm] at hall
    exact hall
  opened := by
    intro con hcon
    have hcases : con ∈ l.inside + l.out ∨ con ∈ conn := by
      simp only [Multiset.mem_add, Multiset.mem_coe] at hcon ⊢
      tauto
    rcases hcases with hold | hnew
    · have hlt := hl.opened con hold
      simp only
      omega
    · have hmem : con.requestHandle ∈ List.range' l.nextHandle conn.length :=
        hconn ▸ List.mem_map_of_mem hnew
      rw [List.mem_range'_1] at hmem
      simp only
      omega
  success := by simp only [hl.success]
  balance := by
    have hbalance := hl.balance
    simp only [Multiset.card_add, Multiset.coe_card]
    omega

theorem Sound.of_handles_le (hl : l.Sound)
    (hhandles : (l'.inside + l'.out).map HttpConnection.requestHandle ≤
      (l.inside + l.out).map HttpConnection.requestHandle)
    (hnext : l'.nextHandle = l.nextHandle) (hsuccess : l'.success = l.success)
    (hcard : l'.gone + l'.inside.card + l'.out.card = l.gone + l.inside.card + l.out.card) :
    l'.Sound where
  nodup := Multiset.nodup_of_le hhandles hl.nodup
  opened := by
    intro con hcon
    have hmem := Multiset.mem_of_le hhandles (Multiset.mem_map_of_mem _ hcon)
    obtain ⟨con', hcon', hhandle⟩ := Multiset.mem_map.mp hmem
    rw [← hhandle, hnext]
    exact hl.opened con' hcon'
  success := by rw [hsuccess, hnext, hl.success]
  balance := by rw [hsuccess, hl.balance, hcard]

theorem Sound.moves (hl : l.Sound) (h : l.Moves e l') : l'.Sound := by
  cases h with
  | opens hconn =>
    subst hconn
    exact hl.opens (map_requestHandle_openConnections _ _ _)
  | @lends vec rest hinside =>
    refine hl.of_handles_le ?_ rfl rfl ?_
    · have hsame : rest + (l.out + vec) = l.inside + l.out := by
        rw [hinside]
        abel
      rw [hsame]
    · simp only [hinside, Multiset.card_add]
      omega
  | @takesBack connection sinceEpoch rest hout =>
    refine hl.of_handles_le (le_of_eq ?_) rfl rfl ?_
    · simp only [hout, Multiset.map_add, Multiset.map_singleton, ← Multiset.singleton_add,
        HttpConnection.used]
      abel
    · simp only [hout, Multiset.card_add, Multiset.card_cons, Multiset.card_singleton]
      omega
  | @drops rest lost hinside =>
    refine hl.of_handles_le (Multiset.map_le_map ?_) rfl rfl ?_
    · rw [hinside, add_right_comm]
      exact Multiset.le_add_right _ _
    · simp only [hinside, Multiset.card_add]
      omega

end Ledger

theorem ledger_sound {elasticPool : Bool} (h : Reachable step (Initial elasticPool) w) :
    w.ledger.Sound := by
  refine h.invariant (I := fun w => w.ledger.Sound) ?_ ?_
  · rintro w ⟨keepAlive, rfl⟩
    refine ⟨?_, ?_, rfl, rfl⟩ <;> simp [World.ledger, World.new, QueuePool.new]
  · intro w a w' hw hstep
    exact hw.moves (ledger_step hstep)

def Task.connectingNow : Task → Nat
  | .connecting count => count
  | _ => 0

namespace World

def connectingNow (w : World) : Nat := (w.tasks.map Task.connectingNow).sum

def failures (w : World) : Action → Nat
  | .finishConnecting i results =>
    match w.tasks[i]? with
    | some (.connecting count) =>
      count - (openConnections w.pool.keepAlive w.nextHandle results).length
    | _ => 0
  | _ => 0

def unanswered (w : World) : Int := w.metrics.attempt - w.metrics.success - w.connectingNow

theorem unanswered_of_tasks (hmetrics : w'.metrics.attempt = w.metrics.attempt ∧
      w'.metrics.success = w.metrics.success)
    (htasks : w'.connectingNow = w.connectingNow) : w'.unanswered = w.unanswered := by
  simp only [unanswered, hmetrics, htasks]

theorem unanswered_addNewConnectionMut (count : Nat) :
    (w.addNewConnectionMut count).unanswered = w.unanswered := by
  unfold addNewConnectionMut
  split
  · rfl
  · exact unanswered_of_tasks ⟨rfl, rfl⟩ (by simp [connectingNow, Task.connectingNow])

theorem unanswered_adjust (connectionRequest : Nat) :
    (w.adjust connectionRequest).unanswered = w.unanswered := by
  unfold adjust
  split
  · unfold requestMore
    simp only
    split
    · exact unanswered_addNewConnectionMut _
    · rfl
  · simp only [reEnforce]
    split <;> rfl

theorem unanswered_spawnResizer (connectionCount : Nat) (diff : Int) :
    (w.spawnResizer connectionCount diff).unanswered = w.unanswered :=
  unanswered_of_tasks ⟨rfl, rfl⟩ (by simp [spawnResizer, connectingNow, Task.connectingNow])

theorem unanswered_eraseIdx {i : Nat} {task : Task} (hi : w.tasks[i]? = some task)
    (hnone : task.connectingNow = 0) (htasks : w'.tasks = w.tasks.eraseIdx i)
    (hmetrics : w'.metrics.attempt = w.metrics.attempt ∧
      w'.metrics.success = w.metrics.success) : w'.unanswered = w.unanswered := by
  refine unanswered_of_tasks hmetrics ?_
  have herase := sum_map_eraseIdx Task.connectingNow hi
  simp only [connectingNow, htasks]
  omega

theorem unanswered_startConnecting {i : Nat} {task : Task} (count : Nat)
    (hi : w.tasks[i]? = some task) (hnone : task.connectingNow = 0) :
    (w.startConnecting i count).unanswered = w.unanswered := by
  have hset := sum_map_set Task.connectingNow (.connecting count) hi
  rw [hnone, show (Task.connecting count).connectingNow = count from rfl] at hset
  simp only [unanswered, connectingNow, startConnecting]
  omega

end World

theorem unanswered_of_no_failure (h : w'.unanswered = w.unanswered)
    (hnone : w.failures a = 0) : w'.unanswered = w.unanswered + (w.failures a : Nat) := by
  rw [h, hnone, Int.natCast_zero, Int.add_zero]

theorem unanswered_step (h : step w a = some w') :
    w'.unanswered = w.unanswered + (w.failures a : Nat) := by
  cases Steps.of_step h with
  | @finishConnecting i count results conn hi hle hconn =>
    have hset := sum_map_set Task.connectingNow (.appending conn) hi
    have hlength := length_openConnections_le w.pool.keepAlive w.nextHandle results
    rw [← hconn] at hlength
    simp only [Task.connectingNow] at hset
    simp only [World.unanswered, World.connectingNow, World.failures, hi, ← hconn]
    omega
  | setConnectionCount hcall =>
    refine unanswered_of_no_failure ?_ rfl
    simp only [World.setConnectionCount]
    split
    · rfl
    · exact World.unanswered_spawnResizer _ _
  | resize hcall => exact unanswered_of_no_failure (World.unanswered_spawnResizer _ _) rfl
  | prepareHandOut hcall =>
    refine unanswered_of_no_failure ?_ rfl
    unfold World.prepareHandOut
    split
    · rfl
    · exact (World.unanswered_adjust _).trans rfl
  | handOut hcall =>
    exact unanswered_of_no_failure ((World.unanswered_addNewConnectionMut _).trans rfl) rfl
  | @removeNew i diff hi hneg =>
    exact unanswered_of_no_failure (World.unanswered_eraseIdx hi rfl rfl ⟨rfl, rfl⟩) rfl
  | @leavePool i hi =>
    exact unanswered_of_no_failure (World.unanswered_eraseIdx hi rfl rfl ⟨rfl, rfl⟩) rfl
  | @appendNew i conn hi =>
    exact unanswered_of_no_failure (World.unanswered_eraseIdx hi rfl rfl ⟨rfl, rfl⟩) rfl
  | growPool hi hpos =>
    exact unanswered_of_no_failure (World.unanswered_startConnecting _ hi rfl) rfl
  | startConnecting hi =>
    exact unanswered_of_no_failure (World.unanswered_startConnecting _ hi rfl) rfl
  | _ => exact unanswered_of_no_failure rfl rfl

variable {keepAlive : ConnectionKeepAlive} {elasticPool : Bool} {as : List Action}

theorem unanswered_run (hrun : run step (.new keepAlive elasticPool) as = some w) :
    w.unanswered = tally step World.failures (.new keepAlive elasticPool) as := by
  induction as using List.reverseRecOn generalizing w with
  | nil =>
    cases hrun
    rfl
  | append_singleton as a ih =>
    obtain ⟨u, hu, hstep⟩ := run_concat_eq_some.mp hrun
    rw [tally_concat _ hu, unanswered_step hstep, ih hu]
    omega

theorem card_inside (w : World) : w.ledger.inside.card = w.stored + w.inTransit := by
  have hcall : w.call.holding.length = w.call.inHand := by
    cases hcall : w.call <;> simp [Call.holding, Call.inHand]
  have htasks : (w.tasks.flatMap Task.holding).length = (w.tasks.map Task.arriving).sum := by
    rw [List.length_flatMap]
    congr 1
    apply List.map_congr_left
    intro task _
    cases task <;> rfl
  simp only [World.ledger, Multiset.card_add, Multiset.coe_card, World.stored, World.inTransit,
    hcall, htasks]
  omega

/-- Nobody has a connection in a local variable: the owner is not handing out, and no
creation task is about to append. -/
def AtRest (w : World) : Prop :=
  w.call.holding = [] ∧ w.call.unreported = 0 ∧ w.tasks.flatMap Task.holding = []

/-- At every point of every run the counters account for each connection and each
attempt once. -/
theorem counters_balance (hrun : run step (.new keepAlive elasticPool) as = some w) :
    (AtRest w → (w.metrics.success : Int) - w.metrics.dropped =
      w.pool.connections.length + w.pool.newConnections.length +
        w.pool.recyclableConnections.length + (w.handedOut.length + w.returning.length)) ∧
    (w.metrics.success : Int) - w.metrics.dropped =
      w.stored + w.inTransit + w.call.unreported + w.handedOut.length ∧
    (w.metrics.attempt : Int) - w.metrics.success =
      w.connectingNow + tally step World.failures (.new keepAlive elasticPool) as ∧
    ((w.ledger.inside + w.ledger.out).map HttpConnection.requestHandle).Nodup ∧
    ∀ con ∈ w.ledger.inside + w.ledger.out, con.requestHandle < w.metrics.success := by
  have hreach : Reachable step (Initial elasticPool) w :=
    (Reachable.of_init ⟨keepAlive, rfl⟩).run hrun
  have hsound := ledger_sound hreach
  have hbalance : w.metrics.success = w.metrics.dropped + w.call.unreported +
      (w.stored + w.inTransit) + w.handedOut.length := by
    rw [← card_inside]
    exact hsound.balance
  have hunanswered := unanswered_run hrun
  refine ⟨?_, by omega, ?_, hsound.nodup, ?_⟩
  · rintro ⟨hholding, hunreported, htasks⟩
    have hcard := card_inside w
    simp only [World.ledger, hholding, htasks, Multiset.card_add, Multiset.coe_card,
      Multiset.coe_nil, Multiset.card_zero] at hcard
    omega
  · rw [← hunanswered, World.unanswered]
    omega
  · intro con hcon
    rw [show w.metrics.success = w.nextHandle from hsound.success]
    exact hsound.opened con hcon

def breakOneOfTwo : List Action :=
  [.setConnectionCount 3, .resize, .startTask 0,
    .finishConnecting 0 [some 0, none, some 0], .appendNew 0, .getConnections 2, .prepareHandOut,
    .checkReady (openConnection keepAliveForever 1 0) false,
    .checkReady (openConnection keepAliveForever 0 0) true, .handOut]

theorem counters_balance_breakOneOfTwo :
    let w := afterwards keepAliveForever breakOneOfTwo
    (w.metrics.success, w.metrics.dropped, w.metrics.attempt) = (2, 1, 3) ∧
      (w.metrics.success : Int) - w.metrics.dropped =
        w.pool.connections.length + w.pool.newConnections.length +
          w.pool.recyclableConnections.length + (w.handedOut.length + w.returning.length) := by
  have hrun : run step (.new keepAliveForever false) breakOneOfTwo =
      some (afterwards keepAliveForever breakOneOfTwo) := by decide
  exact ⟨by decide, (counters_balance hrun).1 ⟨by decide, by decide, by decide⟩⟩

end Overload.Pool
