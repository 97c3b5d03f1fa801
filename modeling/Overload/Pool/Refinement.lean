import Overload.Pool.QueuePool
import Overload.Pool.Counts

namespace Overload.Pool

open Transition

def Task.attempts : Task → Nat
  | .resizeConnectionPool diff => diff.toNat
  | .addNewConnection count => count
  | .connecting count => count
  | .appending conn => conn.length

def Call.stage : Call → Stage
  | .idle => .idle
  | .resizing connectionCount => .resizing connectionCount
  | .claiming connectionRequest returnedToPool => .claiming connectionRequest returnedToPool
  | .checking connectionRequest futures vec dropped broken =>
    .checking connectionRequest futures.length vec.length (dropped + broken)
  | .panicked => .panicked

namespace World

def attempts (w : World) : Nat := (w.tasks.map Task.attempts).sum

def out (w : World) : Nat := w.handedOut.length + w.returning.length

def counts (w : World) : Counts where
  queue := w.pool.connections.length
  fresh := w.pool.newConnections.length
  recyclable := w.pool.recyclableConnections.length
  busy := w.pool.busyConnections
  out := w.out
  attempts := w.attempts
  failed := w.pool.failedConnection
  size := w.pool.maxConnection
  elastic := w.pool.elastic
  stage := w.call.stage

def event (w : World) : Action → Event
  | .setConnectionCount connectionCount => .setSize connectionCount
  | .resize => .resize
  | .getConnections connectionRequest => .claim connectionRequest
  | .prepareHandOut =>
    match w.call with
    | .claiming connectionRequest returnedToPool =>
      match (w.prepareHandOut connectionRequest returnedToPool).call with
      | .checking _ _ _ dropped _ => .prepare dropped
      | _ => .prepare 0
    | _ => .pause
  | .checkReady _ ok => .check ok
  | .handOut => .handOut
  | .returnConnection _ _ => .pause
  | .pushReturned _ => .giveBack
  | .startTask i =>
    match w.tasks[i]? with
    | some (.resizeConnectionPool diff) => if diff < 0 then .remove diff.natAbs else .pause
    | _ => .pause
  | .finishConnecting i results =>
    match w.tasks[i]? with
    | some (.connecting count) =>
      .fail (count - (openConnections w.pool.keepAlive w.nextHandle results).length)
    | _ => .pause
  | .appendNew i =>
    match w.tasks[i]? with
    | some (.appending conn) => .arrive conn.length
    | _ => .pause

end World

theorem popFront_eq (n : Nat) (connections : List HttpConnection) :
    popFront n connections =
      (connections.drop n, (connections.take n).filter (fun con => !con.shouldDrop),
        (connections.take n).countP (fun con => con.shouldDrop)) := by
  induction n generalizing connections with
  | zero => simp [popFront]
  | succ n ih =>
    cases connections with
    | nil => simp [popFront]
    | cons con connections =>
      cases h : con.shouldDrop <;> simp [popFront, ih, h]

theorem length_openConnections_le (keepAlive : ConnectionKeepAlive) (handle : Nat)
    (results : List (Option Nat)) :
    (openConnections keepAlive handle results).length ≤ results.length := by
  induction results generalizing handle with
  | nil => simp [openConnections]
  | cons result results ih =>
    cases result with
    | none =>
      have := ih handle
      simp [openConnections]
      omega
    | some now => simpa [openConnections] using ih (handle + 1)

theorem length_resizeConnContainer (container : List HttpConnection) (toBeRemoved : Nat) :
    (resizeConnContainer container toBeRemoved).1.length = container.length - toBeRemoved := by
  unfold resizeConnContainer
  split
  · simp only [List.length_nil]
    omega
  · rw [List.length_take]
    omega

namespace World

variable {w w' : World}

theorem counts_spawnResizer (connectionCount : Nat) (diff : Int) :
    (w.spawnResizer connectionCount diff).counts =
      { w.counts with
        size := connectionCount, attempts := w.attempts + diff.toNat, stage := .idle } := by
  simp [spawnResizer, counts, attempts, out, Task.attempts, Call.stage]

theorem counts_addNewConnectionMut (count : Nat) :
    (w.addNewConnectionMut count).counts = { w.counts with attempts := w.attempts + count } := by
  unfold addNewConnectionMut
  split
  · simp [counts, *]
  · simp [counts, attempts, out, Task.attempts]

theorem length_shrinkTo (pool : QueuePool) (connectionCount : Nat) :
    (pool.shrinkTo connectionCount).connections.length =
      min pool.connections.length connectionCount := by
  simp only [QueuePool.shrinkTo]
  split
  · rw [List.length_drop]
    omega
  · omega

theorem counts_setConnectionCount (connectionCount : Nat) (h : w.call = .idle) :
    (w.setConnectionCount connectionCount).counts = w.counts.setSize connectionCount := by
  have hmax : (w.pool.shrinkTo connectionCount).maxConnection = w.pool.maxConnection := rfl
  unfold setConnectionCount Counts.setSize
  by_cases hgrow : w.pool.maxConnection < connectionCount
  · have hdiff : (connectionCount : Int) - w.pool.maxConnection > 0 := by omega
    simp only [hmax, hdiff, if_true, counts, hgrow, length_shrinkTo]
    rfl
  · have hdiff : ¬ (connectionCount : Int) - w.pool.maxConnection > 0 := by omega
    have hzero : ((connectionCount : Int) - w.pool.maxConnection).toNat = 0 := by omega
    simp only [hmax, hdiff, if_false, counts_spawnResizer, hzero]
    simp only [counts, hgrow, if_false, length_shrinkTo, h]
    rfl

theorem counts_resize (connectionCount : Nat) :
    (w.resize connectionCount).counts =
      { w.counts with
        size := connectionCount
        attempts := w.attempts + (connectionCount - w.counts.active)
        stage := .idle } := by
  have hdiff : ∀ n : Nat, (max 0 ((connectionCount : Int) - n)).toNat = connectionCount - n := by
    intro n
    omega
  simp only [resize, counts_spawnResizer, hdiff]
  rfl

theorem counts_reEnforce :
    w.reEnforce.counts = { w.counts with
      queue := if w.pool.maxConnection < w.pool.connections.length + w.pool.busyConnections then
        min (max 0 (w.pool.maxConnection - w.pool.busyConnections)).toNat w.pool.connections.length
        else w.pool.connections.length } := by
  unfold reEnforce
  by_cases hover : w.pool.maxConnection < w.pool.connections.length + w.pool.busyConnections
  · have hdiff : ((w.pool.connections.length + w.pool.busyConnections : Nat) : Int)
        - w.pool.maxConnection > 0 := by omega
    have hleft : (w.pool.connections.length : Int) -
        (((w.pool.connections.length + w.pool.busyConnections : Nat) : Int) -
          w.pool.maxConnection) =
        w.pool.maxConnection - w.pool.busyConnections := by omega
    simp only [hdiff, if_true, hleft, hover, counts, List.length_take]
    rfl
  · have hdiff : ¬ ((w.pool.connections.length + w.pool.busyConnections : Nat) : Int)
        - w.pool.maxConnection > 0 := by omega
    simp only [hdiff, if_false, hover]
    rfl

theorem counts_requestMore (connectionRequest : Nat) :
    (w.requestMore connectionRequest).counts = { w.counts with
      attempts := w.attempts + (connectionRequest - w.pool.connections.length) } := by
  unfold requestMore
  by_cases hshort : (w.pool.connections.length : Int) - connectionRequest < 0
  · have hdiff : ((w.pool.connections.length : Int) - connectionRequest).natAbs =
        connectionRequest - w.pool.connections.length := by omega
    simp only [hshort, if_true, counts_addNewConnectionMut, hdiff]
  · have hdiff : connectionRequest - w.pool.connections.length = 0 := by omega
    simp only [hshort, if_false, hdiff]
    rfl

theorem counts_adjust (connectionRequest returnedToPool : Nat) :
    ((w.claimNew.takeOffBusy returnedToPool).adjust connectionRequest).counts =
      { w.counts with
        queue := w.counts.kept (w.pool.busyConnections - returnedToPool)
        fresh := 0
        busy := w.pool.busyConnections - returnedToPool
        attempts := w.attempts + w.counts.shortage connectionRequest } := by
  cases he : w.pool.elastic with
  | true =>
    simp only [adjust, takeOffBusy, claimNew, he, if_true, counts_requestMore]
    simp [counts, Counts.kept, Counts.shortage, attempts, out, he]
  | false =>
    simp only [adjust, takeOffBusy, claimNew, he, Bool.false_eq_true, if_false, counts_reEnforce]
    simp [counts, Counts.kept, Counts.shortage, attempts, out, he]

theorem counts_popConnections (connectionRequest : Nat) :
    ∃ dropped, dropped ≤ min connectionRequest w.pool.connections.length ∧
      (w.popConnections connectionRequest).counts =
        { w.counts with
          queue := w.pool.connections.length - connectionRequest
          stage := .checking connectionRequest
            (min connectionRequest w.pool.connections.length - dropped) 0 dropped } ∧
      ∃ futures, (w.popConnections connectionRequest).call =
        .checking connectionRequest futures [] dropped 0 := by
  let popped := w.pool.connections.take connectionRequest
  have hsplit : (popped.filter fun con => !con.shouldDrop).length =
      popped.length - popped.countP fun con => con.shouldDrop := by
    rw [← List.countP_eq_length_filter, List.length_eq_countP_add_countP fun con => con.shouldDrop]
    simp
  have hlen : popped.length = min connectionRequest w.pool.connections.length :=
    List.length_take
  refine ⟨popped.countP fun con => con.shouldDrop, ?_, ?_, ?_⟩
  · rw [← hlen]
    exact List.countP_le_length
  · simp only [popConnections, popFront_eq, counts, List.length_drop, Call.stage]
    rw [hsplit, hlen]
    rfl
  · exact ⟨_, by simp only [popConnections, popFront_eq]; rfl⟩

theorem counts_prepareHandOut {connectionRequest returnedToPool : Nat}
    (hcall : w.call = .claiming connectionRequest returnedToPool) :
    w.counts.step (w.event .prepareHandOut) =
      some (w.prepareHandOut connectionRequest returnedToPool).counts := by
  have hstage : w.counts.stage = .claiming connectionRequest returnedToPool := by
    simp [counts, hcall, Call.stage]
  simp only [event, hcall]
  by_cases hunder : w.pool.busyConnections < returnedToPool
  · simp only [prepareHandOut, hunder, if_true, Counts.step, hstage, Counts.prepare]
    simp [counts, claimNew, hunder, attempts, out, Call.stage]
  · obtain ⟨dropped, hle, hcounts, futures, hpop⟩ := counts_popConnections
      (w := (w.claimNew.takeOffBusy returnedToPool).adjust connectionRequest) connectionRequest
    have hadj := counts_adjust (w := w) connectionRequest returnedToPool
    have hqueue : ((w.claimNew.takeOffBusy returnedToPool).adjust
        connectionRequest).pool.connections.length =
        w.counts.kept (w.counts.busy - returnedToPool) := congrArg Counts.queue hadj
    rw [hqueue] at hle hcounts
    simp only [prepareHandOut, if_neg hunder, hpop, Counts.step, hstage, if_pos hle, hcounts, hadj]
    simp only [Counts.prepare, if_neg (show ¬ w.counts.busy < returnedToPool from hunder)]
    rfl

theorem counts_refill (dropped broken : Nat) :
    (w.refill dropped broken).counts =
      { w.counts with
        attempts := w.attempts + (broken + dropped + w.pool.failedConnection)
        failed := 0 } := by
  simp only [refill, counts_addNewConnectionMut]
  rfl

theorem counts_lend (vec : List HttpConnection) (metrics : PoolMetrics) :
    { w with
      pool := { w.pool with busyConnections := w.pool.busyConnections + vec.length }
      call := .idle
      handedOut := w.handedOut ++ vec
      metrics : World }.counts =
      { w.counts with
        busy := w.counts.busy + vec.length
        out := w.counts.out + vec.length
        stage := .idle } := by
  have hout : w.out + vec.length = (w.handedOut ++ vec).length + w.returning.length := by
    simp only [out, List.length_append]
    omega
  simp only [counts, hout]
  rfl

theorem counts_handOut {connectionRequest dropped broken : Nat} {vec : List HttpConnection}
    (hcall : w.call = .checking connectionRequest [] vec dropped broken) :
    w.counts.step .handOut = some (w.handOut vec dropped broken).counts := by
  have hstage : w.counts.stage = .checking connectionRequest 0 vec.length (dropped + broken) := by
    simp [counts, hcall, Call.stage]
  have hsum : dropped + broken + w.counts.failed =
      broken + dropped + w.pool.failedConnection := by
    rw [Nat.add_comm dropped broken]
    rfl
  simp only [Counts.step, hstage, handOut, counts_lend, counts_refill, hsum]
  rfl

theorem attempts_set {i : Nat} {task : Task} (task' : Task) (h : w.tasks[i]? = some task) :
    ((w.tasks.set i task').map Task.attempts).sum + task.attempts =
      w.attempts + task'.attempts :=
  sum_map_set Task.attempts task' h

theorem attempts_eraseIdx {i : Nat} {task : Task} (h : w.tasks[i]? = some task) :
    ((w.tasks.eraseIdx i).map Task.attempts).sum + task.attempts = w.attempts :=
  sum_map_eraseIdx Task.attempts h

theorem counts_startConnecting {i count : Nat} {task : Task} (h : w.tasks[i]? = some task)
    (hcount : task.attempts = count) : (w.startConnecting i count).counts = w.counts := by
  have hset := attempts_set (.connecting count) h
  have hsame : ((w.tasks.set i (.connecting count)).map Task.attempts).sum = w.attempts := by
    change _ + task.attempts = w.attempts + count at hset
    omega
  simp only [startConnecting, counts, attempts] at hsame ⊢
  rw [hsame]
  rfl

theorem counts_removeNew {i toBeRemoved : Nat} {task : Task} (h : w.tasks[i]? = some task)
    (hnone : task.attempts = 0) :
    (w.removeNew i toBeRemoved).counts =
      { w.counts with fresh := w.counts.fresh - toBeRemoved } := by
  have herase := attempts_eraseIdx h
  have hsame : ((w.tasks.eraseIdx i).map Task.attempts).sum = w.attempts := by omega
  simp only [removeNew, counts, attempts, length_resizeConnContainer] at hsame ⊢
  rw [hsame]
  rfl

theorem counts_leavePool {i : Nat} {task : Task} (h : w.tasks[i]? = some task)
    (hnone : task.attempts = 0) : { w with tasks := w.tasks.eraseIdx i }.counts = w.counts := by
  have herase := attempts_eraseIdx h
  have hsame : ((w.tasks.eraseIdx i).map Task.attempts).sum = w.attempts := by omega
  simp only [counts, attempts] at hsame ⊢
  rw [hsame]
  rfl

end World

/-- The pool refines its counters, action by action. -/
theorem step_counts {w w' : World} {a : Action} (h : step w a = some w') :
    w.counts.step (w.event a) = some w'.counts := by
  cases Steps.of_step h with
  | @setConnectionCount connectionCount hcall =>
    rw [World.counts_setConnectionCount connectionCount hcall]
    simp only [World.event, Counts.step, World.counts, hcall, Call.stage]
  | resize hcall =>
    simp only [World.event, Counts.step, World.counts_resize]
    simp only [World.counts, hcall, Call.stage]
  | getConnections hcall =>
    simp [World.event, Counts.step, World.counts, hcall, Call.stage, World.claimRecyclable,
      World.attempts, World.out]
  | prepareHandOut hcall => exact World.counts_prepareHandOut hcall
  | ready hcall hmem =>
    simp only [World.event, Counts.step, World.counts, hcall, Call.stage,
      (List.perm_cons_erase hmem).length_eq, List.length_cons]
    simp [World.out, World.attempts]
  | broken hcall hmem =>
    simp only [World.event, Counts.step, World.counts, hcall, Call.stage,
      (List.perm_cons_erase hmem).length_eq, List.length_cons]
    simp [World.out, World.attempts, Nat.add_assoc]
  | handOut hcall => exact World.counts_handOut hcall
  | @returnConnection connection sinceEpoch hmem =>
    have hout : w.out = (w.handedOut.erase connection).length +
        (w.returning ++ [connection.used sinceEpoch]).length := by
      rw [World.out, (List.perm_cons_erase hmem).length_eq, List.length_append,
        List.length_singleton, List.length_cons]
      omega
    simp only [World.event, Counts.step, World.counts, hout]
    rfl
  | @pushReturned connection hmem =>
    have hleft : w.handedOut.length + (w.returning.erase connection).length + 1 = w.counts.out := by
      rw [Nat.add_assoc, ← List.length_cons, ← (List.perm_cons_erase hmem).length_eq]
      rfl
    have hout : w.handedOut.length + (w.returning.erase connection).length = w.counts.out - 1 := by
      omega
    simp only [World.event, Counts.step, if_pos (show 0 < w.counts.out by omega), ← hout]
    simp [World.counts, World.out, World.attempts]
  | @removeNew i diff hi hneg =>
    have hnone : (Task.resizeConnectionPool diff).attempts = 0 := by
      simp only [Task.attempts]
      omega
    simp only [World.event, hi, hneg, if_true, Counts.step, World.counts_removeNew hi hnone]
  | @growPool i diff hi hpos =>
    have hcount : (Task.resizeConnectionPool diff).attempts = diff.natAbs := by
      simp only [Task.attempts]
      omega
    simp only [World.event, hi, if_neg (show ¬ diff < 0 by omega), Counts.step,
      World.counts_startConnecting hi hcount]
  | leavePool hi =>
    rw [World.counts_leavePool hi rfl]
    simp [World.event, hi, Counts.step]
  | @startConnecting i count hi =>
    have hcount : (Task.addNewConnection count).attempts = count := rfl
    simp only [World.event, hi, Counts.step, World.counts_startConnecting hi hcount]
  | @finishConnecting i count results conn hi hle hconn =>
    have hlength : conn.length ≤ count :=
      Nat.le_trans (hconn ▸ length_openConnections_le ..) hle
    have hset := World.attempts_set (.appending conn) hi
    simp only [Task.attempts] at hset
    have hleft : ((w.tasks.set i (.appending conn)).map Task.attempts).sum =
        w.attempts - (count - conn.length) := by omega
    simp only [World.event, hi, ← hconn, Counts.step]
    rw [if_pos (show count - conn.length ≤ w.counts.attempts by simp only [World.counts]; omega)]
    simp only [World.counts, ← hleft]
    rfl
  | @appendNew i conn hi =>
    have herase := World.attempts_eraseIdx hi
    simp only [Task.attempts] at herase
    have hleft : ((w.tasks.eraseIdx i).map Task.attempts).sum = w.attempts - conn.length := by
      omega
    simp only [World.event, hi, Counts.step]
    rw [if_pos (show conn.length ≤ w.counts.attempts by simp only [World.counts]; omega)]
    simp only [World.counts, ← hleft, List.length_append]
    rfl

variable {elasticPool : Bool} {w : World}

theorem counts_reachable (h : Reachable step (Initial elasticPool) w) :
    Reachable Counts.step Counts.Initial w.counts := by
  apply h.map World.counts World.event
  · rintro _ ⟨keepAlive, rfl⟩
    exact ⟨elasticPool, rfl⟩
  · intro w a w' hstep
    exact step_counts hstep

theorem counts_sound (h : Reachable step (Initial elasticPool) w) : w.counts.Sound :=
  Counts.sound_of_reachable (counts_reachable h)

end Overload.Pool
