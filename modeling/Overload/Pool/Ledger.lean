import Overload.Pool.Gauges
import Mathlib.Algebra.Order.Group.Multiset
import Mathlib.Tactic.Abel

namespace Overload.Pool

open Transition

variable {w w' : World} {a : Action}

def Call.holding : Call → List HttpConnection
  | .checking _ futures vec _ _ => futures ++ vec
  | _ => []

def Call.unreported : Call → Nat
  | .checking _ _ _ dropped broken => dropped + broken
  | _ => 0

@[simp] theorem Call.holding_checking (connectionRequest dropped broken : Nat)
    (futures vec : List HttpConnection) :
    (checking connectionRequest futures vec dropped broken).holding = futures ++ vec := rfl

@[simp] theorem Call.unreported_checking (connectionRequest dropped broken : Nat)
    (futures vec : List HttpConnection) :
    (checking connectionRequest futures vec dropped broken).unreported = dropped + broken := rfl

@[simp] theorem Call.holding_idle : idle.holding = [] := rfl

@[simp] theorem Call.unreported_idle : idle.unreported = 0 := rfl

theorem Call.holding_ready_subset {con : HttpConnection} {futures : List HttpConnection}
    (h : con ∈ futures) (vec : List HttpConnection) :
    futures.erase con ++ (vec ++ [con]) ⊆ futures ++ vec := by
  intro con' hcon'
  simp only [List.mem_append, List.mem_singleton] at hcon' ⊢
  rcases hcon' with hcon' | hcon' | rfl
  · exact .inl (List.mem_of_mem_erase hcon')
  · exact .inr hcon'
  · exact .inl h

theorem Call.holding_broken_subset (con : HttpConnection) (futures vec : List HttpConnection) :
    futures.erase con ++ vec ⊆ futures ++ vec :=
  (List.erase_sublist.append (.refl vec)).subset

def Task.holding : Task → List HttpConnection
  | .appending conn => conn
  | _ => []

theorem Task.holding_eraseIdx {tasks : List Task} {i : Nat} {task : Task}
    (h : tasks[i]? = some task) :
    (tasks.flatMap holding : Multiset HttpConnection) =
      (tasks.eraseIdx i).flatMap holding + task.holding := by
  obtain ⟨before, after, rfl, _, herase⟩ := exists_split_of_getElem? h
  simp only [herase, List.flatMap_append, List.flatMap_cons, ← Multiset.coe_add]
  abel

theorem Task.holding_set {tasks : List Task} {i : Nat} {task : Task} (new : Task)
    (h : tasks[i]? = some task) :
    ((tasks.set i new).flatMap holding : Multiset HttpConnection) + task.holding =
      tasks.flatMap holding + new.holding := by
  obtain ⟨before, after, rfl, hset, _⟩ := exists_split_of_getElem? h
  simp only [hset new, List.flatMap_append, List.flatMap_cons, ← Multiset.coe_add]
  abel

@[ext] structure Ledger where
  keepAlive : ConnectionKeepAlive
  inside : Multiset HttpConnection
  out : Multiset HttpConnection
  nextHandle : Nat
  success : Nat
  gone : Nat

def World.ledger (w : World) : Ledger where
  keepAlive := w.pool.keepAlive
  inside := w.pool.connections + w.pool.newConnections + w.pool.recyclableConnections +
    w.call.holding + w.tasks.flatMap Task.holding + w.returning
  out := w.handedOut
  nextHandle := w.nextHandle
  success := w.metrics.success
  gone := w.metrics.dropped + w.call.unreported

inductive Entry
  | opens (results : List (Option Nat))
  | lends (vec : List HttpConnection)
  | takesBack (connection : HttpConnection) (sinceEpoch : Nat)
  | drops

def World.entry (w : World) : Action → Entry
  | .finishConnecting _ results => .opens results
  | .handOut =>
    match w.call with
    | .checking _ _ vec _ _ => .lends vec
    | _ => .drops
  | .returnConnection connection sinceEpoch => .takesBack connection sinceEpoch
  | _ => .drops

inductive Ledger.Moves (l : Ledger) : Entry → Ledger → Prop
  | opens {results : List (Option Nat)} {conn : List HttpConnection}
    (hconn : conn = openConnections l.keepAlive l.nextHandle results) :
    Moves l (.opens results) { l with
      inside := l.inside + conn
      nextHandle := l.nextHandle + conn.length
      success := l.success + conn.length }
  | lends {vec : List HttpConnection} {rest : Multiset HttpConnection}
    (hinside : l.inside = rest + vec) :
    Moves l (.lends vec) { l with inside := rest, out := l.out + vec }
  | takesBack {connection : HttpConnection} {sinceEpoch : Nat} {rest : Multiset HttpConnection}
    (hout : l.out = connection ::ₘ rest) :
    Moves l (.takesBack connection sinceEpoch) { l with
      inside := l.inside + {connection.used sinceEpoch}, out := rest }
  | drops {rest lost : Multiset HttpConnection} (hinside : l.inside = rest + lost) :
    Moves l .drops { l with inside := rest, gone := l.gone + lost.card }

namespace World

structure Frame (w w' : World) : Prop where
  keepAlive : w'.pool.keepAlive = w.pool.keepAlive
  handedOut : w'.handedOut = w.handedOut
  nextHandle : w'.nextHandle = w.nextHandle
  success : w'.metrics.success = w.metrics.success

def Drops (w w' : World) : Prop := w.ledger.Moves .drops w'.ledger

theorem Drops.intro (lost : List HttpConnection)
    (hinside : w.ledger.inside = w'.ledger.inside + lost)
    (hgone : w'.ledger.gone = w.ledger.gone + lost.length) (hframe : Frame w w') :
    Drops w w' := by
  have hledger : w'.ledger = { w.ledger with
      inside := w'.ledger.inside, gone := w.ledger.gone + (lost : Multiset HttpConnection).card } :=
    Ledger.ext hframe.keepAlive rfl (Multiset.coe_eq_coe.mpr (.of_eq hframe.handedOut))
      hframe.nextHandle hframe.success hgone
  rw [Drops, hledger]
  exact .drops hinside

theorem Drops.of_inside (hinside : w'.ledger.inside = w.ledger.inside)
    (hgone : w'.ledger.gone = w.ledger.gone) (hframe : Frame w w') : Drops w w' :=
  .intro [] (by simp [hinside]) (by simp [hgone]) hframe

theorem Drops.trans {w'' : World} (h : Drops w w') (h' : Drops w' w'') : Drops w w'' := by
  unfold Drops at *
  generalize w'.ledger = l' at *
  generalize w''.ledger = l'' at *
  cases h with
  | @drops rest lost hinside =>
    cases h' with
    | @drops rest' lost' hinside' =>
      have hboth : w.ledger.inside = rest' + (lost' + lost) := by
        rw [hinside, ← Multiset.add_assoc]
        exact congrArg (· + lost) hinside'
      have hmoves := Ledger.Moves.drops hboth
      rw [Multiset.card_add] at hmoves
      convert hmoves using 2
      simp only
      omega

theorem drops_claimNew : Drops w w.claimNew := by
  refine .of_inside ?_ rfl ⟨rfl, rfl, rfl, rfl⟩
  simp only [ledger, claimNew, ← Multiset.coe_add, Multiset.coe_nil]
  abel

theorem drops_takeOffBusy (returnedToPool : Nat) : Drops w (w.takeOffBusy returnedToPool) :=
  .of_inside rfl rfl ⟨rfl, rfl, rfl, rfl⟩

theorem drops_addNewConnectionMut (count : Nat) : Drops w (w.addNewConnectionMut count) := by
  unfold addNewConnectionMut
  split
  · exact .of_inside rfl rfl ⟨rfl, rfl, rfl, rfl⟩
  · exact .of_inside (by simp [ledger, Task.holding]) rfl ⟨rfl, rfl, rfl, rfl⟩

theorem drops_cut {connections : List HttpConnection} {pool : QueuePool} {metrics : PoolMetrics}
    (lost : List HttpConnection) (hpool : pool.newConnections = w.pool.newConnections ∧
      pool.recyclableConnections = w.pool.recyclableConnections ∧
      pool.connections = connections ∧ pool.keepAlive = w.pool.keepAlive)
    (hcut : (w.pool.connections : Multiset HttpConnection) = connections + lost)
    (hdropped : metrics.dropped = w.metrics.dropped + lost.length)
    (hsuccess : metrics.success = w.metrics.success) :
    Drops w { w with pool, metrics } := by
  obtain ⟨hnew, hrecyclable, rfl, hkeepAlive⟩ := hpool
  refine .intro lost ?_ ?_ ⟨hkeepAlive, rfl, rfl, hsuccess⟩
  · simp only [ledger, hcut, hnew, hrecyclable]
    abel
  · simp only [ledger, hdropped]
    omega

theorem drops_reEnforce : Drops w w.reEnforce := by
  simp only [reEnforce]
  split
  · generalize (max 0 ((w.pool.connections.length : Int) - _)).toNat = n
    refine drops_cut (w.pool.connections.drop n) ⟨rfl, rfl, rfl, rfl⟩ ?_ ?_ rfl
    · rw [Multiset.coe_add, List.take_append_drop]
    · simp only [List.length_take, List.length_drop]
      omega
  · exact .of_inside rfl rfl ⟨rfl, rfl, rfl, rfl⟩

theorem drops_adjust (connectionRequest : Nat) : Drops w (w.adjust connectionRequest) := by
  unfold adjust
  split
  · unfold requestMore
    simp only
    split
    · exact drops_addNewConnectionMut _
    · exact .of_inside rfl rfl ⟨rfl, rfl, rfl, rfl⟩
  · exact drops_reEnforce

theorem drops_popConnections (connectionRequest : Nat) (hholding : w.call.holding = [])
    (hunreported : w.call.unreported = 0) : Drops w (w.popConnections connectionRequest) := by
  refine .intro ((w.pool.connections.take connectionRequest).filter fun con => con.shouldDrop)
    ?_ ?_ ⟨rfl, rfl, rfl, rfl⟩
  · have hfilter := List.filter_append_perm (fun con => con.shouldDrop)
      (w.pool.connections.take connectionRequest)
    have hsplit : (w.pool.connections : Multiset HttpConnection) =
        w.pool.connections.take connectionRequest + w.pool.connections.drop connectionRequest := by
      rw [Multiset.coe_add, List.take_append_drop]
    rw [← Multiset.coe_eq_coe, ← Multiset.coe_add] at hfilter
    simp only [ledger, popConnections, popFront_eq, hholding, Call.holding_checking,
      List.append_nil, hsplit, ← hfilter, Multiset.coe_nil]
    abel
  · simp [ledger, popConnections, popFront_eq, hunreported, List.countP_eq_length_filter]

theorem drops_prepareHandOut {connectionRequest returnedToPool : Nat}
    (hcall : w.call = .claiming connectionRequest returnedToPool) :
    Drops w (w.prepareHandOut connectionRequest returnedToPool) := by
  unfold prepareHandOut
  split
  · refine drops_claimNew.trans (.of_inside ?_ ?_ ⟨rfl, rfl, rfl, rfl⟩)
    · simp [ledger, claimNew, hcall, Call.holding]
    · simp [ledger, claimNew, hcall, Call.unreported]
  · have hadjust : Drops w ((w.claimNew.takeOffBusy returnedToPool).adjust connectionRequest) :=
      (drops_claimNew.trans (drops_takeOffBusy _)).trans (drops_adjust _)
    refine hadjust.trans (drops_popConnections _ ?_ ?_)
    · rw [adjust_call]
      simp [takeOffBusy, claimNew, hcall, Call.holding]
    · rw [adjust_call]
      simp [takeOffBusy, claimNew, hcall, Call.unreported]

theorem drops_spawnResizer (connectionCount : Nat) (diff : Int)
    (hholding : w.call.holding = []) (hunreported : w.call.unreported = 0) :
    Drops w (w.spawnResizer connectionCount diff) := by
  refine .of_inside ?_ ?_ ⟨rfl, rfl, rfl, rfl⟩
  · simp [ledger, spawnResizer, hholding, Task.holding]
  · simp [ledger, spawnResizer, hunreported]

theorem drops_setConnectionCount (connectionCount : Nat) (hcall : w.call = .idle) :
    Drops w (w.setConnectionCount connectionCount) := by
  let cut := w.pool.connections.length - connectionCount
  have hconnections :
      (w.pool.shrinkTo connectionCount).connections = w.pool.connections.drop cut := by
    simp only [QueuePool.shrinkTo]
    split
    · rfl
    · rw [show cut = 0 by omega, List.drop_zero]
  have hcut : Drops w { w with
      pool := w.pool.shrinkTo connectionCount
      metrics := { w.metrics with
        dropped := w.metrics.dropped + (w.pool.connections.length -
          (w.pool.shrinkTo connectionCount).connections.length) } } := by
    refine drops_cut (w.pool.connections.take cut) ⟨rfl, rfl, hconnections, rfl⟩ ?_ ?_ rfl
    · rw [Multiset.coe_add, ← Multiset.coe_eq_coe.mpr List.perm_append_comm,
        List.take_append_drop]
    · simp only [hconnections, List.length_drop, List.length_take]
      omega
  simp only [setConnectionCount]
  split
  · refine hcut.trans (.of_inside ?_ ?_ ⟨rfl, rfl, rfl, rfl⟩)
    · simp [ledger, hcall, Call.holding]
    · simp [ledger, hcall, Call.unreported]
  · exact hcut.trans (drops_spawnResizer _ _ (by simp [hcall, Call.holding])
      (by simp [hcall, Call.unreported]))

theorem drops_removeNew {i : Nat} {task : Task} (toBeRemoved : Nat)
    (hi : w.tasks[i]? = some task) (hholding : task.holding = []) :
    Drops w (w.removeNew i toBeRemoved) := by
  have htasks := Task.holding_eraseIdx hi
  rw [hholding] at htasks
  have hcut : ∃ lost, w.pool.newConnections =
        (resizeConnContainer w.pool.newConnections toBeRemoved).1 ++ lost ∧
      lost.length = (resizeConnContainer w.pool.newConnections toBeRemoved).2 := by
    unfold resizeConnContainer
    split
    · exact ⟨w.pool.newConnections, rfl, rfl⟩
    · refine ⟨_, (List.take_append_drop _ _).symm, ?_⟩
      rw [List.length_drop]
      omega
  obtain ⟨lost, hnew, hlength⟩ := hcut
  have hnew' := congrArg (fun l : List HttpConnection => (l : Multiset HttpConnection)) hnew
  simp only [← Multiset.coe_add] at hnew'
  refine .intro lost ?_ ?_ ⟨rfl, rfl, rfl, rfl⟩
  · simp only [ledger, removeNew, htasks, Multiset.coe_nil]
    rw [hnew']
    abel
  · simp only [ledger, removeNew, hlength]
    omega

theorem drops_startConnecting {i : Nat} {task : Task} (count : Nat)
    (hi : w.tasks[i]? = some task) (hholding : task.holding = []) :
    Drops w (w.startConnecting i count) := by
  have htasks := Task.holding_set (.connecting count) hi
  rw [hholding, Multiset.coe_nil, add_zero] at htasks
  refine .of_inside ?_ rfl ⟨rfl, rfl, rfl, rfl⟩
  simp only [ledger, startConnecting, htasks, Task.holding, Multiset.coe_nil, add_zero]

theorem lends_handOut {connectionRequest dropped broken : Nat} {vec : List HttpConnection}
    (hcall : w.call = .checking connectionRequest [] vec dropped broken) :
    w.ledger.Moves (.lends vec) (w.handOut vec dropped broken).ledger := by
  have hrefill : (w.refill dropped broken).tasks.flatMap Task.holding =
      w.tasks.flatMap Task.holding := by
    simp only [refill, addNewConnectionMut]
    split <;> simp [Task.holding]
  have hmetrics : (w.refill dropped broken).metrics = w.metrics ∧
      (w.refill dropped broken).returning = w.returning ∧
      (w.refill dropped broken).nextHandle = w.nextHandle := by
    simp only [refill, addNewConnectionMut]
    split <;> exact ⟨rfl, rfl, rfl⟩
  have hinside : w.ledger.inside = (w.handOut vec dropped broken).ledger.inside + vec := by
    simp only [ledger, handOut, hrefill, hmetrics, hcall]
    simp only [refill, addNewConnectionMut_pool, Call.holding_checking, Call.holding_idle,
      List.nil_append, Multiset.coe_nil]
    abel
  have hledger : (w.handOut vec dropped broken).ledger = { w.ledger with
      inside := (w.handOut vec dropped broken).ledger.inside, out := w.ledger.out + vec } := by
    refine Ledger.ext ?_ rfl ?_ hmetrics.2.2 ?_ ?_
    · simp [ledger, handOut, refill]
    · simp [ledger, handOut, refill]
    · simp [ledger, handOut, hmetrics]
    · simp only [ledger, handOut, hmetrics, hcall, Call.unreported_checking,
        Call.unreported_idle]
      omega
  rw [hledger]
  exact .lends hinside

end World

theorem coe_erase {l : List HttpConnection} {con : HttpConnection} (h : con ∈ l) :
    (l : Multiset HttpConnection) = {con} + (l.erase con : Multiset HttpConnection) := by
  rw [Multiset.singleton_add, Multiset.cons_coe, Multiset.coe_eq_coe]
  exact List.perm_cons_erase h

theorem ledger_step (h : step w a = some w') : w.ledger.Moves (w.entry a) w'.ledger := by
  cases Steps.of_step h with
  | setConnectionCount hcall => exact World.drops_setConnectionCount _ hcall
  | resize hcall =>
    exact World.drops_spawnResizer _ _ (by simp [hcall, Call.holding])
      (by simp [hcall, Call.unreported])
  | getConnections hcall =>
    refine World.Drops.of_inside ?_ ?_ ⟨rfl, rfl, rfl, rfl⟩
    · simp only [World.ledger, World.claimRecyclable, hcall, Call.holding, ← Multiset.coe_add,
        Multiset.coe_nil]
      abel
    · simp [World.ledger, World.claimRecyclable, hcall, Call.unreported]
  | prepareHandOut hcall => exact World.drops_prepareHandOut hcall
  | ready hcall hmem =>
    refine World.Drops.of_inside ?_ ?_ ⟨rfl, rfl, rfl, rfl⟩
    · simp only [World.ledger, hcall, Call.holding_checking, ← Multiset.coe_add, coe_erase hmem,
        Multiset.coe_singleton]
      abel
    · simp [World.ledger, hcall]
  | @broken connectionRequest dropped broken con futures vec hcall hmem =>
    refine World.Drops.intro [con] ?_ ?_ ⟨rfl, rfl, rfl, rfl⟩
    · simp only [World.ledger, hcall, Call.holding_checking, ← Multiset.coe_add, coe_erase hmem,
        Multiset.coe_singleton]
      abel
    · simp only [World.ledger, hcall, Call.unreported_checking, List.length_singleton]
      omega
  | handOut hcall =>
    simp only [World.entry, hcall]
    exact World.lends_handOut hcall
  | @returnConnection connection sinceEpoch hmem =>
    have hout : w.ledger.out = _ ::ₘ _ := (coe_erase hmem).trans (Multiset.singleton_add _ _)
    have hmoves : w.ledger.Moves (w.entry (.returnConnection connection sinceEpoch)) _ :=
      .takesBack hout
    convert hmoves using 1
    refine Ledger.ext rfl ?_ rfl rfl rfl rfl
    simp only [World.ledger, ← Multiset.coe_add, Multiset.coe_singleton]
    abel
  | pushReturned hmem =>
    refine World.Drops.of_inside ?_ rfl ⟨rfl, rfl, rfl, rfl⟩
    simp only [World.ledger, ← Multiset.coe_add, coe_erase hmem, Multiset.coe_singleton]
    abel
  | removeNew hi hneg => exact World.drops_removeNew _ hi rfl
  | growPool hi hpos => exact World.drops_startConnecting _ hi rfl
  | startConnecting hi => exact World.drops_startConnecting _ hi rfl
  | leavePool hi =>
    refine World.Drops.of_inside ?_ rfl ⟨rfl, rfl, rfl, rfl⟩
    simp only [World.ledger, Task.holding_eraseIdx hi, Task.holding, Multiset.coe_nil, add_zero]
  | @finishConnecting i count results conn hi hle hconn =>
    have htasks := Task.holding_set (.appending conn) hi
    simp only [Task.holding, Multiset.coe_nil, add_zero] at htasks
    have hmoves : w.ledger.Moves (w.entry (.finishConnecting i results)) _ := .opens hconn
    convert hmoves using 1
    refine Ledger.ext rfl ?_ rfl rfl rfl rfl
    simp only [World.ledger, htasks]
    abel
  | appendNew hi =>
    refine World.Drops.of_inside ?_ rfl ⟨rfl, rfl, rfl, rfl⟩
    simp only [World.ledger, Task.holding_eraseIdx hi, Task.holding, ← Multiset.coe_add]
    abel

end Overload.Pool
