import Overload.Transition

/-! The collectors of the jobs (`overload-metrics/src/lib.rs`): a map from jobs to their
metrics behind a lock, and a registry that every task can reach at any time. -/

namespace Overload.Metrics

open Transition

inductive Collector
  | upstreamResponseTime
  | upstreamRequestStatusCount
  | upstreamRequestCount
  | connectionPoolNewConnectionAttempt
  | connectionPoolNewConnectionSuccess
  | connectionPoolConnectionBroken
  | connectionPoolConnectionDropped
  | connectionPoolSize
  | connectionPoolConnectionIdle
  | connectionPoolConnectionBusy
  | assertionFailure
  deriving DecidableEq, Repr

def Collector.name : Collector → String
  | .upstreamResponseTime => "upstream_response_time"
  | .upstreamRequestStatusCount => "upstream_request_status_count"
  | .upstreamRequestCount => "upstream_request_count"
  | .connectionPoolNewConnectionAttempt => "connection_pool_new_connection_attempt"
  | .connectionPoolNewConnectionSuccess => "connection_pool_new_connection_success"
  | .connectionPoolConnectionBroken => "connection_pool_connection_broken"
  | .connectionPoolConnectionDropped => "connection_pool_connection_dropped"
  | .connectionPoolSize => "connection_pool_size"
  | .connectionPoolConnectionIdle => "connection_pool_connection_idle"
  | .connectionPoolConnectionBusy => "connection_pool_connection_busy"
  | .assertionFailure => "assertion_failure"

structure Desc where
  name : String
  jobId : String
  deriving DecidableEq, Repr

def Collector.desc (collector : Collector) (jobId : String) : Desc := ⟨collector.name, jobId⟩

def toRegister : List Collector :=
  [.upstreamResponseTime, .upstreamRequestStatusCount, .upstreamRequestCount,
    .connectionPoolNewConnectionAttempt, .connectionPoolNewConnectionSuccess,
    .connectionPoolConnectionBroken, .connectionPoolConnectionDropped,
    .connectionPoolConnectionIdle, .connectionPoolConnectionBusy, .connectionPoolSize,
    .assertionFailure]

def toUnregister : List Collector :=
  [.connectionPoolSize, .connectionPoolConnectionIdle, .upstreamRequestCount,
    .connectionPoolConnectionBusy, .connectionPoolConnectionDropped,
    .connectionPoolConnectionBroken, .connectionPoolNewConnectionSuccess,
    .connectionPoolNewConnectionAttempt, .upstreamRequestStatusCount, .upstreamResponseTime,
    .assertionFailure]

/-- Where a call stands.  `creating` has not found the job and waits for the write lock,
`registering` has it. -/
inductive Task
  | metricsWithBuckets (jobId : String)
  | creating (jobId : String)
  | registering (jobId : String) (rest : List Collector)
  | removeMetrics (jobId : String)
  | unregistering (jobId : String) (rest : List Collector)
  | returned
  | panicked
  deriving DecidableEq, Repr

/-- `writer` is the task that has the write guard of `metrics`. -/
structure MetricsFactory where
  registry : List Desc
  metrics : List String
  writer : Option Nat
  tasks : List Task
  deriving DecidableEq, Repr

namespace MetricsFactory

variable (f : MetricsFactory)

def default : MetricsFactory := ⟨[], [], none, []⟩

def setTask (i : Nat) (task : Task) : MetricsFactory := { f with tasks := f.tasks.set i task }

@[simp] theorem setTask_registry (i : Nat) (task : Task) :
    (f.setTask i task).registry = f.registry := rfl

@[simp] theorem setTask_metrics (i : Nat) (task : Task) :
    (f.setTask i task).metrics = f.metrics := rfl

def register (desc : Desc) : Option (List Desc) :=
  if desc ∈ f.registry then none else some (f.registry ++ [desc])

def unregister (desc : Desc) : List Desc := f.registry.erase desc

def lookUp (i : Nat) (jobId : String) : MetricsFactory :=
  f.setTask i (if jobId ∈ f.metrics then .returned else .creating jobId)

def lookUpAgain (i : Nat) (jobId : String) : MetricsFactory :=
  if jobId ∈ f.metrics then f.setTask i .returned
  else { f.setTask i (.registering jobId toRegister) with writer := some i }

def registerNext (i : Nat) (jobId : String) (collector : Collector) (rest : List Collector) :
    MetricsFactory :=
  match f.register (collector.desc jobId) with
  | none => { f.setTask i .panicked with writer := none }
  | some registry => { f.setTask i (.registering jobId rest) with registry }

def insert (i : Nat) (jobId : String) : MetricsFactory :=
  { f.setTask i .returned with metrics := f.metrics.insert jobId, writer := none }

def remove (i : Nat) (jobId : String) : MetricsFactory :=
  if jobId ∈ f.metrics then
    { f.setTask i (.unregistering jobId toUnregister) with metrics := f.metrics.erase jobId }
  else f.setTask i .returned

def unregisterNext (i : Nat) (jobId : String) (collector : Collector) (rest : List Collector) :
    MetricsFactory :=
  { f.setTask i (.unregistering jobId rest) with registry := f.unregister (collector.desc jobId) }

def proceed (i : Nat) : Task → Option MetricsFactory
  | .metricsWithBuckets jobId => if f.writer = none then some (f.lookUp i jobId) else none
  | .creating jobId => if f.writer = none then some (f.lookUpAgain i jobId) else none
  | .registering jobId (collector :: rest) => some (f.registerNext i jobId collector rest)
  | .registering jobId [] => some (f.insert i jobId)
  | .removeMetrics jobId => if f.writer = none then some (f.remove i jobId) else none
  | .unregistering jobId (collector :: rest) => some (f.unregisterNext i jobId collector rest)
  | .unregistering _ [] => some (f.setTask i .returned)
  | .returned => none
  | .panicked => none

end MetricsFactory

inductive Action
  | metricsWithBuckets (jobId : String)
  | removeMetrics (jobId : String)
  | proceed (i : Nat)
  deriving DecidableEq, Repr

def step (f : MetricsFactory) : Action → Option MetricsFactory
  | .metricsWithBuckets jobId => some { f with tasks := f.tasks ++ [.metricsWithBuckets jobId] }
  | .removeMetrics jobId => some { f with tasks := f.tasks ++ [.removeMetrics jobId] }
  | .proceed i => f.tasks[i]?.bind (f.proceed i)

theorem mem_toRegister (collector : Collector) : collector ∈ toRegister := by
  cases collector <;> decide

theorem mem_toUnregister (collector : Collector) : collector ∈ toUnregister := by
  cases collector <;> decide

theorem desc_inj {c c' : Collector} {jobId jobId' : String} :
    c.desc jobId = c'.desc jobId' ↔ c = c' ∧ jobId = jobId' := by
  have hname : ∀ c ∈ toRegister, ∀ c' ∈ toRegister, c.name = c'.name → c = c' := by
    decide +kernel
  rw [Collector.desc, Collector.desc, Desc.mk.injEq]
  refine and_congr_left fun _ => ⟨hname c (mem_toRegister c) c' (mem_toRegister c'), ?_⟩
  exact congrArg Collector.name

variable {f g : MetricsFactory} {i : Nat} {jobId : String} {a : Action}

def Task.holds (collector : Collector) (jobId : String) : Task → Nat
  | .registering jobId' rest => if jobId' = jobId ∧ collector ∉ rest then 1 else 0
  | .unregistering jobId' rest => if jobId' = jobId ∧ collector ∈ rest then 1 else 0
  | _ => 0

theorem Task.holds_registering {collector : Collector} {rest : List Collector}
    (hnew : collector ∉ rest) (collector' : Collector) (jobId jobId' : String) :
    (registering jobId rest).holds collector' jobId' =
      (registering jobId (collector :: rest)).holds collector' jobId' +
        if collector.desc jobId = collector'.desc jobId' then 1 else 0 := by
  simp only [holds, desc_inj, List.mem_cons, not_or]
  by_cases hsame : collector = collector'
  · subst hsame
    simp [hnew]
  · simp [hsame, Ne.symm hsame]

theorem Task.holds_unregistering {collector : Collector} {rest : List Collector}
    (hnew : collector ∉ rest) (collector' : Collector) (jobId jobId' : String) :
    (unregistering jobId (collector :: rest)).holds collector' jobId' =
      (unregistering jobId rest).holds collector' jobId' +
        if collector.desc jobId = collector'.desc jobId' then 1 else 0 := by
  simp only [holds, desc_inj, List.mem_cons]
  by_cases hsame : collector = collector'
  · subst hsame
    simp [hnew]
  · simp [hsame, Ne.symm hsame]

theorem sum_holds_eq_zero {tasks : List Task} {collector : Collector}
    (h : ∀ task ∈ tasks, task.holds collector jobId = 0) :
    (tasks.map (Task.holds collector jobId)).sum = 0 := by
  rw [List.sum_eq_zero_iff_forall_eq_nat]
  intro n hn
  obtain ⟨task, htask, rfl⟩ := List.mem_map.mp hn
  exact h task htask

def Task.Distinct : Task → Prop
  | .registering _ rest => rest.Nodup
  | .unregistering _ rest => rest.Nodup
  | _ => True

structure Sound (f : MetricsFactory) : Prop where
  nodup : f.registry.Nodup
  known : ∀ desc ∈ f.registry, ∃ collector jobId, desc = Collector.desc collector jobId
  balance : ∀ collector jobId, f.registry.count (Collector.desc collector jobId) =
    f.metrics.count jobId + (f.tasks.map (Task.holds collector jobId)).sum
  creator : ∀ i jobId rest, f.tasks[i]? = some (.registering jobId rest) →
    f.writer = some i ∧ jobId ∉ f.metrics
  distinct : ∀ task ∈ f.tasks, task.Distinct
  noPanic : Task.panicked ∉ f.tasks

namespace Sound

theorem default : Sound .default where
  nodup := List.nodup_nil
  known := by simp [MetricsFactory.default]
  balance := by simp [MetricsFactory.default]
  creator := by simp [MetricsFactory.default]
  distinct := by simp [MetricsFactory.default]
  noPanic := by simp [MetricsFactory.default]

theorem call (hf : Sound f) {task : Task}
    (htask : (∃ jobId, task = .metricsWithBuckets jobId) ∨ ∃ jobId, task = .removeMetrics jobId) :
    Sound { f with tasks := f.tasks ++ [task] } := by
  have hnone : (∀ collector jobId, task.holds collector jobId = 0) ∧ task.Distinct ∧
      task ≠ .panicked ∧ ∀ jobId rest, task ≠ .registering jobId rest := by
    rcases htask with ⟨_, rfl⟩ | ⟨_, rfl⟩ <;> simp [Task.holds, Task.Distinct]
  obtain ⟨hholds, hdistinct, hpanic, hregistering⟩ := hnone
  refine ⟨hf.nodup, hf.known, ?_, ?_, ?_, ?_⟩
  · simpa [hholds] using hf.balance
  · intro i jobId rest hi
    rcases getElem?_concat_cases hi with hi | hi
    · exact hf.creator i jobId rest hi
    · exact absurd hi.symm (hregistering jobId rest)
  · intro task' htask'
    rcases List.mem_append.mp htask' with htask' | htask'
    · exact hf.distinct task' htask'
    · exact List.mem_singleton.mp htask' ▸ hdistinct
  · simpa [hf.noPanic] using hpanic.symm

theorem move (hf : Sound f) {old new : Task} (hi : f.tasks[i]? = some old) {registry : List Desc}
    {metrics : List String} {writer : Option Nat} (hnodup : registry.Nodup)
    (hknown : ∀ desc ∈ registry, ∃ collector jobId, desc = Collector.desc collector jobId)
    (hbalance : ∀ collector jobId, registry.count (Collector.desc collector jobId) +
        old.holds collector jobId + f.metrics.count jobId =
      f.registry.count (Collector.desc collector jobId) + new.holds collector jobId +
        metrics.count jobId)
    (hothers : ∀ j jobId rest, j ≠ i → f.tasks[j]? = some (.registering jobId rest) →
      writer = some j ∧ jobId ∉ metrics)
    (hnew : ∀ jobId rest, new = .registering jobId rest → writer = some i ∧ jobId ∉ metrics)
    (hdistinct : new.Distinct) (hpanic : new ≠ .panicked) :
    Sound ⟨registry, metrics, writer, f.tasks.set i new⟩ where
  nodup := hnodup
  known := hknown
  balance := by
    intro collector jobId
    have hset := sum_map_set (Task.holds collector jobId) new hi
    have hbefore := hf.balance collector jobId
    have hstep := hbalance collector jobId
    simp only
    omega
  creator := by
    intro j jobId rest hj
    rcases getElem?_set_cases hj with ⟨rfl, hnew'⟩ | ⟨hne, hj⟩
    · exact hnew jobId rest hnew'.symm
    · exact hothers j jobId rest hne hj
  distinct := by
    intro task htask
    rcases List.mem_or_eq_of_mem_set htask with htask | rfl
    · exact hf.distinct task htask
    · exact hdistinct
  noPanic := by
    intro htask
    rcases List.mem_or_eq_of_mem_set htask with htask | htask
    · exact hf.noPanic htask
    · exact hpanic htask.symm

theorem no_creator (hf : Sound f) (hwriter : f.writer = none) {j : Nat} {rest : List Collector} :
    f.tasks[j]? ≠ some (.registering jobId rest) := by
  intro hj
  have hsome := (hf.creator j jobId rest hj).1
  rw [hwriter] at hsome
  cases hsome

theorem setTask (hf : Sound f) {old new : Task} (hi : f.tasks[i]? = some old)
    (hholds : ∀ collector jobId, new.holds collector jobId = old.holds collector jobId)
    (hnew : ∀ jobId rest, new ≠ .registering jobId rest)
    (hdistinct : new.Distinct) (hpanic : new ≠ .panicked) : Sound (f.setTask i new) := by
  refine hf.move hi hf.nodup hf.known ?_ ?_ ?_ hdistinct hpanic
  · exact fun collector jobId => by rw [hholds]
  · exact fun j jobId rest _ hj => hf.creator j jobId rest hj
  · exact fun jobId rest h => absurd h (hnew jobId rest)

theorem lookUp (hf : Sound f) (hi : f.tasks[i]? = some (.metricsWithBuckets jobId)) :
    Sound (f.lookUp i jobId) := by
  unfold MetricsFactory.lookUp
  split
  · exact hf.setTask hi (by simp [Task.holds]) (by simp) trivial (by simp)
  · exact hf.setTask hi (by simp [Task.holds]) (by simp) trivial (by simp)

theorem lookUpAgain (hf : Sound f) (hi : f.tasks[i]? = some (.creating jobId))
    (hwriter : f.writer = none) : Sound (f.lookUpAgain i jobId) := by
  unfold MetricsFactory.lookUpAgain
  split
  · exact hf.setTask hi (by simp [Task.holds]) (by simp) trivial (by simp)
  · rename_i habsent
    refine hf.move hi hf.nodup hf.known ?_ ?_ ?_ ?_ (by simp)
    · simp [Task.holds, mem_toRegister]
    · exact fun j jobId rest _ hj => absurd hj (hf.no_creator hwriter)
    · rintro _ _ ⟨⟩
      exact ⟨rfl, habsent⟩
    · change toRegister.Nodup
      decide

theorem insert (hf : Sound f) (hi : f.tasks[i]? = some (.registering jobId [])) :
    Sound (f.insert i jobId) := by
  obtain ⟨hwriter, habsent⟩ := hf.creator i jobId [] hi
  refine hf.move hi hf.nodup hf.known ?_ ?_ (by simp) trivial (by simp)
  · intro collector jobId'
    rw [List.insert_of_not_mem habsent, List.count_cons]
    simp only [MetricsFactory.setTask_registry, Task.holds, List.not_mem_nil, not_false_eq_true,
      and_true, beq_iff_eq]
    omega
  · intro j jobId' rest hne hj
    rw [(hf.creator j jobId' rest hj).1, Option.some.injEq] at hwriter
    exact absurd hwriter hne

theorem remove (hf : Sound f) (hi : f.tasks[i]? = some (.removeMetrics jobId)) :
    Sound (f.remove i jobId) := by
  unfold MetricsFactory.remove
  split
  · rename_i hpresent
    refine hf.move hi hf.nodup hf.known ?_ ?_ (by simp) ?_ (by simp)
    · intro collector jobId'
      have hcount := (List.perm_cons_erase hpresent).count_eq jobId'
      simp only [List.count_cons, beq_iff_eq] at hcount
      simp only [MetricsFactory.setTask_registry, Task.holds, mem_toUnregister, and_true]
      omega
    · intro j jobId' rest _ hj
      obtain ⟨hwriter, habsent⟩ := hf.creator j jobId' rest hj
      exact ⟨hwriter, fun hmem => habsent (List.mem_of_mem_erase hmem)⟩
    · change toUnregister.Nodup
      decide
  · exact hf.setTask hi (by simp [Task.holds]) (by simp) trivial (by simp)

theorem mem_registry (hf : Sound f) {task : Task} {collector : Collector}
    (hi : f.tasks[i]? = some task) (hholds : task.holds collector jobId = 1) :
    collector.desc jobId ∈ f.registry := by
  have hsum := sum_map_eraseIdx (Task.holds collector jobId) hi
  have hbalance := hf.balance collector jobId
  rw [← List.count_pos_iff]
  omega

theorem unregisterNext (hf : Sound f) {collector : Collector} {rest : List Collector}
    (hi : f.tasks[i]? = some (.unregistering jobId (collector :: rest))) :
    Sound (f.unregisterNext i jobId collector rest) := by
  have hdistinct : (collector :: rest).Nodup := hf.distinct _ (List.mem_of_getElem? hi)
  obtain ⟨hnew, hrest⟩ := List.nodup_cons.mp hdistinct
  have hmem : collector.desc jobId ∈ f.registry := hf.mem_registry hi (by simp [Task.holds])
  refine hf.move hi (hf.nodup.erase _) ?_ ?_ ?_ (by simp) hrest (by simp)
  · exact fun desc hdesc => hf.known desc (List.mem_of_mem_erase hdesc)
  · intro collector' jobId'
    have hcount := (List.perm_cons_erase hmem).count_eq (collector'.desc jobId')
    have hholds := Task.holds_unregistering hnew collector' jobId jobId'
    simp only [List.count_cons, beq_iff_eq] at hcount
    simp only [MetricsFactory.setTask_metrics, MetricsFactory.unregister]
    omega
  · exact fun j jobId rest _ hj => hf.creator j jobId rest hj

end Sound

def Task.willUnregister (collector : Collector) (jobId : String) : Task → Bool
  | .unregistering jobId' rest => jobId' = jobId && rest.contains collector
  | _ => false

/-- No collector is registered that a removal of the same job has yet to unregister. -/
def Apart (f : MetricsFactory) : Action → Prop
  | .proceed i =>
    match f.tasks[i]? with
    | some (.registering jobId (collector :: _)) =>
      ∀ task ∈ f.tasks, task.willUnregister collector jobId = false
    | _ => True
  | _ => True

namespace Sound

theorem register_eq (hf : Sound f) {collector : Collector} {rest : List Collector}
    (hi : f.tasks[i]? = some (.registering jobId (collector :: rest))) :
    f.register (collector.desc jobId) = none ↔ ¬ Apart f (.proceed i) := by
  simp only [MetricsFactory.register, Apart, hi]
  constructor
  · intro hnone hapart
    split at hnone
    · rename_i hmem
      obtain ⟨hwriter, habsent⟩ := hf.creator i jobId _ hi
      have hnobody : ∀ task ∈ f.tasks, task.holds collector jobId = 0 := by
        intro task htask
        obtain ⟨j, hj⟩ := List.mem_iff_getElem?.mp htask
        cases task with
        | registering jobId' rest' =>
          -- nobody else has the write guard
          have hj' := (hf.creator j jobId' rest' hj).1
          obtain rfl : i = j := Option.some.inj (hwriter.symm.trans hj')
          obtain ⟨rfl, rfl⟩ := Task.registering.inj (Option.some.inj (hi.symm.trans hj))
          simp [Task.holds]
        | unregistering jobId' rest' =>
          have hdone := hapart _ htask
          simp only [Task.willUnregister, Bool.and_eq_false_imp, decide_eq_true_eq] at hdone
          simpa [Task.holds] using hdone
        | _ => rfl
      have hsum : (f.tasks.map (Task.holds collector jobId)).sum = 0 :=
        sum_holds_eq_zero hnobody
      have hbalance := hf.balance collector jobId
      rw [hsum, List.count_eq_zero_of_not_mem habsent] at hbalance
      exact List.count_eq_zero.mp hbalance hmem
    · cases hnone
  · intro hapart
    rw [if_pos]
    simp only [not_forall, Bool.not_eq_false] at hapart
    obtain ⟨task, htask, hwill⟩ := hapart
    obtain ⟨j, hj⟩ := List.mem_iff_getElem?.mp htask
    refine hf.mem_registry hj ?_
    cases task with
    | unregistering jobId' rest' =>
      simpa [Task.willUnregister, Task.holds] using hwill
    | _ => cases hwill

theorem registerNext (hf : Sound f) {collector : Collector} {rest : List Collector}
    (hi : f.tasks[i]? = some (.registering jobId (collector :: rest)))
    (hapart : Apart f (.proceed i)) : Sound (f.registerNext i jobId collector rest) := by
  have hdistinct : (collector :: rest).Nodup := hf.distinct _ (List.mem_of_getElem? hi)
  obtain ⟨hnew, hrest⟩ := List.nodup_cons.mp hdistinct
  obtain ⟨hwriter, habsent⟩ := hf.creator i jobId _ hi
  unfold MetricsFactory.registerNext
  split
  · rename_i hnone
    exact absurd hapart ((hf.register_eq hi).mp hnone)
  · rename_i registry hregister
    unfold MetricsFactory.register at hregister
    split at hregister
    · cases hregister
    · rename_i hfree
      obtain rfl := Option.some.inj hregister
      refine hf.move hi ?_ ?_ ?_ ?_ ?_ hrest (by simp)
      · exact List.perm_append_comm.nodup_iff.mp (List.nodup_cons.mpr ⟨hfree, hf.nodup⟩)
      · intro desc hdesc
        rcases List.mem_append.mp hdesc with hdesc | hdesc
        · exact hf.known desc hdesc
        · exact ⟨collector, jobId, List.mem_singleton.mp hdesc⟩
      · intro collector' jobId'
        have hholds := Task.holds_registering hnew collector' jobId jobId'
        simp only [MetricsFactory.setTask_metrics, List.count_append, List.count_singleton,
          beq_iff_eq]
        omega
      · exact fun j jobId rest _ hj => hf.creator j jobId rest hj
      · rintro _ _ ⟨⟩
        exact ⟨hwriter, habsent⟩

theorem step (hf : Sound f) (hapart : Apart f a) (h : Metrics.step f a = some g) : Sound g := by
  cases a with
  | metricsWithBuckets jobId =>
    cases h
    exact hf.call (.inl ⟨jobId, rfl⟩)
  | removeMetrics jobId =>
    cases h
    exact hf.call (.inr ⟨jobId, rfl⟩)
  | proceed i =>
    obtain ⟨task, hi, hproceed⟩ := Option.bind_eq_some_iff.mp h
    unfold MetricsFactory.proceed at hproceed
    split at hproceed
    · split at hproceed
      · cases hproceed
        exact hf.lookUp hi
      · cases hproceed
    · split at hproceed
      · cases hproceed
        exact hf.lookUpAgain hi ‹_›
      · cases hproceed
    · cases hproceed
      exact hf.registerNext hi hapart
    · cases hproceed
      exact hf.insert hi
    · split at hproceed
      · cases hproceed
        exact hf.remove hi
      · cases hproceed
    · cases hproceed
      exact hf.unregisterNext hi
    · cases hproceed
      exact hf.setTask hi (by simp [Task.holds]) (by simp) trivial (by simp)
    · cases hproceed
    · cases hproceed

end Sound

theorem panicked_of_not_apart (hf : Sound f) (hapart : ¬ Apart f a) (h : step f a = some g) :
    Task.panicked ∈ g.tasks := by
  cases a with
  | proceed i =>
    obtain ⟨task, hi, hproceed⟩ := Option.bind_eq_some_iff.mp h
    have hregistering : ∃ jobId collector rest, task = .registering jobId (collector :: rest) := by
      by_contra hnot
      apply hapart
      simp only [Apart, hi]
      split
      · exact absurd ⟨_, _, _, Option.some.inj ‹_›⟩ hnot
      · trivial
    obtain ⟨jobId, collector, rest, rfl⟩ := hregistering
    simp only [MetricsFactory.proceed, MetricsFactory.registerNext,
      (hf.register_eq hi).mpr hapart, Option.some.injEq] at hproceed
    rw [← hproceed]
    exact List.mem_set (List.getElem?_eq_some_iff.mp hi).1 _
  | _ => exact absurd trivial hapart

/-- No `register` call fails, and with no call in progress the registry has the collectors
of the jobs in the map, and only those. -/
def NeverCollides (f : MetricsFactory) : Prop :=
  Task.panicked ∉ f.tasks ∧
    ((∀ task ∈ f.tasks, task = .returned ∨ task = .panicked) →
      ∀ desc, desc ∈ f.registry ↔
        ∃ collector, ∃ jobId ∈ f.metrics, desc = Collector.desc collector jobId)

theorem Sound.neverCollides (hf : Sound f) : NeverCollides f := by
  refine ⟨hf.noPanic, ?_⟩
  intro hquiet desc
  have hbalance : ∀ collector jobId,
      Collector.desc collector jobId ∈ f.registry ↔ jobId ∈ f.metrics := by
    intro collector jobId
    have hsum : (f.tasks.map (Task.holds collector jobId)).sum = 0 := by
      apply sum_holds_eq_zero
      intro task htask
      rcases hquiet task htask with rfl | rfl <;> rfl
    rw [← List.count_pos_iff, hf.balance, hsum, Nat.add_zero, List.count_pos_iff]
  constructor
  · intro hdesc
    obtain ⟨collector, jobId, rfl⟩ := hf.known desc hdesc
    exact ⟨collector, jobId, (hbalance collector jobId).mp hdesc, rfl⟩
  · rintro ⟨collector, jobId, hjob, rfl⟩
    exact (hbalance collector jobId).mpr hjob

/-- Over every interleaving of any number of calls. -/
theorem never_collides_iff {as : List Action} (hrun : run step .default as = some f) :
    Always step (fun _ f => NeverCollides f) .default as ↔
      Meets step (fun _ f a => Apart f a) .default as := by
  constructor
  · intro h
    have hsound : Always step (fun _ f => Sound f) .default as := by
      refine Always.of_always .default ?_ h
      intro past f a g hf hstep hg
      by_cases hapart : Apart f a
      · exact hf.step hapart hstep
      · exact absurd (panicked_of_not_apart hf hapart hstep) hg.1
    refine hsound.meets ?_ hrun
    intro past f a g hstep hf hg _
    by_contra hapart
    exact hg.noPanic (panicked_of_not_apart hf hapart hstep)
  · intro h
    have hsound : Always step (fun _ f => Sound f) .default as :=
      h.always .default fun _ _ _ _ hf hapart hstep => hf.step hapart hstep
    exact hsound.mono fun _ _ hf => hf.neverCollides

instance (f : MetricsFactory) (a : Action) : Decidable (Apart f a) := by
  unfold Apart
  split
  · split <;> infer_instance
  · infer_instance

def created : List Action := .metricsWithBuckets "job" :: List.replicate 14 (.proceed 0)

def createdAgain : List Action :=
  created ++ .removeMetrics "job" :: List.replicate 13 (.proceed 1) ++
    .metricsWithBuckets "job" :: List.replicate 14 (.proceed 2)

def allCreated : MetricsFactory :=
  ⟨toRegister.map (·.desc "job"), ["job"], none, [.returned, .returned, .returned]⟩

theorem never_collides_createdAgain :
    run step .default createdAgain = some allCreated ∧ NeverCollides allCreated := by
  have hrun : run step .default createdAgain = some allCreated := by decide +kernel
  have halways := (never_collides_iff hrun).mpr (by decide +kernel)
  exact ⟨hrun, halways.last hrun⟩

def halfRemoved : List Action :=
  created ++ [.removeMetrics "job", .proceed 1, .metricsWithBuckets "job"] ++
    List.replicate 3 (.proceed 2)

def almostRemoved : List Action :=
  created ++ .removeMetrics "job" :: List.replicate 11 (.proceed 1) ++
    .metricsWithBuckets "job" :: List.replicate 13 (.proceed 2) ++
    List.replicate 2 (.proceed 1) ++ .metricsWithBuckets "job" :: List.replicate 3 (.proceed 3)

theorem halfRemoved_collides :
    run step .default halfRemoved = some ⟨toRegister.map (·.desc "job"), [], none,
      [.returned, .unregistering "job" toUnregister, .panicked]⟩ ∧
    ¬ Always step (fun _ f => NeverCollides f) .default halfRemoved ∧
    run step .default almostRemoved = some ⟨(toRegister.take 10).map (·.desc "job"), [], none,
      [.returned, .returned, .panicked, .panicked]⟩ ∧
    ¬ Always step (fun _ f => NeverCollides f) .default almostRemoved := by
  have hhalf : run step .default halfRemoved = some ⟨toRegister.map (·.desc "job"), [], none,
      [.returned, .unregistering "job" toUnregister, .panicked]⟩ := by decide +kernel
  have halmost : run step .default almostRemoved = some ⟨(toRegister.take 10).map (·.desc "job"),
      [], none, [.returned, .returned, .panicked, .panicked]⟩ := by decide +kernel
  refine ⟨hhalf, not_always_of_last hhalf ?_, halmost, not_always_of_last halmost ?_⟩
  · exact fun h => h.1 (by simp)
  · exact fun h => h.1 (by simp)

end Overload.Metrics
