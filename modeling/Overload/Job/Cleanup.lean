import Overload.Job.HandleRequest

namespace Overload.Job

open Transition

/-- `jobs` are the `handle_request` tasks; a resubmission has the id of an earlier one. -/
structure Server where
  jobStatus : StatusMap
  jobs : List (String × Runner)
  cleanups : List (List String)

namespace Server

def init : Server := ⟨∅, [], []⟩

def view (s : Server) (runner : Runner) : System := ⟨s.jobStatus, runner, s.cleanups⟩

inductive Action
  | submit (job : String)
  | act (i : Nat) (a : Job.Action)
  deriving DecidableEq, Repr

def step (mode : Mode) (s : Server) : Action → Option Server
  | .submit job => some { s with jobs := s.jobs ++ [(job, .submitted)] }
  | .act i a => do
    let (job, runner) ← s.jobs[i]?
    let t ← Job.step mode job (s.view runner) a
    return ⟨t.jobStatus, s.jobs.set i (job, t.runner), t.cleanups⟩

inductive Steps (mode : Mode) (s : Server) : Action → Server → Prop
  | submit {job : String} : Steps mode s (.submit job)
      { s with jobs := s.jobs ++ [(job, .submitted)] }
  | act {i : Nat} {a : Job.Action} {job : String} {runner : Runner} {t : System}
    (hi : s.jobs[i]? = some (job, runner)) (ht : Job.Steps mode job (s.view runner) a t) :
    Steps mode s (.act i a) ⟨t.jobStatus, s.jobs.set i (job, t.runner), t.cleanups⟩

theorem Steps.of_step {mode : Mode} {s t : Server} {a : Action} (h : step mode s a = some t) :
    Steps mode s a t := by
  cases a with
  | submit job =>
    cases h
    exact .submit
  | act i a =>
    obtain ⟨⟨job, runner⟩, hi, h⟩ := Option.bind_eq_some_iff.mp h
    obtain ⟨u, hu, h⟩ := Option.bind_eq_some_iff.mp h
    cases h
    exact .act hi (Job.Steps.of_step hu)

end Server

def RemovesFinished (before after : StatusMap) : Prop :=
  ∀ (id : String) (status : JobStatus), before[id]? = some status → after[id]? = none →
    status.finished = true

def Listed (cleanups : List (List String)) (id : String) : Prop :=
  ∃ indices ∈ cleanups, id ∈ indices

instance (cleanups : List (List String)) (id : String) : Decidable (Listed cleanups id) :=
  inferInstanceAs (Decidable (∃ indices ∈ cleanups, id ∈ indices))

/-- A job writes `Starting` or `InProgress` only when no cleanup has its id on the list. -/
def Undisturbed (job : String) (s : System) : Action → Prop
  | .insertStarting | .insertInProgress => ¬ Listed s.cleanups job
  | _ => True

instance (job : String) (s : System) : DecidablePred (Undisturbed job s)
  | .insertStarting | .insertInProgress => inferInstanceAs (Decidable (¬ _))
  | .tick | .sendRates | .exhausted | .insertCompleted | .panic | .stop _ | .cleanupRead
  | .cleanupWrite _ => isTrue trivial

def Server.Undisturbed (s : Server) : Server.Action → Prop
  | .submit _ => True
  | .act i a => ∀ entry ∈ s.jobs[i]?, Job.Undisturbed entry.1 (s.view entry.2) a

instance (s : Server) : DecidablePred s.Undisturbed
  | .submit _ => isTrue trivial
  | .act i a =>
    inferInstanceAs (Decidable (∀ entry ∈ s.jobs[i]?, Job.Undisturbed entry.1 (s.view entry.2) a))

def ListedFinished (jobStatus : StatusMap) (cleanups : List (List String)) : Prop :=
  ∀ id, Listed cleanups id →
    ∀ status : JobStatus, jobStatus[id]? = some status → status.finished = true

variable {mode : Mode} {job id : String} {s t : System} {a : Action} {status : JobStatus}
  {jobStatus : StatusMap} {cleanups : List (List String)}

theorem ListedFinished.insert (h : ListedFinished jobStatus cleanups)
    (hstatus : status.finished = true ∨ ¬ Listed cleanups id) :
    ListedFinished (jobStatus.insert id status) cleanups := by
  intro id' hlisted status' hentry
  rw [Std.TreeMap.getElem?_insert] at hentry
  split at hentry
  · rename_i hcmp
    cases hentry
    obtain rfl := Std.LawfulEqCmp.eq_of_compare hcmp
    exact hstatus.resolve_right (absurd hlisted)
  · exact h id' hlisted status' hentry

theorem ListedFinished.stop {jobId : String} (h : ListedFinished jobStatus cleanups) :
    ListedFinished (stopRequestByJobId jobId jobStatus).1 cleanups := by
  intro id hlisted status hentry
  rw [getElem?_stopRequestByJobId] at hentry
  obtain ⟨old, hold, rfl⟩ := Option.map_eq_some_iff.mp hentry
  split
  · rfl
  · exact h id hlisted old hold

theorem finished_of_mem_cleanupRead {predicate : JobStatus → Bool}
    (hid : id ∈ cleanupRead predicate jobStatus) (hentry : jobStatus[id]? = some status) :
    predicate status = true := by
  simp only [cleanupRead, List.mem_map, List.mem_filter, Prod.exists,
    Std.TreeMap.mem_toList_iff_getElem?_eq_some] at hid
  obtain ⟨id, status', ⟨hentry', hstatus⟩, rfl⟩ := hid
  rw [hentry] at hentry'
  cases hentry'
  exact hstatus

theorem ListedFinished.cleanupRead (h : ListedFinished jobStatus cleanups) :
    ListedFinished jobStatus (cleanups ++ [cleanupRead JobStatus.finished jobStatus]) := by
  rintro id ⟨indices, hindices, hid⟩ status hentry
  obtain hindices | hindices := List.mem_append.mp hindices
  · exact h id ⟨indices, hindices, hid⟩ status hentry
  · obtain rfl := List.mem_singleton.mp hindices
    exact finished_of_mem_cleanupRead hid hentry

theorem ListedFinished.cleanupWrite {i : Nat} {indices : List String}
    (h : ListedFinished jobStatus cleanups) :
    ListedFinished (cleanupWrite indices jobStatus) (cleanups.eraseIdx i) := by
  rintro id ⟨indices', hindices', hid⟩ status hentry
  rw [getElem?_cleanupWrite] at hentry
  split at hentry
  · cases hentry
  · exact h id ⟨indices', List.mem_of_mem_eraseIdx hindices', hid⟩ status hentry

theorem ListedFinished.step (h : ListedFinished s.jobStatus s.cleanups)
    (hu : Undisturbed job s a) (hstep : Steps mode job s a t) :
    ListedFinished t.jobStatus t.cleanups := by
  cases hstep with
  | insertStarting | insertInProgress => exact h.insert (.inr hu)
  | insertCompleted => exact h.insert (.inl rfl)
  | tick =>
    rw [System.tick]
    split <;> exact h
  | sendRates | exhausted | panicStarting | panicSending => exact h
  | stop => exact h.stop
  | cleanupRead => exact h.cleanupRead
  | cleanupWrite => exact h.cleanupWrite

theorem removesFinished_of_keeps {before after : StatusMap}
    (h : ∀ id : String, before[id]? ≠ none → after[id]? ≠ none) : RemovesFinished before after := by
  intro id status hbefore hafter
  exact absurd hafter (h id (by rw [hbefore]; exact Option.some_ne_none _))

theorem RemovesFinished.step (h : ListedFinished s.jobStatus s.cleanups)
    (hstep : Steps mode job s a t) : RemovesFinished s.jobStatus t.jobStatus := by
  have hinsert : ∀ status, RemovesFinished s.jobStatus (s.jobStatus.insert job status) := by
    refine fun status => removesFinished_of_keeps fun id hid => ?_
    rw [Std.TreeMap.getElem?_insert]
    split
    · exact Option.some_ne_none _
    · exact hid
  have hsame : RemovesFinished s.jobStatus s.jobStatus := removesFinished_of_keeps fun _ => id
  cases hstep with
  | insertStarting | insertInProgress | insertCompleted => exact hinsert _
  | tick =>
    rw [System.tick]
    split <;> exact hsame
  | sendRates | exhausted | panicStarting | panicSending | cleanupRead => exact hsame
  | stop =>
    refine removesFinished_of_keeps fun id hid => ?_
    rwa [getElem?_stopRequestByJobId, ne_eq, Option.map_eq_none_iff]
  | @cleanupWrite i indices hi =>
    intro id status hbefore hafter
    rw [getElem?_cleanupWrite] at hafter
    split at hafter
    · rename_i hid
      exact h id ⟨indices, List.mem_of_getElem? hi, hid⟩ status hbefore
    · rw [hbefore] at hafter
      cases hafter

theorem Server.step_undisturbed {s t : Server} {a : Server.Action}
    (h : ListedFinished s.jobStatus s.cleanups) (hu : s.Undisturbed a)
    (hstep : Server.step mode s a = some t) :
    ListedFinished t.jobStatus t.cleanups ∧ RemovesFinished s.jobStatus t.jobStatus := by
  cases Steps.of_step hstep with
  | submit => exact ⟨h, removesFinished_of_keeps fun _ => id⟩
  | act hi ht => exact ⟨ListedFinished.step h (hu _ hi) ht, RemovesFinished.step h ht⟩

/-- Cleanups remove only finished jobs in every run in which no job, old or resubmitted,
writes `Starting` or `InProgress` between the two halves of a cleanup that lists it. -/
theorem cleanup_removes_finished (mode : Mode) (as : List Server.Action)
    (h : Meets (Server.step mode) (fun _ => Server.Undisturbed) .init as) :
    AlongSteps (Server.step mode) (fun s _ t => RemovesFinished s.jobStatus t.jobStatus)
      .init as := by
  have hlisted : Always (Server.step mode) (fun _ s => ListedFinished s.jobStatus s.cleanups)
      .init as := by
    refine Meets.always ?_ (fun _ s a t hs hu hstep => ?_) h
    · rintro id ⟨indices, hindices, _⟩
      exact absurd hindices List.not_mem_nil
    · exact (Server.step_undisturbed hs hu hstep).1
  intro past a rest s hsplit hrun t hstep
  exact (Server.step_undisturbed (hlisted past (a :: rest) s hsplit hrun)
    (h past a rest s hsplit hrun) hstep).2

theorem not_removesFinished_cleanupWrite {indices : List String} (hid : id ∈ indices)
    (hentry : jobStatus[id]? = some status) (hstatus : status.finished = false) :
    ¬ RemovesFinished jobStatus (cleanupWrite indices jobStatus) := by
  intro h
  have hgone : (cleanupWrite indices jobStatus)[id]? = none := by
    rw [getElem?_cleanupWrite, if_pos hid]
  exact Bool.eq_false_iff.mp hstatus (h id status hentry hgone)

theorem Undisturbed.of_not (hu : ¬ Undisturbed job s a) (hstep : Steps mode job s a t) :
    Listed t.cleanups job ∧
      ∃ status : JobStatus, t.jobStatus[job]? = some status ∧ status.finished = false := by
  cases hstep with
  | insertStarting =>
    exact ⟨not_not.mp hu, .starting, Std.TreeMap.getElem?_insert_self, rfl⟩
  | insertInProgress =>
    exact ⟨not_not.mp hu, .inProgress, Std.TreeMap.getElem?_insert_self, rfl⟩
  | _ => exact absurd trivial hu

theorem Server.disturbed_removes_unfinished {s t : Server} {a : Server.Action}
    (hu : ¬ s.Undisturbed a) (hstep : Server.step mode s a = some t) :
    ∃ i j u, Server.step mode t (.act i (.cleanupWrite j)) = some u ∧
      ¬ RemovesFinished t.jobStatus u.jobStatus := by
  cases Steps.of_step hstep with
  | submit => exact absurd trivial hu
  | @act i a job runner t hi ht =>
    have hu' : ¬ Job.Undisturbed job (s.view runner) a := by
      refine fun h => hu fun entry hentry => ?_
      obtain rfl := Option.mem_unique hi hentry
      exact h
    obtain ⟨⟨indices, hindices, hjob⟩, status, hentry, hstatus⟩ := Undisturbed.of_not hu' ht
    obtain ⟨j, hj⟩ := List.mem_iff_getElem?.mp hindices
    have hi' : (s.jobs.set i (job, t.runner))[i]? = some (job, t.runner) :=
      List.getElem?_set_self (List.getElem?_eq_some_iff.mp hi).1
    let jobs := (s.jobs.set i (job, t.runner)).set i (job, t.runner)
    refine ⟨i, j, ⟨cleanupWrite indices t.jobStatus, jobs, t.cleanups.eraseIdx j⟩, ?_,
      not_removesFinished_cleanupWrite hjob hentry hstatus⟩
    simp only [step, hi', view, Job.step, hj]
    rfl

def exampleJob : String := "7e19ae6b-59af-4916-8cc0-a04cc48a739b"

def runAndCleanup : List Server.Action :=
  [.submit exampleJob, .act 0 .insertStarting, .act 0 .insertInProgress, .act 0 .exhausted,
    .act 0 .insertCompleted, .act 0 .cleanupRead, .act 0 (.cleanupWrite 0)]

theorem cleanup_removes_finished_runAndCleanup :
    AlongSteps (Server.step .primary) (fun s _ t => RemovesFinished s.jobStatus t.jobStatus)
      .init runAndCleanup :=
  cleanup_removes_finished .primary runAndCleanup (by decide +kernel)

def resubmitted : List Server.Action :=
  [.submit exampleJob, .act 0 .insertStarting, .act 0 .insertInProgress, .act 0 .exhausted,
    .act 0 .insertCompleted, .act 0 .cleanupRead, .submit exampleJob, .act 1 .insertStarting]

theorem resubmitted_removed_while_starting :
    ∃ s t, run (Server.step .primary) .init resubmitted = some s ∧
      Server.step .primary s (.act 0 (.cleanupWrite 0)) = some t ∧
      s.jobStatus[exampleJob]? = some .starting ∧ t.jobStatus[exampleJob]? = none ∧
      ¬ AlongSteps (Server.step .primary) (fun s _ t => RemovesFinished s.jobStatus t.jobStatus)
        .init (resubmitted ++ [.act 0 (.cleanupWrite 0)]) := by
  have hvalues : (run (Server.step .primary) .init resubmitted).map (fun s =>
      (s.jobStatus[exampleJob]?, (Server.step .primary s (.act 0 (.cleanupWrite 0))).map
        fun t => t.jobStatus[exampleJob]?)) = some (some .starting, some none) := by
    decide +kernel
  obtain ⟨s, hrun, hs⟩ := Option.map_eq_some_iff.mp hvalues
  obtain ⟨hstarting, hs⟩ := Prod.mk.inj hs
  obtain ⟨t, hstep, hgone⟩ := Option.map_eq_some_iff.mp hs
  refine ⟨s, t, hrun, hstep, hstarting, hgone, not_alongSteps_of_last hrun hstep fun h => ?_⟩
  exact absurd (h exampleJob .starting hstarting hgone) (by decide)

end Overload.Job
