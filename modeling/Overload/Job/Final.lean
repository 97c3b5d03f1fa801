import Overload.Job.HandleRequest

namespace Overload.Job

open Transition

def FinalKept (job : String) (s : System) (a : Action) (t : System) : Prop :=
  (∀ status ∈ s.jobStatus[job]?, status.finished = true →
    t.jobStatus[job]? = none ∨ t.jobStatus[job]? = some status) ∧
  (a = .insertCompleted → t.runner = .done true → t.jobStatus[job]? = some .stopped)

instance (job : String) (s : System) (a : Action) (t : System) :
    Decidable (FinalKept job s a t) :=
  inferInstanceAs (Decidable (_ ∧ _))

/-- The writers find nothing final that they would change, and the job does not
finish after a stop. -/
def FindsOpen (job : String) (_past : List Action) (s : System) : Action → Prop
  | .insertStarting | .insertInProgress => ∀ status ∈ s.jobStatus[job]?, status.finished = false
  | .insertCompleted =>
    s.runner ≠ .leaving true ∧ s.jobStatus[job]? ≠ some .stopped ∧
      s.jobStatus[job]? ≠ some .failed
  | .stop jobId =>
    startsWith job jobId = true →
      s.jobStatus[job]? ≠ some .completed ∧ s.jobStatus[job]? ≠ some .failed
  | _ => True

instance (job : String) (past : List Action) (s : System) : DecidablePred (FindsOpen job past s)
  | .insertStarting | .insertInProgress =>
    inferInstanceAs (Decidable (∀ status ∈ s.jobStatus[job]?, _))
  | .insertCompleted => inferInstanceAs (Decidable (_ ∧ _))
  | .stop jobId => inferInstanceAs (Decidable (startsWith job jobId = true → _))
  | .tick | .sendRates | .exhausted | .panic | .cleanupRead | .cleanupWrite _ => isTrue trivial

variable {mode : Mode} {job : String} {s t : System} {a : Action}

theorem FinalKept.of_same (ha : a ≠ .insertCompleted) (h : t.jobStatus = s.jobStatus) :
    FinalKept job s a t := by
  refine ⟨fun status hstatus _ => .inr ?_, fun h => absurd h ha⟩
  rw [h]
  exact hstatus

theorem finalKept_insert_iff {status : JobStatus} (runner : Runner) (ha : a ≠ .insertCompleted)
    (hstatus : status.finished = false) :
    FinalKept job s a (s.insertStatus job status runner) ↔
      ∀ old ∈ s.jobStatus[job]?, old.finished = false := by
  have hne : ∀ old : JobStatus, old.finished = true → status ≠ old := by
    rintro old hold rfl
    simp [hold] at hstatus
  simp only [FinalKept, System.insertStatus, ha, false_implies, and_true,
    Std.TreeMap.getElem?_insert_self, reduceCtorEq, false_or, Option.some.injEq]
  constructor
  · intro h old hold
    cases hf : old.finished with
    | false => rfl
    | true => exact absurd (h old hold hf) (hne old hf)
  · intro h old hold hf
    simp [h old hold] at hf

theorem finalKept_completed_iff (sawStopped : Bool) :
    FinalKept job s .insertCompleted (s.insertStatus job .completed (.done sawStopped)) ↔
      sawStopped = false ∧ s.jobStatus[job]? ≠ some .stopped ∧
        s.jobStatus[job]? ≠ some .failed := by
  simp only [FinalKept, System.insertStatus, Std.TreeMap.getElem?_insert_self, reduceCtorEq]
  cases hentry : s.jobStatus[job]? with
  | none => cases sawStopped <;> simp
  | some status => cases status <;> cases sawStopped <;> simp [JobStatus.finished]

theorem finalKept_stop_iff (jobId : String) :
    FinalKept job s (.stop jobId)
        { s with jobStatus := (stopRequestByJobId jobId s.jobStatus).1 } ↔
      (startsWith job jobId = true →
        s.jobStatus[job]? ≠ some .completed ∧ s.jobStatus[job]? ≠ some .failed) := by
  simp only [FinalKept, getElem?_stopRequestByJobId, reduceCtorEq, false_implies, and_true]
  cases hentry : s.jobStatus[job]? with
  | none => simp
  | some status => cases status <;> cases startsWith job jobId <;> simp [JobStatus.finished]

theorem finalKept_cleanupWrite (i : Nat) (indices : List String) :
    FinalKept job s (.cleanupWrite i) { s with
      jobStatus := cleanupWrite indices s.jobStatus, cleanups := s.cleanups.eraseIdx i } := by
  refine ⟨fun status hstatus _ => ?_, by simp⟩
  rw [getElem?_cleanupWrite]
  by_cases hmem : job ∈ indices
  · simp [hmem]
  · simpa [hmem] using .inr hstatus

theorem finalKept_step_iff (past : List Action) (h : step mode job s a = some t) :
    FinalKept job s a t ↔ FindsOpen job past s a := by
  cases Steps.of_step h with
  | insertStarting hr => exact finalKept_insert_iff .starting (by simp) rfl
  | insertInProgress hr => exact finalKept_insert_iff (.running 0) (by simp) rfl
  | insertCompleted hr =>
    rw [finalKept_completed_iff, FindsOpen, hr]
    simp
  | stop => exact finalKept_stop_iff _
  | cleanupWrite hi => exact iff_of_true (finalKept_cleanupWrite _ _) trivial
  | tick hr =>
    refine iff_of_true (.of_same (by simp) ?_) trivial
    unfold System.tick
    split <;> rfl
  | _ => exact iff_of_true (.of_same (by simp) rfl) trivial

/-- Final statuses are final along a run exactly when each writer of the run finds
nothing final that it would change. -/
theorem final_kept_iff (mode : Mode) (job : String) (s₀ s : System) (as : List Action)
    (hrun : run (step mode job) s₀ as = some s) :
    AlongSteps (step mode job) (FinalKept job) s₀ as ↔
      Meets (step mode job) (FindsOpen job) s₀ as :=
  alongSteps_iff_meets (fun past _ _ _ => finalKept_step_iff past) hrun

def runOut : List Action := [.insertStarting, .insertInProgress, .exhausted, .insertCompleted]

def ranOut : System := ⟨Std.TreeMap.insert ∅ "job" .completed, .done false, []⟩

theorem final_kept_runOut :
    AlongSteps (step .standalone "job") (FinalKept "job") submitted runOut :=
  (final_kept_iff .standalone "job" submitted ranOut runOut rfl).mpr (by decide)

def stopSeen : List Action :=
  [.insertStarting, .insertInProgress, .stop "job", .tick, .insertCompleted]

theorem stopSeen_overwritten :
    (run (step .primary "job") submitted stopSeen).isSome = true ∧
      ¬ AlongSteps (step .primary "job") (FinalKept "job") submitted stopSeen := by
  decide

end Overload.Job
