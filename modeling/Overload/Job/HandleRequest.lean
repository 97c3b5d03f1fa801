import Overload.Transition
import Overload.Job.Status

/-! One job's `handle_request` (`primary.rs`, `standalone.rs`) among calls that stop
jobs and clean up after them.  Every access to `JOB_STATUS` is one step. -/

namespace Overload.Job

open Transition

inductive Mode
  | primary
  | standalone
  deriving DecidableEq, Repr

def Mode.polls : Mode → Nat → Bool
  | .primary, counter => counter % 5 == 0
  | .standalone, counter => (counter + 1) % 5 == 0

def Mode.nextCounter : Mode → Nat → Nat
  | .primary, counter => if counter = 10 then 0 else counter + 1
  | .standalone, counter => if (counter + 1) % 5 == 0 then 0 else counter + 1

/-- Where the job stands: `running` waits for the generator, `sending` has passed
the look for a stop, `leaving` is past the loop, with the reason it was left. -/
inductive Runner
  | submitted
  | starting
  | running (counter : Nat)
  | sending (counter : Nat)
  | leaving (sawStopped : Bool)
  | done (sawStopped : Bool)
  | panicked
  deriving DecidableEq, Repr

/-- `cleanups` are the `cleanup_job` calls between their two critical sections. -/
structure System where
  jobStatus : StatusMap
  runner : Runner
  cleanups : List (List String)

namespace System

def insertStatus (s : System) (job : String) (status : JobStatus) (runner : Runner) : System :=
  { s with jobStatus := s.jobStatus.insert job status, runner }

def tick (s : System) (mode : Mode) (job : String) (counter : Nat) : System :=
  if mode.polls counter = true ∧ s.jobStatus[job]? = some .stopped then
    { s with runner := .leaving true }
  else { s with runner := .sending (mode.nextCounter counter) }

end System

inductive Action
  | insertStarting
  | insertInProgress
  | tick
  | sendRates
  | exhausted
  | insertCompleted
  | panic
  | stop (jobId : String)
  | cleanupRead
  | cleanupWrite (i : Nat)
  deriving DecidableEq, Repr

def step (mode : Mode) (job : String) (s : System) : Action → Option System
  | .insertStarting =>
    match s.runner with
    | .submitted => some (s.insertStatus job .starting .starting)
    | _ => none
  | .insertInProgress =>
    match s.runner with
    | .starting => some (s.insertStatus job .inProgress (.running 0))
    | _ => none
  | .tick =>
    match s.runner with
    | .running counter => some (s.tick mode job counter)
    | _ => none
  | .sendRates =>
    match s.runner with
    | .sending counter => some { s with runner := .running counter }
    | _ => none
  | .exhausted =>
    match s.runner with
    | .running _ => some { s with runner := .leaving false }
    | _ => none
  | .insertCompleted =>
    match s.runner with
    | .leaving sawStopped => some (s.insertStatus job .completed (.done sawStopped))
    | _ => none
  | .panic =>
    -- the unwraps on the way to the secondaries
    match s.runner with
    | .starting | .sending _ => some { s with runner := .panicked }
    | _ => none
  | .stop jobId => some { s with jobStatus := (stopRequestByJobId jobId s.jobStatus).1 }
  | .cleanupRead =>
    some { s with cleanups := s.cleanups ++ [cleanupRead JobStatus.finished s.jobStatus] }
  | .cleanupWrite i =>
    match s.cleanups[i]? with
    | some indices =>
      some { s with
        jobStatus := cleanupWrite indices s.jobStatus
        cleanups := s.cleanups.eraseIdx i }
    | none => none

inductive Steps (mode : Mode) (job : String) (s : System) : Action → System → Prop
  | insertStarting (hr : s.runner = .submitted) :
    Steps mode job s .insertStarting (s.insertStatus job .starting .starting)
  | insertInProgress (hr : s.runner = .starting) :
    Steps mode job s .insertInProgress (s.insertStatus job .inProgress (.running 0))
  | tick {counter : Nat} (hr : s.runner = .running counter) :
    Steps mode job s .tick (s.tick mode job counter)
  | sendRates {counter : Nat} (hr : s.runner = .sending counter) :
    Steps mode job s .sendRates { s with runner := .running counter }
  | exhausted {counter : Nat} (hr : s.runner = .running counter) :
    Steps mode job s .exhausted { s with runner := .leaving false }
  | insertCompleted {sawStopped : Bool} (hr : s.runner = .leaving sawStopped) :
    Steps mode job s .insertCompleted (s.insertStatus job .completed (.done sawStopped))
  | panicStarting (hr : s.runner = .starting) :
    Steps mode job s .panic { s with runner := .panicked }
  | panicSending {counter : Nat} (hr : s.runner = .sending counter) :
    Steps mode job s .panic { s with runner := .panicked }
  | stop {jobId : String} :
    Steps mode job s (.stop jobId) { s with jobStatus := (stopRequestByJobId jobId s.jobStatus).1 }
  | cleanupRead :
    Steps mode job s .cleanupRead { s with
      cleanups := s.cleanups ++ [cleanupRead JobStatus.finished s.jobStatus] }
  | cleanupWrite {i : Nat} {indices : List String} (hi : s.cleanups[i]? = some indices) :
    Steps mode job s (.cleanupWrite i) { s with
      jobStatus := cleanupWrite indices s.jobStatus
      cleanups := s.cleanups.eraseIdx i }

theorem Steps.of_step {mode : Mode} {job : String} {s t : System} {a : Action}
    (h : step mode job s a = some t) : Steps mode job s a t := by
  cases a with
  | panic =>
    simp only [step] at h
    split at h
    · cases h
      exact .panicStarting ‹_›
    · cases h
      exact .panicSending ‹_›
    · cases h
  | stop jobId =>
    cases h
    exact .stop
  | cleanupRead =>
    cases h
    exact .cleanupRead
  | _ =>
    simp only [step] at h
    split at h
    · cases h
      constructor
      assumption
    · cases h

def Stops (job : String) (s : System) (a : Action) : Prop :=
  ∃ jobId, a = .stop jobId ∧ s.runner ≠ .submitted ∧
    ((job, some .starting) ∈ (stopRequestByJobId jobId s.jobStatus).2 ∨
      (job, some .inProgress) ∈ (stopRequestByJobId jobId s.jobStatus).2)

def StopNoticed (mode : Mode) (job : String) (s₀ : System) (past : List Action)
    (_s : System) : Prop :=
  ∀ before a after u, past = before ++ a :: after → run (step mode job) s₀ before = some u →
    Stops job u a → after.count .sendRates ≤ 5

def Runner.looking : Runner → Bool
  | .starting | .running _ | .sending _ => true
  | _ => false

/-- Nobody takes the stop out of the map while the job could still look for it:
the job does not write `InProgress` over it, and a cleanup does not remove it. -/
def KeepsStop (job : String) (_past : List Action) (s : System) : Action → Prop
  | .insertInProgress => s.jobStatus[job]? ≠ some .stopped
  | .cleanupWrite i =>
    ∀ indices ∈ s.cleanups[i]?, job ∈ indices → s.runner.looking = true →
      s.jobStatus[job]? ≠ some .stopped
  | _ => True

instance (job : String) (past : List Action) (s : System) : DecidablePred (KeepsStop job past s)
  | .insertInProgress => inferInstanceAs (Decidable (_ ≠ _))
  | .cleanupWrite i => inferInstanceAs (Decidable (∀ indices ∈ s.cleanups[i]?, _))
  | .insertStarting | .tick | .sendRates | .exhausted | .insertCompleted | .panic | .stop _
  | .cleanupRead => isTrue trivial

def Mode.untilPoll : Mode → Nat → Nat
  | .primary, counter => (5 - counter % 5) % 5
  | .standalone, counter => (5 - (counter + 1) % 5) % 5

def Runner.remaining (mode : Mode) : Runner → Nat
  | .running counter => mode.untilPoll counter
  | .sending counter => mode.untilPoll counter + 1
  | _ => 0

theorem Runner.remaining_le (mode : Mode) (runner : Runner) : runner.remaining mode ≤ 5 := by
  cases runner <;> cases mode <;> simp only [remaining, Mode.untilPoll] <;> omega

theorem Mode.untilPoll_nextCounter (mode : Mode) (counter : Nat)
    (h : mode.polls counter = false) :
    mode.untilPoll (mode.nextCounter counter) + 1 = mode.untilPoll counter := by
  cases mode with
  | primary =>
    simp only [polls, beq_eq_false_iff_ne] at h
    simp only [untilPoll, nextCounter]
    rw [if_neg (by omega)]
    omega
  | standalone =>
    simp only [polls, beq_eq_false_iff_ne] at h
    simp only [untilPoll, nextCounter, beq_iff_eq, if_neg h]
    omega

def Stopping (job : String) (s : System) : Prop :=
  s.runner ≠ .submitted ∧ (s.runner.looking = true → s.jobStatus[job]? = some .stopped)

variable {mode : Mode} {job : String} {s t : System} {a : Action}

theorem Stopping.of_stops (h : Stops job s a) (hstep : step mode job s a = some t) :
    Stopping job t := by
  obtain ⟨jobId, rfl, hrunner, hmem⟩ := h
  cases hstep
  refine ⟨hrunner, fun _ => ?_⟩
  simp only [mem_stopRequestByJobId] at hmem
  rcases hmem with ⟨hstarts, hold⟩ | ⟨hstarts, hold⟩ <;>
    simp [getElem?_stopRequestByJobId, hstarts, hold]

theorem Stopping.tick {counter : Nat} (hs : Stopping job s) (hr : s.runner = .running counter) :
    Stopping job (s.tick mode job counter) ∧
      (s.tick mode job counter).runner.remaining mode ≤ s.runner.remaining mode := by
  have hentry : s.jobStatus[job]? = some .stopped := hs.2 (by simp [hr, Runner.looking])
  cases hpoll : mode.polls counter with
  | true => simp [System.tick, hpoll, hentry, Stopping, Runner.looking, Runner.remaining]
  | false =>
    have hnext := mode.untilPoll_nextCounter counter hpoll
    simp only [System.tick, hpoll, Bool.false_eq_true, false_and, if_false, hr, Runner.remaining]
    exact ⟨⟨by simp, fun _ => hentry⟩, Nat.le_of_eq hnext⟩

theorem Stopping.step {past : List Action} (hs : Stopping job s) (hkeep : KeepsStop job past s a)
    (h : Job.step mode job s a = some t) :
    Stopping job t ∧
      t.runner.remaining mode + [a].count .sendRates ≤ s.runner.remaining mode := by
  cases Steps.of_step h with
  | insertStarting hr => exact absurd hr hs.1
  | insertInProgress hr => exact absurd (hs.2 (by simp [hr, Runner.looking])) hkeep
  | tick hr => simpa using hs.tick hr
  | sendRates hr =>
    have hentry := hs.2 (by simp [hr, Runner.looking])
    exact ⟨⟨by simp, fun _ => hentry⟩, by simp [hr, Runner.remaining]⟩
  | exhausted hr => simp [Stopping, Runner.looking, Runner.remaining]
  | insertCompleted hr => simp [System.insertStatus, Stopping, Runner.looking, Runner.remaining]
  | panicStarting hr => simp [Stopping, Runner.looking, Runner.remaining]
  | panicSending hr => simp [Stopping, Runner.looking, Runner.remaining]
  | stop =>
    refine ⟨⟨hs.1, fun hlook => ?_⟩, by simp⟩
    simp [getElem?_stopRequestByJobId, hs.2 hlook]
  | cleanupRead => exact ⟨hs, by simp⟩
  | @cleanupWrite i indices hi =>
    refine ⟨⟨hs.1, fun hlook => ?_⟩, by simp⟩
    have hentry := hs.2 hlook
    have hnot : job ∉ indices := fun hmem => hkeep indices hi hmem hlook hentry
    simp [getElem?_cleanupWrite, hnot, hentry]

def StopPaid (mode : Mode) (job : String) (s₀ : System) (past : List Action)
    (s : System) : Prop :=
  ∀ before a after u, past = before ++ a :: after → run (step mode job) s₀ before = some u →
    Stops job u a → Stopping job s ∧ s.runner.remaining mode + after.count .sendRates ≤ 5

theorem StopPaid.step {s₀ : System} {past : List Action} (hs : StopPaid mode job s₀ past s)
    (hpast : run (Job.step mode job) s₀ past = some s) (hkeep : KeepsStop job past s a)
    (h : Job.step mode job s a = some t) : StopPaid mode job s₀ (past ++ [a]) t := by
  intro before b after u hsplit hu hstops
  rcases split_concat hsplit with ⟨rfl, rfl, rfl⟩ | ⟨after', rfl, hbefore⟩
  · obtain rfl : s = u := Option.some.inj (hpast.symm.trans hu)
    exact ⟨.of_stops hstops h, by simpa using t.runner.remaining_le mode⟩
  · obtain ⟨hstopping, hpaid⟩ := hs before b after' u hbefore hu hstops
    obtain ⟨hstopping', hpaid'⟩ := hstopping.step hkeep h
    refine ⟨hstopping', ?_⟩
    rw [List.count_append]
    omega

/-- As long as nobody takes the stop out of the map, a stopped job sends rates on
at most five more ticks, whenever the stop comes. -/
theorem stop_noticed (mode : Mode) (job : String) (s₀ : System) (as : List Action)
    (hmeets : Meets (step mode job) (KeepsStop job) s₀ as) :
    Always (step mode job) (StopNoticed mode job s₀) s₀ as := by
  have hpaid : Always (step mode job) (fun past s =>
      run (step mode job) s₀ past = some s ∧ StopPaid mode job s₀ past s) s₀ as := by
    refine hmeets.always ?_ ?_
    · exact ⟨rfl, fun before a after u hnil => by simp at hnil⟩
    · intro past s a t hs hkeep hstep
      exact ⟨run_concat_eq_some.mpr ⟨s, hs.1, hstep⟩, hs.2.step hs.1 hkeep hstep⟩
  refine hpaid.mono ?_
  intro past s hs before a after u hpast hu hstops
  have := (hs.2 before a after u hpast hu hstops).2
  omega

def submitted : System := ⟨∅, .submitted, []⟩

def stopRunning : List Action :=
  [.insertStarting, .insertInProgress, .tick, .sendRates, .stop "job", .tick, .sendRates, .tick,
    .sendRates, .tick, .sendRates, .tick, .sendRates, .tick, .insertCompleted]

theorem stop_noticed_stopRunning :
    Always (step .primary "job") (StopNoticed .primary "job" submitted) submitted stopRunning :=
  stop_noticed .primary "job" submitted stopRunning (by decide)

def stopStarting : List Action :=
  [.insertStarting, .stop "job", .insertInProgress, .tick, .sendRates, .tick, .sendRates,
    .tick, .sendRates, .tick, .sendRates, .tick, .sendRates, .tick, .sendRates]

theorem stopStarting_lost :
    (run (step .primary "job") submitted stopStarting).isSome = true ∧
    ¬ Always (step .primary "job") (StopNoticed .primary "job" submitted) submitted
      stopStarting := by
  have hrun : (run (step .primary "job") submitted stopStarting).isSome = true := by decide
  refine ⟨hrun, ?_⟩
  obtain ⟨s, hs⟩ := Option.isSome_iff_exists.mp hrun
  refine not_always_of_last hs fun hnoticed => ?_
  have hbound := hnoticed [.insertStarting] (.stop "job") (stopStarting.drop 2)
    ⟨Std.TreeMap.insert ∅ "job" .starting, .starting, []⟩ rfl rfl
    ⟨"job", rfl, by decide, .inl (by decide)⟩
  revert hbound
  decide

end Overload.Job
