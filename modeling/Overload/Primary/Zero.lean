import Overload.Primary.HandleRequest

namespace Overload.Primary

open Calls (Outcome)
open Transition
open Split (SplitRequestFile splitRanges)

variable {job : Job} {s t : State} {a : Action}

theorem sendSplits_eq (req : SplitRequestFile) {senders : List Sender} {splits : List (Nat × Nat)}
    (h : senders.length = splits.length) :
    sendSplits req senders splits = some (List.zipWith (fun sender range =>
      sender.send (.request (.splitRequestFile (req.cloneWithNewRange range))))
        senders splits) := by
  induction senders generalizing splits with
  | nil => cases splits <;> rfl
  | cons sender senders ih =>
    cases splits with
    | nil => simp at h
    | cons range splits => simp [sendSplits, ih (Nat.succ.inj h)]

/-- The look at the split file comes back: the submitted range has a row, and the first one can be
converted. -/
def Job.samples (job : Job) : Bool :=
  match job.request with
  | .splitRequestFile req => !req.overflows && (req.firstRow job.view).any (·.2.isSome)
  | _ => true

section Split

variable {readable : Bool} {req : SplitRequestFile} {senders : List Sender}

theorem read_unread (hreads : job.reads readable = false) :
    job.read readable req = .returned none := by
  simp [Job.read, hreads]

theorem processAndSendRequest_unread (hreads : job.reads readable = false) :
    processAndSendRequest job readable req senders = .returned senders := by
  simp [processAndSendRequest, read_unread hreads]

theorem rows_of_reads (hreads : job.reads readable = true) : 1 ≤ job.view.length := by
  simp only [Job.reads, Bool.and_eq_true, decide_eq_true_eq] at hreads
  rw [Job.view, Provider.length_view]
  exact hreads.2

theorem read_samples (hreads : job.reads readable = true)
    (hreq : job.request = .splitRequestFile req) (hsamples : job.samples = true) :
    ∃ file, job.read readable req.clone = .returned (some file) ∧ file.size = job.rows := by
  simp only [Job.samples, hreq, Bool.and_eq_true, Bool.not_eq_true', Option.any_eq_true]
    at hsamples
  obtain ⟨hoverflows, ⟨id, found⟩, hfirst, hfound⟩ := hsamples
  have hoverflows' : req.clone.overflows = false := hoverflows
  have hgetN := SplitRequestFile.getN_first (Provider.sorted_view job.parseHeaders job.table) hfirst
  cases found with
  | none => cases hfound
  | some sample =>
    obtain ⟨file, hgetN, hsize⟩ := hgetN
    rw [Provider.length_view] at hgetN hsize
    have hwidth : req.clone.width job.rows = req.width job.table.size := rfl
    refine ⟨file, ?_, hsize⟩
    simp only [Job.read, hreads, if_true, hoverflows', Bool.false_eq_true, if_false, hwidth,
      Job.view, hgetN]

theorem read_lost (hreads : job.reads readable = true)
    (hreq : job.request = .splitRequestFile req) (hsamples : job.samples = false) :
    job.read readable req.clone = .panicked ∨ job.read readable req.clone = .endless := by
  have hwidth : req.clone.width job.rows = req.width job.view.length := by
    rw [Job.view, Provider.length_view]
    rfl
  cases hoverflows : req.clone.overflows with
  | true => simp [Job.read, hreads, hoverflows]
  | false =>
    simp only [Job.read, hreads, if_true, hoverflows, Bool.false_eq_true, if_false, hwidth]
    cases hfirst : req.firstRow job.view with
    | none =>
      right
      rw [SplitRequestFile.getN_endless (rows_of_reads hreads) hfirst (Nat.le_refl 1)]
    | some row =>
      have hoverflows' : req.overflows = false := hoverflows
      have hnone : row.2 = none := by simpa [Job.samples, hreq, hoverflows', hfirst] using hsamples
      have hgetN := SplitRequestFile.getN_first
        (Provider.sorted_view job.parseHeaders job.table) hfirst
      rw [hnone] at hgetN
      left
      rw [show SplitRequestFile.getN job.view (req.width job.view.length) req.clone 1 = .panicked
        from hgetN]

theorem processAndSendRequest_samples (hreads : job.reads readable = true)
    (hreq : job.request = .splitRequestFile req) (hsamples : job.samples = true)
    (senders : List Sender) :
    ∃ file, processAndSendRequest job readable req.clone senders =
      .ofOption ((splitRanges job.rows senders.length).bind (sendSplits file senders)) := by
  obtain ⟨file, hread, hsize⟩ := read_samples hreads hreq hsamples
  refine ⟨file, ?_⟩
  simp only [processAndSendRequest, hread, SplitRequestFile.sizeHint, hsize]

theorem processAndSendRequest_sends (hreads : job.reads readable = true)
    (hreq : job.request = .splitRequestFile req) (hsamples : job.samples = true)
    (hne : senders ≠ []) :
    ∃ file ranges senders', Split.Splits job.rows senders.length ranges ∧
      sendSplits file senders ranges = some senders' ∧
      processAndSendRequest job readable req.clone senders = .returned senders' := by
  obtain ⟨file, hprocess⟩ := processAndSendRequest_samples hreads hreq hsamples senders
  simp only [Job.reads, Bool.and_eq_true, decide_eq_true_eq] at hreads
  obtain ⟨ranges, hranges, hsplits⟩ :=
    Split.splitRanges_splits hreads.2 (List.length_pos_iff.mpr hne)
  have hsends := sendSplits_eq file hsplits.length.symm
  refine ⟨file, ranges, _, hsplits, hsends, ?_⟩
  rw [hprocess, hranges, Option.bind_some, hsends]
  rfl

theorem processAndSendRequest_lost (hreads : job.reads readable = true)
    (hreq : job.request = .splitRequestFile req)
    (hlost : ¬ (job.samples = true ∧ senders ≠ [])) :
    processAndSendRequest job readable req.clone senders = .panicked ∨
      processAndSendRequest job readable req.clone senders = .endless := by
  by_cases hsamples : job.samples = true
  · obtain rfl : senders = [] := by simpa [hsamples] using hlost
    obtain ⟨file, hprocess⟩ := processAndSendRequest_samples hreads hreq hsamples []
    left
    rw [hprocess]
    rfl
  · rcases read_lost hreads hreq (Bool.eq_false_iff.mpr hsamples) with hread | hread
    · exact .inl (by rw [processAndSendRequest, hread])
    · exact .inr (by rw [processAndSendRequest, hread])

theorem samples_of_returned {senders' : List Sender} (hreads : job.reads readable = true)
    (hreq : job.request = .splitRequestFile req)
    (h : processAndSendRequest job readable req.clone senders = .returned senders') :
    job.samples = true ∧ senders ≠ [] := by
  by_contra hlost
  rcases processAndSendRequest_lost hreads hreq hlost with hlost | hlost
  · cases h.symm.trans hlost
  · cases h.symm.trans hlost

end Split

def Phase.lost : Phase → Bool
  | .panicked | .endless _ => true
  | _ => false

/-- A request for a split file that can be read has somebody to be split among and
a row to begin with, and the rates are for a number of secondaries that they can be
divided by. -/
def Returns (job : Job) (s : State) : Action → Prop
  | .sendRequest readable =>
    requireReset job.request = true → job.reads readable = true →
      job.samples = true ∧ s.senders ≠ []
  | .sendRates _ =>
    match s.phase with
    | .sending qps connectionCount =>
      s.senders ≠ [] → Shareable qps.toNat connectionCount.toNat s.senders.length
    | _ => True
  | _ => True

theorem lost_sendRequest (readable : Bool) (instances : List String)
    (rates : Option (UInt32 × UInt32)) :
    (s.sendRequest job readable instances rates).phase.lost = false ↔
      Returns job s (.sendRequest readable) := by
  have hreturned {senders : List Sender}
      (h : sendRequestToSecondary job readable instances s.senders = .returned senders) :
      (s.sendRequest job readable instances rates).phase.lost = false := by
    cases rates <;> simp [State.sendRequest, h, Phase.lost]
  cases hreset : requireReset job.request with
  | false =>
    have hother := sendRequestToSecondary_other hreset readable instances s.senders
    simp [Returns, hreset, hreturned hother]
  | true =>
    obtain ⟨req, hreq, hsplit⟩ :=
      sendRequestToSecondary_split hreset readable instances s.senders
    cases hreads : job.reads readable with
    | false =>
      have hunread := hsplit.trans (processAndSendRequest_unread hreads)
      simp [Returns, hreads, hreturned hunread]
    | true =>
      simp only [Returns, hreset, hreads, forall_const]
      by_cases hboth : job.samples = true ∧ s.senders ≠ []
      · obtain ⟨_, _, senders, _, _, hsends⟩ :=
          processAndSendRequest_sends hreads hreq hboth.1 hboth.2
        exact iff_of_true (hreturned (hsplit.trans hsends)) hboth
      · refine iff_of_false ?_ hboth
        rcases processAndSendRequest_lost hreads hreq hboth with hlost | hlost
        · simp [State.sendRequest, hsplit, hlost, State.panic, Phase.lost]
        · simp [State.sendRequest, hsplit, hlost, Phase.lost]

theorem lost_sendRateMessage (qps connectionCount : UInt32) (failing : List String) :
    (s.sendRateMessage qps connectionCount failing).phase.lost = false ↔
      (s.senders ≠ [] → Shareable qps.toNat connectionCount.toNat s.senders.length) := by
  have hshareable := shareable_iff (k := s.senders.length) qps.toNat_lt connectionCount.toNat_lt
  unfold State.sendRateMessage
  split
  · rename_i hempty
    simp [List.isEmpty_iff.mp hempty, Phase.lost]
  · rename_i hne
    have hne' : s.senders ≠ [] := by simpa using hne
    rw [← hshareable]
    split
    · rename_i h
      simp [State.panic, h, hne', Phase.lost]
    · rename_i qs cs h
      simp [h, Phase.lost]

theorem lost_step (hs : s.phase.lost = false) (h : step job s a = some t) :
    t.phase.lost = false ↔ Returns job s a := by
  cases Steps.of_step h with
  | initSenders hphase => simp [State.initSenders, Returns, Phase.lost]
  | tick hphase hstream =>
    simp only [State.tick, Returns, iff_true]
    split
    · rfl
    · dsimp only
      split <;> rfl
  | refresh hphase =>
    simp only [State.refresh, Returns, iff_true]
    split
    · rfl
    · split <;> rfl
  | sendRequest hphase => exact lost_sendRequest _ _ _
  | sendRates hphase =>
    simp only [Returns, hphase]
    exact lost_sendRateMessage _ _ _
  | exhausted hphase hstream => simp [Returns, Phase.lost]
  | finish hphase => simp [State.finish, Returns, Phase.lost]
  | rehash hperm => simpa [Returns] using hs

def Action.isRehash : Action → Bool
  | .rehash _ => true
  | _ => false

def Halted (job : Job) (s : State) : Prop := ∀ a, a.isRehash = false → step job s a = none

theorem halted_iff : Halted job s ↔ s.phase = .done ∨ s.phase.lost = true := by
  constructor
  · intro h
    have hinit := h (.initSenders none) rfl
    have htick := h (.tick false) rfl
    have hrefresh := h (.refresh none) rfl
    have hrequest := h (.sendRequest true) rfl
    have hrates := h (.sendRates []) rfl
    have hexhausted := h .exhausted rfl
    have hfinish := h .finish rfl
    cases hphase : s.phase with
    | running =>
      cases hstream : s.stream with
      | nil => simp [step, hphase, hstream] at hexhausted
      | cons rates stream => simp [step, hphase, hstream] at htick
    | _ => simp_all [step, Phase.lost]
  · rintro h a ha
    cases hphase : s.phase with
    | done | panicked | endless =>
      cases a with
      | rehash senders => cases ha
      | _ => simp [step, hphase]
    | _ => simp [hphase, Phase.lost] at h

def Phase.rank : Phase → Nat
  | .submitted | .refreshing _ _ => 5
  | .requesting _ _ => 4
  | .sending _ _ => 3
  | .running => 2
  | .leaving => 1
  | .done | .panicked | .endless _ => 0

def State.rank (s : State) : Nat := 4 * s.stream.length + s.phase.rank

theorem rank_tick (stopped : Bool) (qps connectionCount : UInt32)
    (stream : List (UInt32 × UInt32)) :
    (s.tick stopped qps connectionCount stream).rank ≤ 4 * stream.length + 5 := by
  simp only [State.rank, State.tick]
  split
  · simp [Phase.rank]
  · by_cases hcounter : s.counter = 10 <;> simp [hcounter, Phase.rank]

theorem rank_refresh (secondaries : Option (List Node)) (qps connectionCount : UInt32) :
    (s.refresh job secondaries qps connectionCount).rank ≤ 4 * s.stream.length + 4 := by
  simp only [State.rank, State.refresh]
  split
  · split <;> simp [Phase.rank]
  · split <;> simp [Phase.rank]

theorem rank_sendRequest (readable : Bool) (instances : List String)
    (rates : Option (UInt32 × UInt32)) :
    (s.sendRequest job readable instances rates).rank ≤ 4 * s.stream.length + 3 := by
  unfold State.rank State.sendRequest
  split
  · simp [State.panic, Phase.rank]
  · simp [Phase.rank]
  · cases rates <;> simp [Phase.rank]

theorem rank_sendRateMessage (qps connectionCount : UInt32) (failing : List String) :
    (s.sendRateMessage qps connectionCount failing).rank ≤ 4 * s.stream.length + 2 := by
  unfold State.rank State.sendRateMessage
  split
  · simp [Phase.rank]
  · split <;> simp [State.panic, Phase.rank]

theorem rank_step (h : step job s a = some t) : t.rank + [a].countP (!·.isRehash) ≤ s.rank := by
  cases Steps.of_step h with
  | initSenders hphase =>
    simp [State.rank, State.initSenders, hphase, Phase.rank, Action.isRehash]
  | tick hphase hstream =>
    apply Nat.succ_le_succ (rank_tick ..) |>.trans
    simp only [State.rank, hphase, hstream, List.length_cons, Phase.rank]
    omega
  | refresh hphase =>
    apply Nat.succ_le_succ (rank_refresh ..) |>.trans
    simp [State.rank, hphase, Phase.rank]
  | sendRequest hphase =>
    apply Nat.succ_le_succ (rank_sendRequest ..) |>.trans
    simp [State.rank, hphase, Phase.rank]
  | sendRates hphase =>
    apply Nat.succ_le_succ (rank_sendRateMessage ..) |>.trans
    simp [State.rank, hphase, Phase.rank]
  | exhausted hphase hstream => simp [State.rank, hphase, Phase.rank, Action.isRehash]
  | finish hphase => simp [State.rank, State.finish, hphase, Phase.rank, Action.isRehash]
  | rehash hperm => simp [State.rank, Action.isRehash]

def State.runner (s : State) (sawStopped : Bool) : Job.Runner :=
  match s.phase with
  | .submitted | .requesting _ none | .endless none => .starting
  | .running => .running s.counter
  | .refreshing _ _ | .requesting _ (some _) | .endless (some _) | .sending _ _ =>
    .sending s.counter
  | .leaving => .leaving sawStopped
  | .done => .done sawStopped
  | .panicked => .panicked

variable (sawStopped : Bool)

theorem runner_tick (stopped : Bool) (qps connectionCount : UInt32)
    (stream : List (UInt32 × UInt32)) :
    (s.tick stopped qps connectionCount stream).runner sawStopped =
      if Job.Mode.primary.polls s.counter && stopped then .leaving sawStopped
      else .sending (Job.Mode.primary.nextCounter s.counter) := by
  unfold State.tick
  split
  · rfl
  · by_cases hten : s.counter = 10 <;> simp [State.runner, hten]

theorem runner_refresh (secondaries : Option (List Node)) (qps connectionCount : UInt32) :
    (s.refresh job secondaries qps connectionCount).runner sawStopped = .sending s.counter := by
  simp only [State.refresh]
  split
  · split <;> rfl
  · split <;> rfl

theorem runner_sendRequest {instances : List String} {rates : Option (UInt32 × UInt32)}
    (hphase : s.phase = .requesting instances rates) (readable : Bool) :
    (s.sendRequest job readable instances rates).runner sawStopped = .panicked ∨
    (s.sendRequest job readable instances rates).runner sawStopped = s.runner sawStopped ∨
      (s.sendRequest job readable instances rates).runner sawStopped =
        if rates = none then .running s.counter else .sending s.counter := by
  unfold State.sendRequest
  split
  · exact .inl rfl
  · right
    left
    cases rates <;> simp [State.runner, hphase]
  · right
    right
    cases rates <;> rfl

theorem counter_sendRequest (readable : Bool) (instances : List String)
    (rates : Option (UInt32 × UInt32)) :
    (s.sendRequest job readable instances rates).counter = s.counter := by
  unfold State.sendRequest
  split <;> rfl

theorem runner_sendRateMessage (qps connectionCount : UInt32) (failing : List String) :
    (s.sendRateMessage qps connectionCount failing).runner sawStopped = .panicked ∨
      (s.sendRateMessage qps connectionCount failing).runner sawStopped =
        .running s.counter := by
  unfold State.sendRateMessage
  split
  · exact .inr rfl
  · split
    · exact .inl rfl
    · exact .inr rfl

def CountsFromZero (s : State) : Prop := s.runner false = .starting → s.counter = 0

theorem countsFromZero_step (hs : CountsFromZero s) (h : step job s a = some t) :
    CountsFromZero t := by
  intro ht
  cases Steps.of_step h with
  | initSenders hphase => exact hs (by simp [State.runner, hphase])
  | tick hphase hstream =>
    rw [runner_tick] at ht
    split at ht <;> cases ht
  | refresh hphase => cases (runner_refresh ..).symm.trans ht
  | @sendRequest readable _ _ hphase =>
    rcases runner_sendRequest false hphase readable with hrunner | hrunner | hrunner
    · cases hrunner.symm.trans ht
    · rw [counter_sendRequest]
      exact hs (hrunner.symm.trans ht)
    · have hcases := hrunner.symm.trans ht
      split at hcases <;> cases hcases
  | sendRates hphase =>
    rcases runner_sendRateMessage .. with hrunner | hrunner <;> cases hrunner.symm.trans ht
  | exhausted hphase hstream => cases ht
  | finish hphase => cases ht
  | rehash hperm => exact hs ht

theorem job_step {name : String} {jobStatus : Job.StatusMap} {cleanups : List (List String)}
    {stream : List (UInt32 × UInt32)} {past : List Action}
    (hrun : run (step job) (.new stream) past = some s) (h : step job s a = some t)
    (hlook : ∀ stopped, a = .tick stopped →
      (stopped = true ↔ jobStatus[name]? = some .stopped)) :
    ∃ bs sawStopped' u,
      run (Job.step .primary name) ⟨jobStatus, s.runner sawStopped, cleanups⟩ bs = some u ∧
      u.runner = t.runner sawStopped' ∧
      (a = .finish → u.jobStatus[name]? = some .completed) := by
  have hs : CountsFromZero s :=
    run_invariant (fun _ _ _ => countsFromZero_step) (fun _ => rfl) hrun
  cases Steps.of_step h with
  | initSenders hphase =>
    refine ⟨[], sawStopped, _, rfl, ?_, by simp⟩
    simp [State.runner, State.initSenders, hphase]
  | @tick stopped qps connectionCount stream hphase hstream =>
    have hstopped := hlook stopped rfl
    refine ⟨[.tick], true, _, by simp [Job.step, State.runner, hphase]; rfl, ?_, by simp⟩
    rw [runner_tick, Job.System.tick]
    simp only [Bool.and_eq_true, hstopped]
    split <;> rfl
  | refresh hphase =>
    refine ⟨[], sawStopped, _, rfl, ?_, by simp⟩
    rw [runner_refresh]
    simp [State.runner, hphase]
  | @sendRequest readable instances rates hphase =>
    rcases runner_sendRequest sawStopped hphase readable with hrunner | hrunner | hrunner
    · refine ⟨[.panic], sawStopped, ⟨jobStatus, .panicked, cleanups⟩, ?_, hrunner.symm, by simp⟩
      cases rates <;> simp [Job.step, State.runner, hphase]
    · exact ⟨[], sawStopped, _, rfl, hrunner.symm, by simp⟩
    · cases rates with
      | none =>
        have hzero : s.counter = 0 := hs (by simp [State.runner, hphase])
        refine ⟨[.insertInProgress], sawStopped, _,
          by simp [Job.step, State.runner, hphase]; rfl, ?_, by simp⟩
        rw [hrunner, if_pos rfl, hzero]
        rfl
      | some rates =>
        refine ⟨[], sawStopped, _, rfl, ?_, by simp⟩
        rw [hrunner]
        simp [State.runner, hphase]
  | @sendRates failing qps connectionCount hphase =>
    rcases runner_sendRateMessage sawStopped qps connectionCount failing with hrunner | hrunner
    · refine ⟨[.panic], sawStopped, ⟨jobStatus, .panicked, cleanups⟩, ?_, hrunner.symm, by simp⟩
      simp [Job.step, State.runner, hphase]
    · refine ⟨[.sendRates], sawStopped, ⟨jobStatus, .running s.counter, cleanups⟩, ?_,
        hrunner.symm, by simp⟩
      simp [Job.step, State.runner, hphase]
  | exhausted hphase hstream =>
    refine ⟨[.exhausted], false, ⟨jobStatus, .leaving false, cleanups⟩, ?_, rfl, by simp⟩
    simp [Job.step, State.runner, hphase]
  | finish hphase =>
    refine ⟨[.insertCompleted], sawStopped, _,
      by simp [Job.step, State.runner, hphase]; rfl, rfl, ?_⟩
    intro _
    simp [Job.System.insertStatus]
  | rehash hperm => exact ⟨[], sawStopped, _, rfl, rfl, by simp⟩

/-- The job is on its way to its last write to `JOB_STATUS`: it has neither panicked nor
got stuck, the steps it has taken and those left are bounded, and when it can take none
it has made that write. -/
def OnItsWay (job : Job) (stream : List (UInt32 × UInt32)) (past : List Action)
    (s : State) : Prop :=
  s.phase.lost = false ∧ s.rank + past.countP (!·.isRehash) ≤ 4 * stream.length + 5 ∧
    (Halted job s → s.phase = .done)

theorem onItsWay_step {stream : List (UInt32 × UInt32)} {past : List Action}
    (hs : OnItsWay job stream past s) (h : step job s a = some t) :
    OnItsWay job stream (past ++ [a]) t ↔ Returns job s a := by
  rw [← lost_step hs.1 h]
  constructor
  · exact And.left
  · intro ht
    refine ⟨ht, ?_, ?_⟩
    · have hrank := rank_step h
      have hbound := hs.2.1
      rw [List.countP_append]
      omega
    · intro hhalted
      exact (halted_iff.mp hhalted).resolve_right (by simp [ht])

/-- Whatever the cluster, the file and the channels answer: the job makes its last
write exactly if it never divides by a number of secondaries that it cannot divide by, and
never looks for the first row of a range that has none, or one that cannot be converted. -/
theorem last_write_iff {stream : List (UInt32 × UInt32)} {as : List Action}
    (hrun : run (step job) (.new stream) as = some s) :
    Always (step job) (OnItsWay job stream) (.new stream) as ↔
      Meets (step job) (fun _ s a => Returns job s a) (.new stream) as := by
  apply always_iff_meets (I := fun _ => True) trivial (fun _ _ _ _ _ => trivial) _ _ hrun
  · refine ⟨rfl, by simp [State.rank, State.new, Phase.rank], ?_⟩
    intro hhalted
    simpa [State.new, Phase.lost] using halted_iff.mp hhalted
  · intro past s a t _ hs h
    exact onItsWay_step hs h

instance (job : Job) (s : State) (a : Action) : Decidable (Returns job s a) := by
  unfold Returns
  split
  · infer_instance
  · split <;> infer_instance
  · infer_instance

def jobOn (table : Provider.Table) : Job :=
  ⟨.splitRequestFile ⟨"data.sqlite", false, Split.defaultUsizeMax, 0, 0, 0⟩, table,
    fun _ => none, "primary"⟩

def splitJob : Job := jobOn Provider.threeRows

def oneTick : List Action :=
  [.initSenders (some [⟨"a", true⟩, ⟨"b", false⟩]), .sendRequest true, .tick false, .sendRates [],
    .exhausted, .finish]

def ended (stream : List (UInt32 × UInt32)) (as : List Action) : State :=
  (run (step splitJob) (.new stream) as).getD (.new stream)

theorem last_write_oneTick :
    OnItsWay splitJob [(5, 2)] oneTick (ended [(5, 2)] oneTick) ∧
      (ended [(5, 2)] oneTick).phase = .done := by
  have hrun : run (step splitJob) (.new [(5, 2)]) oneTick = some (ended [(5, 2)] oneTick) := by
    decide
  exact ⟨((last_write_iff hrun).mpr (by decide)).last hrun, by decide⟩

def nobody : List Action := [.initSenders none, .sendRequest true]

def everybodyDropped : List Action :=
  [.initSenders (some [⟨"a", true⟩]), .sendRequest true, .tick false, .sendRates ["a"]] ++
    (List.replicate 9 [.tick false, .sendRates []]).flatten ++
    [.tick false, .refresh none, .sendRequest true]

def somebody : List Action := [.initSenders (some [⟨"a", true⟩]), .sendRequest true]

def sampled (job : Job) : State := (run (step job) (.new []) somebody).getD (.new [])

/-- The divisions; and the look at a file without a row in the range, which never comes back, and
at one whose first row cannot be converted. -/
theorem nobody_divides_by_zero :
    ¬ Always (step splitJob) (OnItsWay splitJob []) (.new []) nobody ∧
    ¬ Always (step splitJob) (OnItsWay splitJob (List.replicate 11 (5, 2)))
        (.new (List.replicate 11 (5, 2))) everybodyDropped ∧
    splitRanges splitJob.rows 0 = none ∧
    (¬ Always (step (jobOn Provider.gapTable)) (OnItsWay (jobOn Provider.gapTable) []) (.new [])
        somebody ∧
      (sampled (jobOn Provider.gapTable)).phase = .endless none) ∧
    ¬ Always (step (jobOn Provider.keyedTable)) (OnItsWay (jobOn Provider.keyedTable) []) (.new [])
        somebody ∧
      (sampled (jobOn Provider.keyedTable)).phase = .panicked := by
  refine ⟨not_always_of_last (s := ended [] nobody) (by decide) ?_,
    not_always_of_last (s := ended (List.replicate 11 (5, 2)) everybodyDropped) (by decide) ?_,
    by decide,
    ⟨not_always_of_last (s := sampled (jobOn Provider.gapTable)) (by decide) ?_, by decide⟩,
    not_always_of_last (s := sampled (jobOn Provider.keyedTable)) (by decide) ?_, by decide⟩
  all_goals
    intro h
    exact absurd h.1 (by decide)

end Overload.Primary
