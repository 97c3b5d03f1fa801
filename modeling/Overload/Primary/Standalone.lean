import Overload.Primary.Zero

namespace Overload.Standalone

open Primary (Job Phase State Sender MessageFromPrimary sendToInstances)

def localhost : String := "localhost"

def primaryHost : String := "127.0.0.1"

namespace State

variable (s : State)

def connect (connects : Bool) : State :=
  if connects then
    { s with
      senders := sendToInstances (.metadata primaryHost) [localhost] [⟨localhost, []⟩]
      phase := .requesting [localhost] none }
  else s.panic

def tick (stopped : Bool) (qps connectionCount : UInt32) (stream : List (UInt32 × UInt32)) :
    State :=
  if Job.Mode.standalone.polls s.counter && stopped then { s with stream, phase := .leaving }
  else { s with
    stream
    counter := Job.Mode.standalone.nextCounter s.counter
    phase := .sending qps connectionCount }

/-- A failed send is logged and the sender kept. -/
def sendRateMessageToExecutor (qps connectionCount : UInt32) : State :=
  { s with
    senders := s.senders.map (Sender.send (.rates ⟨qps.toNat, connectionCount.toNat⟩))
    phase := .running }

end State

inductive Action
  | connect (connects : Bool)
  | sendRequest (readable : Bool)
  | tick (stopped : Bool)
  | sendRates
  | exhausted
  | finish
  deriving DecidableEq, Repr

def step (job : Job) (s : State) : Action → Option State
  | .connect connects =>
    match s.phase with
    | .submitted => some (State.connect s connects)
    | _ => none
  | .sendRequest readable =>
    match s.phase with
    | .requesting instances rates => some (s.sendRequest job readable instances rates)
    | _ => none
  | .tick stopped =>
    match s.phase, s.stream with
    | .running, (qps, connectionCount) :: stream =>
      some (State.tick s stopped qps connectionCount stream)
    | _, _ => none
  | .sendRates =>
    match s.phase with
    | .sending qps connectionCount => some (State.sendRateMessageToExecutor s qps connectionCount)
    | _ => none
  | .exhausted =>
    match s.phase, s.stream with
    | .running, [] => some { s with phase := .leaving }
    | _, _ => none
  | .finish =>
    match s.phase with
    | .leaving => some s.finish
    | _ => none

inductive Steps (job : Job) (s : State) : Action → State → Prop
  | connect {connects : Bool} (hphase : s.phase = .submitted) :
    Steps job s (.connect connects) (State.connect s connects)
  | sendRequest {readable : Bool} {instances : List String} {rates : Option (UInt32 × UInt32)}
    (hphase : s.phase = .requesting instances rates) :
    Steps job s (.sendRequest readable) (s.sendRequest job readable instances rates)
  | tick {stopped : Bool} {qps connectionCount : UInt32} {stream : List (UInt32 × UInt32)}
    (hphase : s.phase = .running) (hstream : s.stream = (qps, connectionCount) :: stream) :
    Steps job s (.tick stopped) (State.tick s stopped qps connectionCount stream)
  | sendRates {qps connectionCount : UInt32} (hphase : s.phase = .sending qps connectionCount) :
    Steps job s .sendRates (State.sendRateMessageToExecutor s qps connectionCount)
  | exhausted (hphase : s.phase = .running) (hstream : s.stream = []) :
    Steps job s .exhausted { s with phase := .leaving }
  | finish (hphase : s.phase = .leaving) : Steps job s .finish s.finish

theorem Steps.of_step {job : Job} {s t : State} {a : Action} (h : step job s a = some t) :
    Steps job s a t := by
  cases a with
  | tick stopped =>
    simp only [step] at h
    split at h
    · cases h
      exact .tick ‹_› ‹_›
    · cases h
  | exhausted =>
    simp only [step] at h
    split at h
    · cases h
      exact .exhausted ‹_› ‹_›
    · cases h
  | _ =>
    simp only [step] at h
    split at h
    · cases h
      constructor
      assumption
    · cases h

end Overload.Standalone

namespace Overload.Primary

open Calls (Outcome)
open Transition

def requestMessages (job : Job) (readable : Bool) : Outcome (List MessageFromPrimary) :=
  (sendRequestToSecondary job readable [Standalone.localhost] [⟨Standalone.localhost, []⟩]).map
    (List.flatMap Sender.sent)

def rateMessages (stream : List (UInt32 × UInt32)) : List MessageFromPrimary :=
  stream.map fun rates => .rates ⟨rates.1.toNat, rates.2.toNat⟩

inductive OneChannel (job : Job) (readable : Bool) (host node : String)
    (stream : List (UInt32 × UInt32)) : State → Prop
  | submitted {counter : Nat} :
    OneChannel job readable host node stream ⟨.submitted, stream, counter, [], false, []⟩
  | requesting {counter : Nat} :
    OneChannel job readable host node stream ⟨.requesting [node] none, stream, counter,
      [⟨node, [.metadata host]⟩], false, []⟩
  | endless {rest : List (UInt32 × UInt32)} {counter : Nat} {senders : List Sender}
    {rates : Option (UInt32 × UInt32)} (hrequest : requestMessages job readable = .endless) :
    OneChannel job readable host node stream ⟨.endless rates, rest, counter, senders, false, []⟩
  | running {past rest : List (UInt32 × UInt32)} {counter : Nat}
    {requests : List MessageFromPrimary}
    (hrequest : requestMessages job readable = .returned requests)
    (hstream : past ++ rest = stream) :
    OneChannel job readable host node stream ⟨.running, rest, counter,
      [⟨node, .metadata host :: requests ++ rateMessages past⟩], false, []⟩
  | refreshing {past rest : List (UInt32 × UInt32)} {qps connectionCount : UInt32} {counter : Nat}
    {requests : List MessageFromPrimary}
    (hrequest : requestMessages job readable = .returned requests)
    (hstream : past ++ (qps, connectionCount) :: rest = stream) :
    OneChannel job readable host node stream ⟨.refreshing qps connectionCount, rest, counter,
      [⟨node, .metadata host :: requests ++ rateMessages past⟩], false, []⟩
  | sending {past rest : List (UInt32 × UInt32)} {qps connectionCount : UInt32} {counter : Nat}
    {requests : List MessageFromPrimary}
    (hrequest : requestMessages job readable = .returned requests)
    (hstream : past ++ (qps, connectionCount) :: rest = stream) :
    OneChannel job readable host node stream ⟨.sending qps connectionCount, rest, counter,
      [⟨node, .metadata host :: requests ++ rateMessages past⟩], false, []⟩
  | leaving {counter : Nat} {requests : List MessageFromPrimary}
    (hrequest : requestMessages job readable = .returned requests) :
    OneChannel job readable host node stream ⟨.leaving, [], counter,
      [⟨node, .metadata host :: requests ++ rateMessages stream⟩], false, []⟩
  | done {counter : Nat} {requests : List MessageFromPrimary}
    (hrequest : requestMessages job readable = .returned requests) :
    OneChannel job readable host node stream ⟨.done, [], counter, [], false,
      [⟨node, .metadata host :: requests ++ rateMessages stream ++ [.finished]⟩]⟩
  | panicked {rest : List (UInt32 × UInt32)} {counter : Nat} {closed : List Sender}
    (hrequest : requestMessages job readable = .panicked) :
    OneChannel job readable host node stream ⟨.panicked, rest, counter, [], false, closed⟩

variable {job : Job} {readable : Bool} {host node : String} {stream : List (UInt32 × UInt32)}
  {s t : State}

theorem sendSplits_one (req : Split.SplitRequestFile) (node : String)
    (sent : List MessageFromPrimary) (splits : List (Nat × Nat)) :
    sendSplits req [⟨node, sent⟩] splits = splits.head?.map fun range =>
      [⟨node, sent ++ [.request (.splitRequestFile (req.cloneWithNewRange range))]⟩] := by
  cases splits <;> rfl

theorem processAndSendRequest_one (job : Job) (readable : Bool) (req : Split.SplitRequestFile)
    (node : String) (sent : List MessageFromPrimary) :
    processAndSendRequest job readable req [⟨node, sent⟩] =
      ((processAndSendRequest job readable req [⟨Standalone.localhost, []⟩]).map
        (List.flatMap Sender.sent)).map fun requests => [⟨node, sent ++ requests⟩] := by
  simp only [processAndSendRequest]
  split
  · rfl
  · rfl
  · simp [Outcome.map]
  · simp only [List.length_singleton]
    cases Split.splitRanges _ 1 with
    | none => rfl
    | some splits => cases splits <;> rfl

theorem sendRequestToSecondary_one (job : Job) (readable : Bool) (node : String)
    (sent : List MessageFromPrimary) :
    sendRequestToSecondary job readable [node] [⟨node, sent⟩] =
      (requestMessages job readable).map fun requests => [⟨node, sent ++ requests⟩] := by
  simp only [requestMessages, sendRequestToSecondary]
  split
  · exact processAndSendRequest_one job readable _ node sent
  · simp [sendToInstances, Outcome.map, Sender.send]

theorem requestMessages_iff :
    (∃ request, requestMessages job readable = .returned [.request request]) ↔
      (requireReset job.request = true → job.reads readable = true ∧ job.samples = true) := by
  cases hreset : requireReset job.request with
  | false =>
    refine iff_of_true ⟨job.request, ?_⟩ (by simp)
    rw [requestMessages, sendRequestToSecondary_other hreset]
    simp [sendToInstances, Outcome.map, Sender.send]
  | true =>
    obtain ⟨req, hreq, hsend⟩ := sendRequestToSecondary_split hreset readable
      [Standalone.localhost] [⟨Standalone.localhost, []⟩]
    rw [requestMessages, hsend]
    simp only [forall_const]
    constructor
    · rintro ⟨request, h⟩
      by_cases hreads : job.reads readable = true
      · cases hprocess : processAndSendRequest job readable req.clone
          [⟨Standalone.localhost, []⟩] with
        | returned senders => exact ⟨hreads, (samples_of_returned hreads hreq hprocess).1⟩
        | panicked | endless => simp [hprocess, Outcome.map] at h
      · simp [processAndSendRequest_unread (Bool.eq_false_iff.mpr hreads), Outcome.map] at h
    · rintro ⟨hreads, hsamples⟩
      obtain ⟨file, ranges, senders, hsplits, hsends, hprocess⟩ :=
        processAndSendRequest_sends hreads hreq hsamples (List.cons_ne_nil _ _)
      rw [sendSplits_one] at hsends
      obtain ⟨range, _, rfl⟩ := Option.map_eq_some_iff.mp hsends
      exact ⟨.splitRequestFile (file.cloneWithNewRange range), by rw [hprocess]; rfl⟩

theorem calculateReqPerSecondary_one {qps connectionCount : Nat} :
    calculateReqPerSecondary qps connectionCount 1 = some ([qps], [connectionCount]) := by
  simp [calculateReqPerSecondary, asU32, spread, Nat.mod_one]

/-- A job run to its end under quiet conditions, and each such run puts these messages on
the one channel. -/
structure Sends {α : Type} (step : Step State α) (quiet : α → Prop)
    (stream : List (UInt32 × UInt32)) (messages : List MessageFromPrimary) : Prop where
  ends : ∃ as s, (∀ a ∈ as, quiet a) ∧ run step (.new stream) as = some s ∧ s.phase = .done
  sent : ∀ as s, (∀ a ∈ as, quiet a) → run step (.new stream) as = some s → s.phase = .done →
    s.closed.map Sender.sent = [messages]

theorem sends_iff {α : Type} {step : Step State α} {quiet : α → Prop} {I : State → Prop}
    (hI : ∀ s, I s → OneChannel job readable host node stream s) (hnew : I (.new stream))
    (hstep : ∀ s a t, I s → quiet a → step s a = some t → I t)
    (hprogress : ∀ requests, requestMessages job readable = .returned requests →
      ∀ s, I s → s.phase = .done ∨ ∃ a t, quiet a ∧ step s a = some t ∧ I t ∧ t.rank < s.rank)
    (messages : List MessageFromPrimary) :
    Sends step quiet stream messages ↔
      ∃ requests, requestMessages job readable = .returned requests ∧
        messages = .metadata host :: requests ++ rateMessages stream ++ [.finished] := by
  have hreached : ∀ as s, (∀ a ∈ as, quiet a) → run step (.new stream) as = some s →
      s.phase = .done → ∃ requests, requestMessages job readable = .returned requests ∧
        s.closed.map Sender.sent =
          [.metadata host :: requests ++ rateMessages stream ++ [.finished]] := by
    intro as s has hrun hdone
    have halways : Always step (fun _ s => I s) (.new stream) as := by
      refine Meets.always (C := fun _ _ a => quiet a) hnew (fun _ s a t => hstep s a t) ?_
      rintro past a rest s rfl _
      exact has a (by simp)
    cases hI s (halways.last hrun) with
    | done hrequest => exact ⟨_, hrequest, rfl⟩
    | _ => cases hdone
  constructor
  · rintro ⟨⟨as, s, has, hrun, hdone⟩, hsent⟩
    obtain ⟨requests, hrequest, hmessages⟩ := hreached as s has hrun hdone
    rw [hsent as s has hrun hdone] at hmessages
    exact ⟨requests, hrequest, (List.cons.inj hmessages).1⟩
  · rintro ⟨requests, hrequest, rfl⟩
    refine ⟨exists_run_of_rank State.rank (hprogress requests hrequest) hnew, ?_⟩
    intro as s has hrun hdone
    obtain ⟨requests', hrequest', hmessages⟩ := hreached as s has hrun hdone
    cases hrequest.symm.trans hrequest'
    exact hmessages

/-- Nobody stops the job, the one secondary is discovered, connects and takes every message,
and the file answers alike. -/
def Quiet (readable : Bool) (node : String) : Action → Prop
  | .initSenders secondaries | .refresh secondaries => secondaries = some [⟨node, true⟩]
  | .tick stopped => stopped = false
  | .sendRates failing => node ∉ failing
  | .sendRequest answer => answer = readable
  | .exhausted | .finish | .rehash _ => True

theorem OneChannel.sendRequest (counter : Nat) :
    OneChannel job readable host node stream
      (State.sendRequest job ⟨.requesting [node] none, stream, counter,
        [⟨node, [.metadata host]⟩], false, []⟩ readable [node] none) := by
  simp only [State.sendRequest, sendRequestToSecondary_one]
  cases hrequest : requestMessages job readable with
  | returned requests =>
    have h : OneChannel job readable host node stream ⟨.running, stream, counter,
        [⟨node, .metadata host :: requests ++ rateMessages []⟩], false, []⟩ :=
      .running hrequest (List.nil_append stream)
    simpa [Outcome.map, rateMessages] using h
  | panicked => exact .panicked hrequest
  | endless => exact .endless hrequest

theorem State.sendRateMessage_one {rest : List (UInt32 × UInt32)} {counter : Nat}
    {sent : List MessageFromPrimary} {qps connectionCount : UInt32} {phase : Phase}
    {failing : List String} (hfailing : node ∉ failing) :
    State.sendRateMessage ⟨phase, rest, counter, [⟨node, sent⟩], false, []⟩ qps connectionCount
        failing =
      ⟨.running, rest, counter, [⟨node, sent ++ rateMessages [(qps, connectionCount)]⟩], false,
        []⟩ := by
  simp [State.sendRateMessage, calculateReqPerSecondary_one, Primary.sendRates, Sender.send,
    rateMessages, hfailing]

theorem OneChannel.sent {past rest : List (UInt32 × UInt32)} {qps connectionCount : UInt32}
    {counter : Nat} {requests : List MessageFromPrimary}
    (hrequest : requestMessages job readable = .returned requests)
    (hstream : past ++ (qps, connectionCount) :: rest = stream) :
    OneChannel job readable host node stream ⟨.running, rest, counter,
      [⟨node, .metadata host :: requests ++ rateMessages past ++
        rateMessages [(qps, connectionCount)]⟩], false, []⟩ := by
  rw [List.append_assoc, rateMessages, rateMessages, ← List.map_append]
  exact .running hrequest (by rw [List.append_assoc, List.singleton_append, hstream])

theorem OneChannel.exhausted {past : List (UInt32 × UInt32)} {counter : Nat}
    {requests : List MessageFromPrimary}
    (hrequest : requestMessages job readable = .returned requests)
    (hstream : past ++ [] = stream) :
    OneChannel job readable host node stream ⟨.leaving, [], counter,
      [⟨node, .metadata host :: requests ++ rateMessages past⟩], false, []⟩ := by
  obtain rfl : past = stream := by rw [← hstream, List.append_nil]
  exact .leaving hrequest

theorem OneChannel.finish {counter : Nat} {requests : List MessageFromPrimary}
    (hrequest : requestMessages job readable = .returned requests) :
    OneChannel job readable host node stream (State.finish ⟨.leaving, [], counter,
      [⟨node, .metadata host :: requests ++ rateMessages stream⟩], false, []⟩) :=
  .done hrequest

theorem OneChannel.rehash {senders : List Sender} (hs : OneChannel job readable host node stream s)
    (hperm : senders.Perm s.senders) :
    OneChannel job readable host node stream { s with senders } := by
  have hsenders : senders = s.senders ∨ ∃ rates, s.phase = .endless rates := by
    cases hs with
    | endless => exact .inr ⟨_, rfl⟩
    | submitted | done | panicked => exact .inl hperm.eq_nil
    | _ => exact .inl (List.perm_singleton.mp hperm)
  obtain rfl | ⟨rates, hphase⟩ := hsenders
  · exact hs
  · cases hs with
    | endless hrequest => exact .endless hrequest
    | _ => cases hphase

theorem oneChannel_step {a : Action}
    (hs : OneChannel job readable job.primaryHost node stream s) (ha : Quiet readable node a)
    (h : step job s a = some t) : OneChannel job readable job.primaryHost node stream t := by
  cases Steps.of_step h with
  | initSenders hphase =>
    cases hs with
    | submitted =>
      obtain rfl := ha
      simpa [State.initSenders, State.connect, createSendersForClusterNodes, createSender,
        sendToInstances, Sender.send] using OneChannel.requesting
    | _ => cases hphase
  | tick hphase hstream =>
    cases hs with
    | running hrequest hpast =>
      obtain rfl := ha
      obtain rfl := hstream
      simp only [State.tick, Bool.and_false, Bool.false_eq_true, if_false]
      split
      · exact .refreshing hrequest hpast
      · exact .sending hrequest hpast
    | _ => cases hphase
  | refresh hphase =>
    cases hs with
    | refreshing hrequest hpast =>
      obtain rfl := ha
      cases hphase
      simpa [State.refresh, State.connect, createSendersForClusterNodes, createSender,
        sendToInstances] using OneChannel.sending hrequest hpast
    | _ => cases hphase
  | sendRequest hphase =>
    cases hs with
    | requesting =>
      obtain rfl := ha
      cases hphase
      exact .sendRequest _
    | _ => cases hphase
  | sendRates hphase =>
    cases hs with
    | sending hrequest hpast =>
      cases hphase
      rw [State.sendRateMessage_one ha]
      exact .sent hrequest hpast
    | _ => cases hphase
  | exhausted hphase hstream =>
    cases hs with
    | running hrequest hpast =>
      obtain rfl := hstream
      exact .exhausted hrequest hpast
    | _ => cases hphase
  | finish hphase =>
    cases hs with
    | leaving hrequest => exact .finish hrequest
    | _ => cases hphase
  | rehash hperm => exact hs.rehash hperm

theorem oneChannel_progress {requests : List MessageFromPrimary}
    (hrequest : requestMessages job readable = .returned requests)
    (hs : OneChannel job readable job.primaryHost node stream s) :
    s.phase = .done ∨ ∃ a t, Quiet readable node a ∧ step job s a = some t ∧
      OneChannel job readable job.primaryHost node stream t ∧ t.rank < s.rank := by
  have hnext : s.phase = .done ∨ ∃ a t, Quiet readable node a ∧ a.isRehash = false ∧
      step job s a = some t := by
    cases hs with
    | submitted => exact .inr ⟨.initSenders (some [⟨node, true⟩]), _, rfl, rfl, rfl⟩
    | requesting => exact .inr ⟨.sendRequest readable, _, rfl, rfl, rfl⟩
    | @running _ rest =>
      cases rest with
      | nil => exact .inr ⟨.exhausted, _, trivial, rfl, rfl⟩
      | cons => exact .inr ⟨.tick false, _, rfl, rfl, rfl⟩
    | refreshing => exact .inr ⟨.refresh (some [⟨node, true⟩]), _, rfl, rfl, rfl⟩
    | sending => exact .inr ⟨.sendRates [], _, List.not_mem_nil, rfl, rfl⟩
    | leaving => exact .inr ⟨.finish, _, trivial, rfl, rfl⟩
    | done => exact .inl rfl
    | endless h => cases h.symm.trans hrequest
    | panicked h => cases h.symm.trans hrequest
  refine hnext.imp_right fun ⟨a, t, ha, hrehash, hstep⟩ => ⟨a, t, ha, hstep, ?_, ?_⟩
  · exact oneChannel_step hs ha hstep
  · have hrank := rank_step hstep
    simp only [List.countP_singleton, hrehash] at hrank
    exact hrank

theorem sends_iff_requestMessages (messages : List MessageFromPrimary) :
    Sends (step job) (Quiet readable node) stream messages ↔
      ∃ requests, requestMessages job readable = .returned requests ∧
        messages = .metadata job.primaryHost :: requests ++ rateMessages stream ++ [.finished] :=
  sends_iff (fun _ => id) .submitted (fun _ _ _ => oneChannel_step)
    (fun _ hrequest _ => oneChannel_progress hrequest) messages

end Overload.Primary

namespace Overload.Standalone

open Transition
open Primary (Job State MessageFromPrimary OneChannel Sends requestMessages)

variable {job : Job} {readable : Bool} {stream : List (UInt32 × UInt32)} {s t : State}

def Quiet (readable : Bool) : Action → Prop
  | .connect connects => connects = true
  | .sendRequest answer => answer = readable
  | .tick stopped => stopped = false
  | .sendRates | .exhausted | .finish => True

theorem oneChannel_step {a : Action}
    (hs : OneChannel job readable primaryHost localhost stream s) (ha : Quiet readable a)
    (h : step job s a = some t) : OneChannel job readable primaryHost localhost stream t := by
  cases Steps.of_step h with
  | connect hphase =>
    cases hs with
    | submitted =>
      obtain rfl := ha
      exact .requesting
    | _ => cases hphase
  | sendRequest hphase =>
    cases hs with
    | requesting =>
      obtain rfl := ha
      cases hphase
      exact .sendRequest _
    | _ => cases hphase
  | tick hphase hstream =>
    cases hs with
    | running hrequest hpast =>
      obtain rfl := ha
      obtain rfl := hstream
      simp only [State.tick, Bool.and_false, Bool.false_eq_true, if_false]
      exact .sending hrequest hpast
    | _ => cases hphase
  | sendRates hphase =>
    cases hs with
    | sending hrequest hpast =>
      cases hphase
      exact .sent hrequest hpast
    | _ => cases hphase
  | exhausted hphase hstream =>
    cases hs with
    | running hrequest hpast =>
      obtain rfl := hstream
      exact .exhausted hrequest hpast
    | _ => cases hphase
  | finish hphase =>
    cases hs with
    | leaving hrequest => exact .finish hrequest
    | _ => cases hphase

theorem rank_step {a : Action} (h : step job s a = some t) : t.rank < s.rank := by
  cases Steps.of_step h with
  | @connect connects hphase =>
    cases connects <;> simp [State.connect, State.panic, State.rank, hphase, Primary.Phase.rank]
  | sendRequest hphase =>
    refine Nat.lt_of_le_of_lt (Primary.rank_sendRequest ..) ?_
    simp [State.rank, hphase, Primary.Phase.rank]
  | tick hphase hstream =>
    simp only [State.tick, State.rank, hphase, hstream, List.length_cons]
    split <;> simp only [Primary.Phase.rank] <;> omega
  | sendRates hphase =>
    simp [State.sendRateMessageToExecutor, State.rank, hphase, Primary.Phase.rank]
  | exhausted hphase hstream => simp [State.rank, hphase, Primary.Phase.rank]
  | finish hphase => simp [State.finish, State.rank, hphase, Primary.Phase.rank]

theorem oneChannel_progress {requests : List MessageFromPrimary}
    (hrequest : requestMessages job readable = .returned requests)
    (hs : OneChannel job readable primaryHost localhost stream s)
    (hphase : ∀ qps connectionCount, s.phase ≠ .refreshing qps connectionCount) :
    s.phase = .done ∨ ∃ a t, Quiet readable a ∧ step job s a = some t ∧
      OneChannel job readable primaryHost localhost stream t ∧ t.rank < s.rank := by
  have hnext : s.phase = .done ∨ ∃ a t, Quiet readable a ∧ step job s a = some t := by
    cases hs with
    | submitted => exact .inr ⟨.connect true, _, rfl, rfl⟩
    | requesting => exact .inr ⟨.sendRequest readable, _, rfl, rfl⟩
    | @running _ rest =>
      cases rest with
      | nil => exact .inr ⟨.exhausted, _, trivial, rfl⟩
      | cons => exact .inr ⟨.tick false, _, rfl, rfl⟩
    | refreshing => exact absurd rfl (hphase _ _)
    | sending => exact .inr ⟨.sendRates, _, trivial, rfl⟩
    | leaving => exact .inr ⟨.finish, _, trivial, rfl⟩
    | done => exact .inl rfl
    | endless h => cases h.symm.trans hrequest
    | panicked h => cases h.symm.trans hrequest
  refine hnext.imp_right fun ⟨a, t, ha, hstep⟩ => ⟨a, t, ha, hstep, ?_, rank_step hstep⟩
  exact oneChannel_step hs ha hstep

theorem phase_ne_refreshing {a : Action} (h : step job s a = some t)
    (qps connectionCount : UInt32) : t.phase ≠ .refreshing qps connectionCount := by
  cases Steps.of_step h with
  | @connect connects hphase => cases connects <;> simp [State.connect, State.panic]
  | sendRequest hphase =>
    simp only [Primary.State.sendRequest]
    split
    · simp [State.panic]
    · simp
    · split <;> simp
  | tick hphase hstream =>
    simp only [State.tick]
    split <;> simp
  | sendRates hphase => simp [State.sendRateMessageToExecutor]
  | exhausted hphase hstream => simp
  | finish hphase => simp [State.finish]

theorem sends_iff_requestMessages (messages : List MessageFromPrimary) :
    Sends (step job) (Quiet readable) stream messages ↔
      ∃ requests, requestMessages job readable = .returned requests ∧
        messages =
          .metadata primaryHost :: requests ++ Primary.rateMessages stream ++ [.finished] := by
  refine Primary.sends_iff
    (I := fun s => OneChannel job readable primaryHost localhost stream s ∧
      ∀ qps connectionCount, s.phase ≠ .refreshing qps connectionCount)
    (fun s hs => hs.1) ⟨.submitted, fun _ _ => by simp [State.new]⟩ ?_ ?_ messages
  · intro s a t hs ha hstep
    exact ⟨oneChannel_step hs.1 ha hstep, phase_ne_refreshing hstep⟩
  · intro requests hrequest s hs
    refine (oneChannel_progress hrequest hs.1 hs.2).imp_right ?_
    rintro ⟨a, t, ha, hstep, ht, hrank⟩
    exact ⟨a, t, ha, hstep, ⟨ht, phase_ne_refreshing hstep⟩, hrank⟩

def listed (host : String) (request : Primary.RequestSpecEnum) (stream : List (UInt32 × UInt32)) :
    List MessageFromPrimary :=
  [.metadata host, .request request] ++ Primary.rateMessages stream ++ [.finished]

theorem requests_of_listed {host : String} {request : Primary.RequestSpecEnum}
    {requests : List MessageFromPrimary}
    (h : listed host request stream =
      .metadata host :: requests ++ Primary.rateMessages stream ++ [.finished]) :
    requests = [.request request] := by
  have hfront := List.append_cancel_right (List.append_cancel_right h)
  exact (List.cons.inj hfront).2.symm

/-- The two drivers send the same up to the host.  It is the metadata, the request, all rates
and the end, unless the request is for a split file that is not there, is empty, has no row in the
submitted range or a first one there that cannot be converted: then the request is left out, or
the job does not end. -/
theorem standalone_equals_one_node (job : Job) (readable : Bool) (node : String)
    (stream : List (UInt32 × UInt32)) :
    (∀ messages,
      Sends (Primary.step job) (Primary.Quiet readable node) stream
          (.metadata job.primaryHost :: messages) ↔
        Sends (step job) (Quiet readable) stream (.metadata primaryHost :: messages)) ∧
      ((∃ request,
          Sends (Primary.step job) (Primary.Quiet readable node) stream
              (listed job.primaryHost request stream) ∧
            Sends (step job) (Quiet readable) stream (listed primaryHost request stream)) ↔
        (Primary.requireReset job.request = true →
          job.reads readable = true ∧ job.samples = true)) := by
  constructor
  · intro messages
    simp only [Primary.sends_iff_requestMessages, sends_iff_requestMessages, List.cons_append,
      List.cons.injEq, true_and]
  · rw [← Primary.requestMessages_iff]
    simp only [Primary.sends_iff_requestMessages, sends_iff_requestMessages]
    constructor
    · rintro ⟨request, ⟨requests, hrequest, heq⟩, _⟩
      exact ⟨request, by rw [hrequest, requests_of_listed heq]⟩
    · rintro ⟨request, hrequest⟩
      exact ⟨request, ⟨_, hrequest, rfl⟩, ⟨_, hrequest, rfl⟩⟩

theorem unreadable_split_file_sends_no_request :
    Sends (Primary.step Primary.splitJob) (Primary.Quiet false "a") [(1, 1)]
        [.metadata "primary", .rates ⟨1, 1⟩, .finished] ∧
      Sends (step Primary.splitJob) (Quiet false) [(1, 1)]
        [.metadata primaryHost, .rates ⟨1, 1⟩, .finished] ∧
      ¬ ∃ request, Sends (step Primary.splitJob) (Quiet false) [(1, 1)]
        (listed primaryHost request [(1, 1)]) := by
  have hrequest : requestMessages Primary.splitJob false = .returned [] := by decide
  refine ⟨(Primary.sends_iff_requestMessages _).mpr ⟨[], hrequest, rfl⟩,
    (sends_iff_requestMessages _).mpr ⟨[], hrequest, rfl⟩, ?_⟩
  rintro ⟨request, h⟩
  obtain ⟨requests, hrequest', heq⟩ := (sends_iff_requestMessages _).mp h
  cases hrequest.symm.trans hrequest'
  cases requests_of_listed heq

end Overload.Standalone
