import Overload.Cycle.Batch

namespace Overload.RequestFuture

open Transition
open Assertion (Uri)
open Batch (Context doSimpleAssertion upstreamResponseTime)
open Request (Externals HttpReq)

inductive HttpRequestState
  | init
  | inProgress
  | responseReceived
  deriving DecidableEq, Repr

structure StatusCode where
  code : Nat
  deriving DecidableEq, Repr

def StatusCode.asStr (status : StatusCode) : String := toString status.code

inductive OriginalRequest
  | request (req : HttpReq)
  | placeHolder

/-- `request`, `body` and `luaAssert` are polls of the futures that are awaited, with what
they answer; `timer` is a reading of the timer. -/
inductive Event
  | requestCount
  | responseTime (status : String) (elapsed : Nat)
  | statusCount (status : String)
  | simpleAssertion
  | timer (read : Option Nat)
  | request (result : Option (Except String StatusCode))
  | body (result : Option (Except String (List UInt8)))
  | luaAssert (ready : Bool)

structure HttpRequestFuture where
  state : HttpRequestState
  timer : Option Nat
  body : Bool
  status : Option StatusCode
  originalRequest : OriginalRequest
  luaAssertFuture : Bool
  log : List Event

structure Answers where
  now : Nat
  request : Option (Except String StatusCode)
  body : Option (Except String (List UInt8))
  luaAssert : Bool

inductive Poll
  | pending
  | ready
  | panicked
  deriving DecidableEq, Repr

def HttpRequestFuture.new (req : HttpReq) : HttpRequestFuture where
  state := .init
  timer := none
  body := false
  status := none
  originalRequest := .request req
  luaAssertFuture := false
  log := []

section Model

variable {x : Externals} (ctx : Context x) (requestUri : Uri)

namespace HttpRequestFuture

def record (f : HttpRequestFuture) (event : Event) : HttpRequestFuture :=
  { f with log := f.log ++ [event] }

def begin (f : HttpRequestFuture) (now : Nat) : HttpRequestFuture :=
  match f.state with
  | .init => { f.record .requestCount with timer := some now, state := .inProgress }
  | _ => f

def pollLuaAssert (f : HttpRequestFuture) (answers : Answers) : HttpRequestFuture × Poll :=
  (f.record (.luaAssert answers.luaAssert), if answers.luaAssert then .ready else .pending)

def doLuaAssertion (f : HttpRequestFuture) (body : List UInt8) (answers : Answers) :
    HttpRequestFuture × Poll :=
  if ctx.luaExecutorSender then
    let replaced := { f with originalRequest := .placeHolder }
    match ctx.client.fromUtf8 body, f.originalRequest with
    -- the new future is polled in the same call
    | some _, .request _ =>
      { replaced with luaAssertFuture := true, body := false }.pollLuaAssert answers
    | _, _ => (replaced, .ready)
  else (f, .ready)

def bodyReady (f : HttpRequestFuture) (body : List UInt8) (answers : Answers) :
    HttpRequestFuture × Poll :=
  if ctx.assertion.simpleAssertions.isSome then
    let f := f.record .simpleAssertion
    match doSimpleAssertion ctx requestUri body with
    | some () => f.doLuaAssertion ctx body answers
    | none => (f, .panicked)
  else f.doLuaAssertion ctx body answers

def pollBody (f : HttpRequestFuture) (answers : Answers) : HttpRequestFuture × Poll :=
  let f := f.record (.body answers.body)
  match answers.body with
  | none => (f, .pending)
  | some result =>
    let f := f.record (.timer f.timer)
    match f.timer, result with
    | none, _ => (f, .panicked)
    | some _, .ok body => f.bodyReady ctx requestUri body answers
    | some _, .error _ => (f, .ready)

def pollRequest (f : HttpRequestFuture) (answers : Answers) : HttpRequestFuture × Poll :=
  let f := f.record (.request answers.request)
  match answers.request with
  | none => (f, .pending)
  | some (.error e) => ({ f with state := .responseReceived }.record (.statusCount e), .ready)
  | some (.ok status) =>
    let f := { f with state := .responseReceived, status := some status }
    let f := f.record (.timer f.timer)
    match f.timer with
    | none => (f, .panicked)
    | some started =>
      match upstreamResponseTime ctx with
      | none => (f, .panicked)
      | some () =>
        let f := f.record (.responseTime status.asStr (answers.now - started))
        let f := f.record (.statusCount status.asStr)
        ({ f with body := true }, .pending)

def poll (f : HttpRequestFuture) (answers : Answers) : HttpRequestFuture × Poll :=
  let f := f.begin answers.now
  if f.luaAssertFuture then f.pollLuaAssert answers
  else if f.body then f.pollBody ctx requestUri answers
  else if f.state = .responseReceived then (f, .ready)
  else f.pollRequest ctx answers

end HttpRequestFuture

def step (s : HttpRequestFuture × Poll) (answers : Answers) : Option (HttpRequestFuture × Poll) :=
  match s.2 with
  | .pending => some (s.1.poll ctx requestUri answers)
  | _ => none

end Model

inductive Awaited
  | request
  | body
  | luaAssert
  deriving DecidableEq, Repr

namespace Event

def isRequestCount : Event → Bool
  | .requestCount => true
  | _ => false

def isStatusCount : Event → Bool
  | .statusCount _ => true
  | _ => false

def isResponseTime : Event → Bool
  | .responseTime _ _ => true
  | _ => false

def isSimpleAssertion : Event → Bool
  | .simpleAssertion => true
  | _ => false

def polls : Event → Option Awaited
  | .request _ => some .request
  | .body _ => some .body
  | .luaAssert _ => some .luaAssert
  | _ => none

def ready : Event → Option Awaited
  | .request (some _) => some .request
  | .body (some _) => some .body
  | .luaAssert true => some .luaAssert
  | _ => none

end Event

/-- No future is polled after it was ready, and a timer that is read is set. -/
structure Orderly (log : List Event) : Prop where
  polls : log.Pairwise fun earlier later => ∀ k, earlier.ready = some k → later.polls ≠ some k
  timers : .timer none ∉ log

structure Tally (log : List Event) (requests statuses times assertions : Nat) : Prop where
  requestCount : log.countP Event.isRequestCount = requests
  statusCount : log.countP Event.isStatusCount = statuses
  responseTime : log.countP Event.isResponseTime = times
  simpleAssertion : log.countP Event.isSimpleAssertion = assertions

def Arrived (log : List Event) : Prop := ∃ status, Event.request (some (.ok status)) ∈ log

def Unanswered (k : Awaited) (log : List Event) : Prop := ∀ e ∈ log, e.ready ≠ some k

structure Once (log : List Event) : Prop where
  requestCount : log.countP Event.isRequestCount = 1
  simpleAssertion : log.countP Event.isSimpleAssertion ≤ 1
  orderly : Orderly log

structure Completed (log : List Event) : Prop where
  statusCount : log.countP Event.isStatusCount = 1
  responseTime : Arrived log ∧ log.countP Event.isResponseTime = 1 ∨
    ¬ Arrived log ∧ log.countP Event.isResponseTime = 0

section Log

variable {log : List Event} {event : Event} {requests statuses times assertions : Nat}
  {k : Awaited}

theorem Orderly.concat (h : Orderly log) (hpolls : ∀ k, event.polls = some k → Unanswered k log)
    (htimer : event ≠ .timer none) : Orderly (log ++ [event]) := by
  refine ⟨List.pairwise_append.mpr ⟨h.polls, List.pairwise_singleton _ _, ?_⟩, ?_⟩
  · intro earlier hearlier later hlater k hready hlaterPolls
    obtain rfl := List.mem_singleton.mp hlater
    exact hpolls k hlaterPolls earlier hearlier hready
  · intro hread
    rcases List.mem_append.mp hread with hread | hread
    · exact h.timers hread
    · exact htimer (List.mem_singleton.mp hread).symm

theorem Tally.concat (h : Tally log requests statuses times assertions) (event : Event) :
    Tally (log ++ [event]) (requests + event.isRequestCount.toNat)
      (statuses + event.isStatusCount.toNat) (times + event.isResponseTime.toNat)
      (assertions + event.isSimpleAssertion.toNat) := by
  obtain ⟨h1, h2, h3, h4⟩ := h
  have hone : ∀ p : Event → Bool, [event].countP p = (p event).toNat := by
    intro p
    cases hp : p event <;> simp [hp]
  constructor <;> simp only [List.countP_append, hone, h1, h2, h3, h4]

theorem Unanswered.concat (h : Unanswered k log) (hevent : event.ready ≠ some k) :
    Unanswered k (log ++ [event]) := by
  intro e he
  rcases List.mem_append.mp he with he | he
  · exact h e he
  · exact List.mem_singleton.mp he ▸ hevent

theorem Arrived.concat (h : Arrived log) (event : Event) : Arrived (log ++ [event]) := by
  obtain ⟨status, hstatus⟩ := h
  exact ⟨status, List.mem_append_left _ hstatus⟩

end Log

structure Requested (log : List Event) : Prop where
  orderly : Orderly log
  tally : Tally log 1 0 0 0
  unanswered : ∀ k, Unanswered k log

structure Received (awaited : List Awaited) (assertions : Nat) (log : List Event) : Prop where
  orderly : Orderly log
  tally : Tally log 1 1 1 assertions
  arrived : Arrived log
  unanswered : ∀ k ∈ awaited, Unanswered k log

structure Unasserted (f : HttpRequestFuture) : Prop where
  timer : f.timer.isSome
  luaAssertFuture : f.luaAssertFuture = false
  originalRequest : ∃ req, f.originalRequest = .request req

inductive Phase (f : HttpRequestFuture) : Prop
  | request : f.state = .inProgress → Unasserted f → f.body = false → Orderly f.log →
    Tally f.log 1 0 0 0 → (∀ k, Unanswered k f.log) → Phase f
  | body : f.state = .responseReceived → Unasserted f → f.body = true →
    Received [.body, .luaAssert] 0 f.log → Phase f
  | luaAssert {assertions : Nat} : f.state = .responseReceived → f.luaAssertFuture = true →
    assertions ≤ 1 → Received [.luaAssert] assertions f.log → Phase f

def Good (s : HttpRequestFuture × Poll) : Prop :=
  match s.2 with
  | .pending => Phase s.1
  | .ready => Once s.1.log ∧ Completed s.1.log
  | .panicked => Once s.1.log

theorem Received.once {awaited : List Awaited} {assertions : Nat} {log : List Event}
    (h : Received awaited assertions log) (hassertions : assertions ≤ 1) :
    Once log ∧ Completed log :=
  ⟨⟨h.tally.requestCount, h.tally.simpleAssertion.trans_le hassertions, h.orderly⟩,
    h.tally.statusCount, .inl ⟨h.arrived, h.tally.responseTime⟩⟩

theorem Phase.once {f : HttpRequestFuture} (h : Phase f) : Once f.log := by
  cases h with
  | request _ _ _ horderly htally _ =>
    exact ⟨htally.requestCount, htally.simpleAssertion.trans_le (Nat.zero_le 1), horderly⟩
  | body _ _ _ hreceived => exact (hreceived.once (Nat.zero_le 1)).1
  | luaAssert _ _ hassertions hreceived => exact (hreceived.once hassertions).1

theorem Received.concat {awaited awaited' : List Awaited} {assertions : Nat} {log : List Event}
    (h : Received awaited assertions log) (event : Event) (htimer : event ≠ .timer none)
    (hpolls : ∀ k, event.polls = some k → k ∈ awaited)
    (hcounts : event.isRequestCount = false ∧ event.isStatusCount = false ∧
      event.isResponseTime = false)
    (hawaited : ∀ k ∈ awaited', k ∈ awaited ∧ event.ready ≠ some k) :
    Received awaited' (assertions + event.isSimpleAssertion.toNat) (log ++ [event]) := by
  refine ⟨h.orderly.concat (fun k hk => h.unanswered k (hpolls k hk)) htimer, ?_,
    h.arrived.concat event, ?_⟩
  · have htally := h.tally.concat event
    rw [hcounts.1, hcounts.2.1, hcounts.2.2] at htally
    exact htally
  · intro k hk
    exact (h.unanswered k (hawaited k hk).1).concat (hawaited k hk).2

namespace Requested

variable {log : List Event}

theorem polled (h : Requested log) (result : Option (Except String StatusCode)) :
    Orderly (log ++ [.request result]) ∧ Tally (log ++ [.request result]) 1 0 0 0 :=
  ⟨h.orderly.concat (fun k _ => h.unanswered k) (by simp), h.tally.concat (.request result)⟩

theorem pending (h : Requested log) : Requested (log ++ [.request none]) where
  orderly := (h.polled none).1
  tally := (h.polled none).2
  unanswered k := (h.unanswered k).concat (by simp [Event.ready])

theorem failed (h : Requested log) (e : String) :
    Once (log ++ [.request (some (.error e))] ++ [.statusCount e]) ∧
      Completed (log ++ [.request (some (.error e))] ++ [.statusCount e]) := by
  obtain ⟨horderly, htally⟩ := h.polled (some (.error e))
  have horderly' : Orderly (log ++ [.request (some (.error e))] ++ [.statusCount e]) :=
    horderly.concat (fun k hk => by cases hk) (by simp)
  have htally' := htally.concat (.statusCount e)
  have hnot : ¬ Arrived (log ++ [.request (some (.error e))] ++ [.statusCount e]) := by
    rintro ⟨status, hstatus⟩
    simp only [List.mem_append, List.mem_singleton, Event.request.injEq, Option.some.injEq,
      reduceCtorEq, or_false] at hstatus
    exact h.unanswered .request _ hstatus rfl
  exact ⟨⟨htally'.requestCount, htally'.simpleAssertion.trans_le (Nat.zero_le 1), horderly'⟩,
    htally'.statusCount, .inr ⟨hnot, htally'.responseTime⟩⟩

theorem unobserved (h : Requested log) (status : StatusCode) (started : Nat) :
    Once (log ++ [.request (some (.ok status))] ++ [.timer (some started)]) := by
  obtain ⟨horderly, htally⟩ := h.polled (some (.ok status))
  have htally' := htally.concat (.timer (some started))
  exact ⟨htally'.requestCount, htally'.simpleAssertion.trans_le (Nat.zero_le 1),
    horderly.concat (fun k hk => by cases hk) (by simp)⟩

theorem received (h : Requested log) (status : StatusCode) (started elapsed : Nat) :
    Received [.body, .luaAssert] 0
      (log ++ [.request (some (.ok status))] ++ [.timer (some started)] ++
        [.responseTime status.asStr elapsed] ++ [.statusCount status.asStr]) := by
  obtain ⟨horderly, htally⟩ := h.polled (some (.ok status))
  refine ⟨?_, ?_, ⟨status, by simp⟩, fun k hk => ?_⟩
  · refine ((horderly.concat ?_ ?_).concat ?_ ?_).concat ?_ ?_ <;> simp [Event.polls]
  · exact ((htally.concat (.timer _)).concat (.responseTime _ _)).concat (.statusCount _)
  · refine ((((h.unanswered k).concat ?_).concat ?_).concat ?_).concat ?_
    · rintro ⟨⟩
      simp at hk
    all_goals simp [Event.ready]

end Requested

section Polls

variable {x : Externals} {ctx : Context x} {requestUri : Uri} {f : HttpRequestFuture}
  {answers : Answers} {assertions : Nat}

theorem poll_request (hstate : f.state = .inProgress) (hf : Unasserted f) (hbody : f.body = false) :
    f.poll ctx requestUri answers = f.pollRequest ctx answers := by
  simp [HttpRequestFuture.poll, HttpRequestFuture.begin, hstate, hf.luaAssertFuture, hbody]

theorem poll_body (hstate : f.state = .responseReceived) (hf : Unasserted f)
    (hbody : f.body = true) :
    f.poll ctx requestUri answers = f.pollBody ctx requestUri answers := by
  simp [HttpRequestFuture.poll, HttpRequestFuture.begin, hstate, hf.luaAssertFuture, hbody]

theorem poll_luaAssert (hstate : f.state = .responseReceived) (hlua : f.luaAssertFuture = true) :
    f.poll ctx requestUri answers = f.pollLuaAssert answers := by
  simp [HttpRequestFuture.poll, HttpRequestFuture.begin, hstate, hlua]

theorem good_pollLuaAssert (h : Received [.luaAssert] assertions f.log)
    (hassertions : assertions ≤ 1) (hstate : f.state = .responseReceived)
    (hlua : f.luaAssertFuture = true) :
    Good (f.pollLuaAssert answers) := by
  have hnext : ∀ awaited', (∀ k ∈ awaited', k = .luaAssert ∧ answers.luaAssert = false) →
      Received awaited' assertions (f.log ++ [.luaAssert answers.luaAssert]) := by
    intro awaited' hawaited
    refine h.concat (.luaAssert answers.luaAssert) (by simp) (fun k hk => ?_) ⟨rfl, rfl, rfl⟩
      fun k hk => ?_
    · cases hk
      exact List.mem_singleton_self _
    · obtain ⟨rfl, hpending⟩ := hawaited k hk
      rw [hpending]
      exact ⟨List.mem_singleton_self _, by simp [Event.ready]⟩
  unfold HttpRequestFuture.pollLuaAssert
  cases hready : answers.luaAssert with
  | true =>
    rw [hready] at hnext
    exact (hnext [] (by simp)).once hassertions
  | false =>
    rw [hready] at hnext
    exact .luaAssert hstate hlua hassertions (hnext [.luaAssert] (by simp))

theorem good_doLuaAssertion (h : Received [.luaAssert] assertions f.log)
    (hassertions : assertions ≤ 1) (hstate : f.state = .responseReceived) (body : List UInt8) :
    Good (f.doLuaAssertion ctx body answers) := by
  unfold HttpRequestFuture.doLuaAssertion
  split
  · dsimp only
    split
    · exact good_pollLuaAssert h hassertions hstate rfl
    · exact h.once hassertions
  · exact h.once hassertions

theorem good_bodyReady (h : Received [.luaAssert] 0 f.log) (hstate : f.state = .responseReceived)
    (body : List UInt8) :
    Good (f.bodyReady ctx requestUri body answers) := by
  unfold HttpRequestFuture.bodyReady
  have hasserted : Received [.luaAssert] 1 (f.record .simpleAssertion).log :=
    h.concat .simpleAssertion (by simp) (fun k hk => by cases hk) ⟨rfl, rfl, rfl⟩
      fun k hk => ⟨hk, by simp [Event.ready]⟩
  split
  · dsimp only
    split
    · exact good_doLuaAssertion hasserted (Nat.le_refl 1) hstate body
    · exact (hasserted.once (Nat.le_refl 1)).1
  · exact good_doLuaAssertion h (Nat.zero_le 1) hstate body

theorem good_pollBody (hstate : f.state = .responseReceived) (hf : Unasserted f)
    (hbody : f.body = true) (h : Received [.body, .luaAssert] 0 f.log) :
    Good (f.pollBody ctx requestUri answers) := by
  have hpolls : ∀ k, (Event.body answers.body).polls = some k → k ∈ [.body, .luaAssert] := by
    rintro _ ⟨⟩
    exact List.mem_cons_self
  unfold HttpRequestFuture.pollBody
  dsimp only
  split
  · rename_i hpending
    refine .body hstate ⟨hf.timer, hf.luaAssertFuture, hf.originalRequest⟩ hbody ?_
    refine h.concat (.body answers.body) (by simp) hpolls ⟨rfl, rfl, rfl⟩ fun k hk => ⟨hk, ?_⟩
    rw [hpending]
    simp [Event.ready]
  · rename_i result hready
    obtain ⟨started, hstarted⟩ := Option.isSome_iff_exists.mp hf.timer
    have hread : Received [.luaAssert] 0 (f.record (.body answers.body)).log := by
      refine h.concat (.body answers.body) (by simp) hpolls ⟨rfl, rfl, rfl⟩ fun k hk => ?_
      rw [List.mem_singleton.mp hk, hready]
      exact ⟨by simp, by simp [Event.ready]⟩
    have hnext : Received [.luaAssert] 0
        ((f.record (.body answers.body)).record (.timer f.timer)).log :=
      hread.concat (.timer f.timer) (by simp [hstarted]) (fun k hk => by cases hk)
        ⟨rfl, rfl, rfl⟩ fun k hk => ⟨hk, by simp [Event.ready]⟩
    split
    · rename_i hnone
      exact absurd (hnone.symm.trans hstarted) (by simp)
    · exact good_bodyReady hnext hstate _
    · exact hnext.once (Nat.zero_le 1)

theorem good_pollRequest (hstate : f.state = .inProgress) (hf : Unasserted f)
    (hbody : f.body = false) (h : Requested f.log) : Good (f.pollRequest ctx answers) := by
  unfold HttpRequestFuture.pollRequest
  cases hrequest : answers.request with
  | none =>
    exact .request hstate ⟨hf.timer, hf.luaAssertFuture, hf.originalRequest⟩ hbody
      h.pending.orderly h.pending.tally h.pending.unanswered
  | some result =>
    cases result with
    | error e => exact h.failed e
    | ok status =>
      obtain ⟨started, hstarted⟩ := Option.isSome_iff_exists.mp hf.timer
      simp only [HttpRequestFuture.record, hstarted]
      cases upstreamResponseTime ctx with
      | none => exact h.unobserved status _
      | some _ =>
        exact .body rfl ⟨rfl, hf.luaAssertFuture, hf.originalRequest⟩ rfl (h.received status _ _)

theorem good_poll (h : Phase f) : Good (f.poll ctx requestUri answers) := by
  cases h with
  | request hstate hf hbody horderly htally hnone =>
    rw [poll_request hstate hf hbody]
    exact good_pollRequest hstate hf hbody ⟨horderly, htally, hnone⟩
  | body hstate hf hbody hreceived =>
    rw [poll_body hstate hf hbody]
    exact good_pollBody hstate hf hbody hreceived
  | luaAssert hstate hlua hassertions hreceived =>
    rw [poll_luaAssert hstate hlua]
    exact good_pollLuaAssert hreceived hassertions hstate hlua

theorem phase_begin (req : HttpReq) (now : Nat) :
    Phase ((HttpRequestFuture.new req).begin now) := by
  have horderly : Orderly [.requestCount] := ⟨List.pairwise_singleton _ _, by simp⟩
  refine .request rfl ⟨rfl, rfl, req, rfl⟩ rfl horderly ⟨rfl, rfl, rfl, rfl⟩ ?_
  intro k e he
  rw [List.mem_singleton.mp he]
  simp [Event.ready]

theorem poll_begin (f : HttpRequestFuture) :
    (f.begin answers.now).poll ctx requestUri answers = f.poll ctx requestUri answers := by
  have hbegin : (f.begin answers.now).begin answers.now = f.begin answers.now := by
    cases hstate : f.state <;> simp [HttpRequestFuture.begin, hstate]
  simp only [HttpRequestFuture.poll, hbegin]

theorem good_step {s t : HttpRequestFuture × Poll} (hs : Good s)
    (h : step ctx requestUri s answers = some t) : Good t := by
  unfold step at h
  split at h
  · rename_i hpending
    cases h
    rw [Good, hpending] at hs
    exact good_poll hs
  · cases h

/-- From its first poll to its first `Ready`, whatever the awaited futures answer: a request
is counted once, its assertions are evaluated at most once, nothing is polled after it was
ready, and the timer is set when it is read.  When it is ready its status has been counted
once, and its time has been observed once if there was a response, and not otherwise. -/
theorem run_once (ctx : Context x) (requestUri : Uri) (req : HttpReq) {polls : List Answers}
    {s : HttpRequestFuture × Poll}
    (hrun : run (step ctx requestUri) (.new req, .pending) polls = some s) (hpolls : polls ≠ []) :
    Once s.1.log ∧ (s.2 = .ready → Completed s.1.log) := by
  obtain ⟨answers, rest, rfl⟩ := List.exists_cons_of_ne_nil hpolls
  obtain ⟨t, ht, hrest⟩ := run_cons_eq_some.mp hrun
  have hfirst : Good t := by
    cases ht
    rw [← poll_begin]
    exact good_poll (phase_begin req answers.now)
  have hgood : Good s := run_invariant (fun _ _ _ hs h => good_step hs h) hfirst hrest
  rw [Good] at hgood
  split at hgood
  · rename_i hpending
    exact ⟨hgood.once, fun hready => by cases hpending.symm.trans hready⟩
  · exact ⟨hgood.1, fun _ => hgood.2⟩
  · rename_i hpanicked
    exact ⟨hgood, fun hready => by cases hpanicked.symm.trans hready⟩

def HttpRequestFuture.awaits (requestUri : Uri) (f : HttpRequestFuture) : Batch.HttpRequestState :=
  if f.luaAssertFuture then .luaAssert else if f.body then .body requestUri
  else .inProgress requestUri

def Answers.forBatch (answers : Answers) : Batch.Answers where
  request := answers.request.map (Except.map fun _ => ())
  body := answers.body
  luaAssert := answers.luaAssert

def polled (requestUri : Uri) (s : HttpRequestFuture × Poll) : Batch.Polled :=
  match s.2 with
  | .pending => .pending (s.1.awaits requestUri)
  | .ready => .ready
  | .panicked => .panic

theorem polled_pollLuaAssert (hlua : f.luaAssertFuture = true) :
    polled requestUri (f.pollLuaAssert answers) = Batch.pollLuaAssert answers.forBatch := by
  unfold HttpRequestFuture.pollLuaAssert Batch.pollLuaAssert Answers.forBatch
  cases answers.luaAssert with
  | true => rfl
  | false => simp [polled, HttpRequestFuture.awaits, HttpRequestFuture.record, hlua]

theorem polled_doLuaAssertion (horiginal : ∃ req, f.originalRequest = .request req)
    (body : List UInt8) :
    polled requestUri (f.doLuaAssertion ctx body answers) =
      Batch.bodyAsserted ctx body answers.forBatch := by
  obtain ⟨req, hreq⟩ := horiginal
  unfold HttpRequestFuture.doLuaAssertion Batch.bodyAsserted
  cases ctx.luaExecutorSender with
  | false => rfl
  | true =>
    cases ctx.client.fromUtf8 body with
    | none => rfl
    | some text =>
      simp only [if_true, hreq, Option.isSome_some, Bool.and_self]
      exact polled_pollLuaAssert rfl

theorem polled_bodyReady (horiginal : ∃ req, f.originalRequest = .request req)
    (body : List UInt8) :
    polled requestUri (f.bodyReady ctx requestUri body answers) =
      if ctx.assertion.simpleAssertions.isSome then
        match doSimpleAssertion ctx requestUri body with
        | some () => Batch.bodyAsserted ctx body answers.forBatch
        | none => .panic
      else Batch.bodyAsserted ctx body answers.forBatch := by
  unfold HttpRequestFuture.bodyReady
  split
  · dsimp only
    split
    · exact polled_doLuaAssertion (by exact horiginal) body
    · rfl
  · exact polled_doLuaAssertion horiginal body

theorem polled_poll (h : Phase f) :
    polled requestUri (f.poll ctx requestUri answers) =
      (f.awaits requestUri).poll ctx answers.forBatch := by
  cases h with
  | request hstate hf hbody _ _ _ =>
    have hawaits : f.awaits requestUri = .inProgress requestUri := by
      simp [HttpRequestFuture.awaits, hf.luaAssertFuture, hbody]
    obtain ⟨started, hstarted⟩ := Option.isSome_iff_exists.mp hf.timer
    rw [poll_request hstate hf hbody, hawaits]
    change _ = Batch.pollRequest ctx requestUri answers.forBatch
    unfold HttpRequestFuture.pollRequest Batch.pollRequest Answers.forBatch
    cases answers.request with
    | none => simp [polled, HttpRequestFuture.awaits, HttpRequestFuture.record,
        hf.luaAssertFuture, hbody]
    | some result =>
      cases result with
      | error e => rfl
      | ok status =>
        cases upstreamResponseTime ctx with
        | none => simp [polled, HttpRequestFuture.record, hstarted, Except.map]
        | some _ => simp [polled, HttpRequestFuture.awaits, HttpRequestFuture.record,
            hf.luaAssertFuture, hstarted, Except.map]
  | body hstate hf hbody _ =>
    have hawaits : f.awaits requestUri = .body requestUri := by
      simp [HttpRequestFuture.awaits, hf.luaAssertFuture, hbody]
    obtain ⟨started, hstarted⟩ := Option.isSome_iff_exists.mp hf.timer
    rw [poll_body hstate hf hbody, hawaits]
    change _ = Batch.pollBody ctx requestUri answers.forBatch
    unfold HttpRequestFuture.pollBody Batch.pollBody
    have hbody' : answers.forBatch.body = answers.body := rfl
    rw [hbody']
    cases answers.body with
    | none => simp [polled, HttpRequestFuture.awaits, HttpRequestFuture.record,
        hf.luaAssertFuture, hbody]
    | some result =>
      cases result with
      | error e => simp [polled, HttpRequestFuture.record, hstarted]
      | ok body =>
        simp only [HttpRequestFuture.record, hstarted]
        exact polled_bodyReady (by exact hf.originalRequest) body
  | luaAssert hstate hlua _ _ =>
    rw [poll_luaAssert hstate hlua, polled_pollLuaAssert hlua, HttpRequestFuture.awaits,
      if_pos hlua]
    rfl

end Polls

def bodyAfterResponse : List Answers :=
  [⟨5, none, none, false⟩, ⟨8, some (.ok ⟨200⟩), none, false⟩, ⟨9, none, some (.ok []), false⟩]

theorem run_once_bodyAfterResponse :
    ∃ s, run (step (Batch.plainContext []) ⟨['/'], none⟩) (.new (Batch.get "/"), .pending)
        bodyAfterResponse = some s ∧ s.2 = .ready ∧ Once s.1.log ∧ Completed s.1.log := by
  have hrun : run (step (Batch.plainContext []) ⟨['/'], none⟩) (.new (Batch.get "/"), .pending)
      bodyAfterResponse = some (_, .ready) := rfl
  have hpolls : bodyAfterResponse ≠ [] := by decide
  obtain ⟨honce, hcompleted⟩ := run_once _ _ _ hrun hpolls
  exact ⟨_, hrun, rfl, honce, hcompleted rfl⟩

end Overload.RequestFuture
