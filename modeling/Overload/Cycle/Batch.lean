import Overload.Assertion.SimpleAssert
import Overload.Cycle.Padding

/-! The task that sends a batch of requests, one on each connection (`secondary.rs`, with
`HttpRequestFuture` of `lib.rs`).  Its futures are polled in any order, and what they await
may answer in any way.  A panic of one of them ends the task, and what the others hold goes
with it. -/

namespace Overload.Batch

open Transition
open Assertion (Library Uri plainLibrary simpleAssert simpleAssert_isSome)
open Overload.Cycle (assign assign_eq twoConnections)
open Json (Value)
open Pool (HttpConnection)
open Request (Externals HttpReq Method isMethod_get)
open Transport (ResponseAssertion plainExternals)

/-- What other crates do.  `insert` is `none` where it panics, on a map that is full. -/
structure Client where
  HeaderMap : Type
  empty : HeaderMap
  insert : HeaderMap → String → String → Option HeaderMap
  headerName : String → Option String
  headerValue : String → Option String
  uri : String → Option Uri
  fromUtf8 : List UInt8 → Option String
  fromSlice : List UInt8 → Except String Value
  fromSlice_null : ∃ body, fromSlice body = .ok .null

structure Context (x : Externals) where
  client : Client
  lib : Library x
  assertion : ResponseAssertion x
  luaExecutorSender : Bool
  histogramBuckets : List x.F64
  ge : x.F64 → x.F64 → Bool

structure HttpRequest (client : Client) where
  uri : Uri
  method : Method
  headers : client.HeaderMap
  body : Option String

inductive HttpRequestState
  | inProgress (requestUri : Uri)
  | body (requestUri : Uri)
  | luaAssert

structure Answers where
  request : Option (Except String Unit)
  body : Option (Except String (List UInt8))
  luaAssert : Bool

inductive Polled
  | pending (state : HttpRequestState)
  | ready
  | panic

structure Future where
  connection : HttpConnection
  req : HttpReq
  state : Option HttpRequestState

/-- `sent` and `returned` record what is passed to `send_request` and `return_connection`,
`dropped` what a panic takes with it. -/
structure Task (client : Client) where
  futures : List Future
  sent : List (HttpConnection × HttpRequest client)
  returned : List HttpConnection
  dropped : List HttpConnection

section Model

variable {x : Externals} (ctx : Context x)

def tryAddHeader (client : Client) (headers : client.HeaderMap) (header : String × String) :
    Option client.HeaderMap :=
  match client.headerName header.1, client.headerValue header.2 with
  | some headerName, some headerValue => client.insert headers headerName headerValue
  | _, _ => some headers

def buildRequest (req : HttpReq) : Option (HttpRequest ctx.client) := do
  -- an invalid address is unwrapped; invalid headers are left out
  let requestUri ← ctx.client.uri req.url
  let headers ←
    (x.order.arrange req.headers.toList).foldlM (tryAddHeader ctx.client) ctx.client.empty
  some ⟨requestUri, req.method, headers, req.body⟩

def doSimpleAssertion (requestUri : Uri) (body : List UInt8) : Option Unit :=
  match ctx.client.fromSlice body with
  | .ok jsonResp =>
    (simpleAssert ctx.lib requestUri none jsonResp ctx.assertion).map fun _ => ()
  | .error _ => some ()

def pollLuaAssert (answers : Answers) : Polled :=
  if answers.luaAssert then .ready else .pending .luaAssert

def bodyAsserted (body : List UInt8) (answers : Answers) : Polled :=
  if ctx.luaExecutorSender && (ctx.client.fromUtf8 body).isSome then pollLuaAssert answers
  else .ready

def pollBody (requestUri : Uri) (answers : Answers) : Polled :=
  match answers.body with
  | none => .pending (.body requestUri)
  | some (.error _) => .ready
  | some (.ok body) =>
    -- the simple assertions come before the Lua executor
    if ctx.assertion.simpleAssertions.isSome then
      match doSimpleAssertion ctx requestUri body with
      | some () => bodyAsserted ctx body answers
      | none => .panic
    else bodyAsserted ctx body answers

def checkBuckets : Bool :=
  (ctx.histogramBuckets.zip ctx.histogramBuckets.tail).all fun (bound, next) => !ctx.ge bound next

/-- `with_label_values` makes a histogram for a new status, which the buckets can refuse, and
unwraps it. -/
def upstreamResponseTime : Option Unit := if checkBuckets ctx then some () else none

def pollRequest (requestUri : Uri) (answers : Answers) : Polled :=
  match answers.request with
  | none => .pending (.inProgress requestUri)
  | some (.ok ()) =>
    match upstreamResponseTime ctx with
    | some () => .pending (.body requestUri)
    | none => .panic
  | some (.error _) => .ready

def HttpRequestState.poll (answers : Answers) : HttpRequestState → Polled
  | .inProgress requestUri => pollRequest ctx requestUri answers
  | .body requestUri => pollBody ctx requestUri answers
  | .luaAssert => pollLuaAssert answers

def Future.begin (future : Future) :
    Option (HttpRequestState × List (HttpConnection × HttpRequest ctx.client)) :=
  match future.state with
  | some state => some (state, [])
  | none => (buildRequest ctx future.req).map fun request =>
      (.inProgress request.uri, [(future.connection, request)])

namespace Task

variable {client : Client} (task : Task client)

def panic : Task client :=
  { task with
    futures := []
    dropped := task.dropped ++ task.futures.map Future.connection }

def settle (i : Nat) (future : Future) : Polled → Task client
  | .pending state =>
    { task with futures := task.futures.set i { future with state := some state } }
  | .ready =>
    { task with
      futures := task.futures.eraseIdx i
      returned := task.returned ++ [future.connection] }
  | .panic => task.panic

end Task

def poll (task : Task ctx.client) (p : Nat × Answers) : Option (Task ctx.client) :=
  (task.futures[p.1]?).map fun future =>
    match future.begin ctx with
    | some (state, sent) =>
      { task with sent := task.sent ++ sent }.settle p.1 future (state.poll ctx p.2)
    | none => task.panic

def spawn (connections : List HttpConnection) (requestsToSend : List HttpReq) :
    Task ctx.client :=
  -- all requests are popped before the first poll
  match assign connections requestsToSend with
  | some pairs => ⟨pairs.map fun (connection, req) => ⟨connection, req, none⟩, [], [], []⟩
  | none => ⟨[], [], [], connections⟩

end Model

def Answers.complete (answers : Answers) : Bool :=
  answers.request.isSome && answers.body.isSome && answers.luaAssert

section Isolation

variable {x : Externals} (ctx : Context x)

def Sent (task : Task ctx.client) (pair : HttpConnection × HttpReq) : Prop :=
  ∃ request, buildRequest ctx pair.2 = some request ∧ (pair.1, request) ∈ task.sent

/-- In every run, polls that are answered come to an end, and at the end each connection has
been returned once and each request to a valid address sent. -/
structure Isolated (connections : List HttpConnection) (requestsToSend : List HttpReq) :
    Prop where
  ends : ∀ polls task, run (poll ctx) (spawn ctx connections requestsToSend) polls = some task →
    (polls.filter fun p => p.2.complete).length ≤ 3 * connections.length
  returned : ∀ polls task, run (poll ctx) (spawn ctx connections requestsToSend) polls = some task →
    task.futures = [] → task.returned.Perm connections
  sent : ∀ polls task, run (poll ctx) (spawn ctx connections requestsToSend) polls = some task →
    task.futures = [] → ∀ pair ∈ connections.zip requestsToSend.reverse,
      (ctx.client.uri pair.2.url).isSome → Sent ctx task pair

def Splits (requestUri : Uri) : Prop :=
  (∃ a ∈ ctx.assertion.simpleAssertions.getD [], ∃ name,
    a.expectation = .requestQueryParam name) → requestUri.WellFormed

/-- The address is valid, there is room for the headers, the time of the response can be
observed, and no assertion fails on the query. -/
def Harmless (req : HttpReq) : Prop :=
  ∃ request, buildRequest ctx req = some request ∧ checkBuckets ctx = true ∧ Splits ctx request.uri

end Isolation

def HttpRequestState.requestUri : HttpRequestState → Option Uri
  | .inProgress requestUri => some requestUri
  | .body requestUri => some requestUri
  | .luaAssert => none

def HttpRequestState.rank : HttpRequestState → Nat
  | .inProgress _ => 3
  | .body _ => 2
  | .luaAssert => 1

section Polls

variable {x : Externals} {ctx : Context x} {requestUri : Uri} {answers : Answers}
  {state state' : HttpRequestState}

theorem doSimpleAssertion_isSome {body : List UInt8} {jsonResp : Value}
    (hsome : ctx.assertion.simpleAssertions.isSome)
    (hbody : ctx.client.fromSlice body = .ok jsonResp) :
    (doSimpleAssertion ctx requestUri body).isSome ↔ Splits ctx requestUri := by
  obtain ⟨client, lib, ⟨simpleAssertions, lua⟩, sender, buckets, ge⟩ := ctx
  obtain ⟨xs, rfl⟩ := Option.isSome_iff_exists.mp hsome
  rw [doSimpleAssertion, hbody, Option.isSome_map, simpleAssert_isSome]
  rfl

theorem pollBody_cases (ctx : Context x) (requestUri : Uri) (answers : Answers) :
    (answers.body = none ∧ pollBody ctx requestUri answers = .pending (.body requestUri)) ∨
    pollBody ctx requestUri answers = .ready ∨
    pollBody ctx requestUri answers = pollLuaAssert answers ∨
    (¬ Splits ctx requestUri ∧ pollBody ctx requestUri answers = .panic) := by
  have hasserted : ∀ body, bodyAsserted ctx body answers = .ready ∨
      bodyAsserted ctx body answers = pollLuaAssert answers := by
    intro body
    rw [bodyAsserted]
    split
    · exact .inr rfl
    · exact .inl rfl
  rw [pollBody]
  split
  · exact .inl ⟨‹_›, rfl⟩
  · exact .inr (.inl rfl)
  · rename_i body _
    split
    · rename_i hsome
      split
      · exact .inr ((hasserted body).imp_right .inl)
      · rename_i hnone
        refine .inr (.inr (.inr ⟨fun hsplits => ?_, rfl⟩))
        cases hslice : ctx.client.fromSlice body with
        | ok jsonResp =>
          have := (doSimpleAssertion_isSome hsome hslice).mpr hsplits
          simp [hnone] at this
        | error e => simp [doSimpleAssertion, hslice] at hnone
    · exact .inr ((hasserted body).imp_right .inl)

theorem pollRequest_eq (hbuckets : checkBuckets ctx = true) : pollRequest ctx requestUri answers =
    match answers.request with
    | none => .pending (.inProgress requestUri)
    | some (.ok ()) => .pending (.body requestUri)
    | some (.error _) => .ready := by
  simp only [pollRequest, upstreamResponseTime, hbuckets, if_true]

theorem poll_ne_panic (hbuckets : checkBuckets ctx = true)
    (h : ∀ requestUri ∈ state.requestUri, Splits ctx requestUri) :
    state.poll ctx answers ≠ .panic := by
  cases state with
  | inProgress requestUri =>
    simp only [HttpRequestState.poll, pollRequest_eq hbuckets]
    split <;> simp
  | body requestUri =>
    rcases pollBody_cases ctx requestUri answers with ⟨_, h'⟩ | h' | h' | ⟨hnot, _⟩
    · simp [HttpRequestState.poll, h']
    · simp [HttpRequestState.poll, h']
    · simp only [HttpRequestState.poll, h', pollLuaAssert]
      split <;> simp
    · exact absurd (h requestUri rfl) hnot
  | luaAssert =>
    simp only [HttpRequestState.poll, pollLuaAssert]
    split <;> simp

theorem pollLuaAssert_eq_pending (h : pollLuaAssert answers = .pending state') :
    state' = .luaAssert ∧ ¬ answers.complete := by
  rw [pollLuaAssert] at h
  split at h
  · cases h
  · rename_i hlua
    cases h
    exact ⟨rfl, by simp [Answers.complete, hlua]⟩

theorem poll_eq_pending (h : state.poll ctx answers = .pending state') :
    (∀ requestUri ∈ state'.requestUri, requestUri ∈ state.requestUri) ∧
      state'.rank ≤ state.rank ∧ (answers.complete → state'.rank < state.rank) := by
  cases state with
  | inProgress requestUri =>
    simp only [HttpRequestState.poll, pollRequest] at h
    split at h
    · rename_i hnone
      cases h
      exact ⟨fun _ => id, Nat.le_refl _, by simp [Answers.complete, hnone]⟩
    · split at h
      · cases h
        exact ⟨fun _ => id, Nat.le_succ 2, fun _ => Nat.lt_succ_self 2⟩
      · cases h
    · cases h
  | body requestUri =>
    rw [HttpRequestState.poll] at h
    rcases pollBody_cases ctx requestUri answers with ⟨hnone, h'⟩ | h' | h' | ⟨_, h'⟩
    · rw [h'] at h
      cases h
      exact ⟨fun _ => id, Nat.le_refl _, by simp [Answers.complete, hnone]⟩
    · cases h'.symm.trans h
    · obtain ⟨rfl, _⟩ := pollLuaAssert_eq_pending (h'.symm.trans h)
      exact ⟨by rintro _ ⟨⟩, Nat.le_succ 1, fun _ => Nat.lt_succ_self 1⟩
    · cases h'.symm.trans h
  | luaAssert =>
    obtain ⟨rfl, hnot⟩ := pollLuaAssert_eq_pending h
    exact ⟨fun _ => id, Nat.le_refl _, fun hcomplete => absurd hcomplete hnot⟩

end Polls

def Future.rank (future : Future) : Nat := future.state.elim 3 HttpRequestState.rank

def Task.rank {client : Client} (task : Task client) : Nat :=
  (task.futures.map Future.rank).sum

section Tasks

variable {x : Externals} {ctx : Context x} {task task' : Task ctx.client} {future : Future}
  {state : HttpRequestState} {sent : List (HttpConnection × HttpRequest ctx.client)}
  {i : Nat} {answers : Answers}

inductive Polls (ctx : Context x) (task : Task ctx.client) (i : Nat) (answers : Answers) :
    Task ctx.client → Prop
  | unsent {future : Future} (hget : task.futures[i]? = some future)
    (hbegin : future.begin ctx = none) : Polls ctx task i answers task.panic
  | pending {future : Future} {state state' : HttpRequestState}
    {sent : List (HttpConnection × HttpRequest ctx.client)}
    (hget : task.futures[i]? = some future) (hbegin : future.begin ctx = some (state, sent))
    (hpoll : state.poll ctx answers = .pending state') :
    Polls ctx task i answers { task with
      futures := task.futures.set i { future with state := some state' }
      sent := task.sent ++ sent }
  | ready {future : Future} {state : HttpRequestState}
    {sent : List (HttpConnection × HttpRequest ctx.client)}
    (hget : task.futures[i]? = some future) (hbegin : future.begin ctx = some (state, sent))
    (hpoll : state.poll ctx answers = .ready) :
    Polls ctx task i answers { task with
      futures := task.futures.eraseIdx i
      sent := task.sent ++ sent
      returned := task.returned ++ [future.connection] }
  | panic {future : Future} {state : HttpRequestState}
    {sent : List (HttpConnection × HttpRequest ctx.client)}
    (hget : task.futures[i]? = some future) (hbegin : future.begin ctx = some (state, sent))
    (hpoll : state.poll ctx answers = .panic) :
    Polls ctx task i answers { task with sent := task.sent ++ sent }.panic

theorem Polls.of_poll (h : poll ctx task (i, answers) = some task') :
    Polls ctx task i answers task' := by
  obtain ⟨future, hget, rfl⟩ := Option.map_eq_some_iff.mp h
  cases hbegin : future.begin ctx with
  | none => exact .unsent hget hbegin
  | some begun =>
    obtain ⟨state, sent⟩ := begun
    cases hpoll : state.poll ctx answers with
    | pending state' =>
      simp only [hpoll, Task.settle]
      exact .pending hget hbegin hpoll
    | ready =>
      simp only [hpoll, Task.settle]
      exact .ready hget hbegin hpoll
    | panic =>
      simp only [hpoll, Task.settle]
      exact .panic hget hbegin hpoll

theorem Future.begin_eq_some (h : future.begin ctx = some (state, sent)) :
    (future.state = some state ∧ sent = []) ∨
      ∃ request, future.state = none ∧ buildRequest ctx future.req = some request ∧
        state = .inProgress request.uri ∧ sent = [(future.connection, request)] := by
  rw [Future.begin] at h
  split at h
  · cases h
    exact .inl ⟨‹_›, rfl⟩
  · obtain ⟨request, hrequest, heq⟩ := Option.map_eq_some_iff.mp h
    cases heq
    exact .inr ⟨request, ‹_›, hrequest, rfl, rfl⟩

theorem Future.rank_pos (future : Future) : 0 < future.rank := by
  rw [Future.rank]
  rcases future.state with _ | _ | _ | _ <;> exact Nat.succ_pos _

theorem Future.rank_of_begin (h : future.begin ctx = some (state, sent)) :
    state.rank = future.rank := by
  rcases future.begin_eq_some h with ⟨hstate, _⟩ | ⟨request, hstate, _, rfl, _⟩
  · rw [Future.rank, hstate]
    rfl
  · rw [Future.rank, hstate]
    rfl

theorem rank_pos_of_getElem? (hget : task.futures[i]? = some future) : 0 < task.rank := by
  have := sum_map_eraseIdx Future.rank hget
  have := future.rank_pos
  rw [Task.rank]
  omega

theorem Polls.rank (h : Polls ctx task i answers task') :
    task'.rank ≤ task.rank ∧ (answers.complete → task'.rank < task.rank) := by
  cases h with
  | unsent hget _ => exact ⟨Nat.zero_le _, fun _ => rank_pos_of_getElem? hget⟩
  | panic hget _ _ => exact ⟨Nat.zero_le _, fun _ => rank_pos_of_getElem? hget⟩
  | @pending future state state' sent hget hbegin hpoll =>
    obtain ⟨_, hle, hlt⟩ := poll_eq_pending hpoll
    have hsum := sum_map_set Future.rank { future with state := some state' } hget
    have hnext : Future.rank { future with state := some state' } = state'.rank := rfl
    rw [Future.rank_of_begin hbegin] at hle hlt
    simp only [Task.rank]
    refine ⟨by omega, fun hcomplete => ?_⟩
    have := hlt hcomplete
    omega
  | @ready future _ _ hget _ _ =>
    have hsum := sum_map_eraseIdx Future.rank hget
    have := future.rank_pos
    simp only [Task.rank]
    exact ⟨by omega, fun _ => by omega⟩

theorem rank_run {polls : List (Nat × Answers)} (h : run (poll ctx) task polls = some task') :
    task'.rank + (polls.filter fun p => p.2.complete).length ≤ task.rank := by
  induction polls generalizing task with
  | nil =>
    cases h
    exact Nat.le_refl _
  | cons p polls ih =>
    obtain ⟨task₁, hstep, hrun⟩ := run_cons_eq_some.mp h
    obtain ⟨hle, hlt⟩ := (Polls.of_poll hstep).rank
    have hrest := ih hrun
    rw [List.filter_cons]
    split
    · have := hlt ‹_›
      rw [List.length_cons]
      omega
    · omega

end Tasks

section Batches

variable {x : Externals} {ctx : Context x} {task task' : Task ctx.client} {future : Future}
  {pairs : List (HttpConnection × HttpReq)} {i : Nat} {answers : Answers}

structure Future.Calm (ctx : Context x) (future : Future) : Prop where
  harmless : Harmless ctx future.req
  splits : ∀ state ∈ future.state, ∀ requestUri ∈ state.requestUri, Splits ctx requestUri

structure Kept (ctx : Context x) (pairs : List (HttpConnection × HttpReq))
    (task : Task ctx.client) : Prop where
  calm : ∀ future ∈ task.futures, future.Calm ctx
  connections : (task.returned ++ task.futures.map Future.connection).Perm (pairs.map Prod.fst)
  sent : ∀ pair ∈ pairs, Sent ctx task pair ∨
    ∃ future ∈ task.futures, future.state = none ∧ (future.connection, future.req) = pair

theorem Future.Calm.begin (h : future.Calm ctx) : ∃ state sent,
    future.begin ctx = some (state, sent) ∧
      ∀ requestUri ∈ state.requestUri, Splits ctx requestUri := by
  rw [Future.begin]
  cases hstate : future.state with
  | some state => exact ⟨state, [], rfl, h.splits state hstate⟩
  | none =>
    obtain ⟨request, hrequest, _, hsplits⟩ := h.harmless
    refine ⟨.inProgress request.uri, [(future.connection, request)], by simp [hrequest], ?_⟩
    rintro _ ⟨⟩
    exact hsplits

namespace Kept

variable {state : HttpRequestState} {sent : List (HttpConnection × HttpRequest ctx.client)}
  {front back : List Future}

theorem splits_of_begin (hs : Kept ctx pairs task) (hget : task.futures[i]? = some future)
    (hbegin : future.begin ctx = some (state, sent)) :
    ∀ requestUri ∈ state.requestUri, Splits ctx requestUri := by
  obtain ⟨state', sent', hbegin', hsplits⟩ := (hs.calm future (List.mem_of_getElem? hget)).begin
  cases hbegin.symm.trans hbegin'
  exact hsplits

theorem sent_of_begin (hs : Kept ctx pairs task) (hfutures : task.futures = front ++ future :: back)
    (hbegin : future.begin ctx = some (state, sent)) (hsent : task'.sent = task.sent ++ sent)
    (hrest : ∀ other ∈ front ++ back, other ∈ task'.futures) :
    ∀ pair ∈ pairs, Sent ctx task' pair ∨
      ∃ future ∈ task'.futures, future.state = none ∧ (future.connection, future.req) = pair := by
  intro pair hpair
  rcases hs.sent pair hpair with ⟨request, hrequest, hmem⟩ | ⟨other, hother, hstate, rfl⟩
  · exact .inl ⟨request, hrequest, hsent ▸ List.mem_append_left _ hmem⟩
  · rw [hfutures, List.mem_append, List.mem_cons, or_left_comm, ← List.mem_append] at hother
    rcases hother with rfl | hother
    · rcases Future.begin_eq_some hbegin with ⟨hsome, _⟩ | ⟨request, _, hrequest, _, rfl⟩
      · cases hstate.symm.trans hsome
      · exact .inl ⟨request, hrequest, hsent ▸ List.mem_append_right _ List.mem_cons_self⟩
    · exact .inr ⟨other, hrest other hother, hstate, rfl⟩

theorem polls (hs : Kept ctx pairs task) (h : Polls ctx task i answers task') :
    Kept ctx pairs task' := by
  cases h with
  | @unsent future hget hbegin =>
    obtain ⟨state, sent, hsome, _⟩ := (hs.calm future (List.mem_of_getElem? hget)).begin
    cases hbegin.symm.trans hsome
  | @panic future state sent hget hbegin hpoll =>
    obtain ⟨_, _, hbuckets, _⟩ := (hs.calm future (List.mem_of_getElem? hget)).harmless
    exact absurd hpoll (poll_ne_panic hbuckets (hs.splits_of_begin hget hbegin))
  | @pending future state state' sent hget hbegin hpoll =>
    obtain ⟨front, back, hfutures, hset, _⟩ := exists_split_of_getElem? hget
    have hcalm := hs.calm
    have hconnections := hs.connections
    simp only [hset]
    rw [hfutures] at hcalm hconnections
    refine ⟨?_, by simpa using hconnections, hs.sent_of_begin hfutures hbegin rfl ?_⟩
    · simp only [List.mem_append, List.mem_cons] at hcalm ⊢
      rintro other (hother | rfl | hother)
      · exact hcalm other (.inl hother)
      · refine ⟨(hcalm future (.inr (.inl rfl))).harmless, ?_⟩
        rintro _ ⟨⟩ requestUri huri
        exact hs.splits_of_begin hget hbegin requestUri ((poll_eq_pending hpoll).1 _ huri)
      · exact hcalm other (.inr (.inr hother))
    · intro other hother
      simp only [List.mem_append, List.mem_cons] at hother ⊢
      exact hother.imp_right .inr
  | @ready future state sent hget hbegin hpoll =>
    obtain ⟨front, back, hfutures, _, herase⟩ := exists_split_of_getElem? hget
    have hcalm := hs.calm
    have hconnections := hs.connections
    simp only [herase]
    rw [hfutures] at hcalm hconnections
    refine ⟨fun other hother => hcalm other ?_, ?_, hs.sent_of_begin hfutures hbegin rfl ?_⟩
    · simp only [List.mem_append, List.mem_cons] at hother ⊢
      exact hother.imp_right .inr
    · refine List.Perm.trans ?_ hconnections
      simp only [List.map_append, List.map_cons, List.append_assoc, List.singleton_append]
      exact List.perm_middle.symm.append_left task.returned
    · exact fun _ => id

theorem spawn (h : ∀ pair ∈ pairs, Harmless ctx pair.2) :
    Kept ctx pairs ⟨pairs.map fun (connection, req) => ⟨connection, req, none⟩, [], [], []⟩ where
  calm := by
    intro future hfuture
    obtain ⟨pair, hpair, rfl⟩ := List.mem_map.mp hfuture
    exact ⟨h pair hpair, by rintro _ ⟨⟩⟩
  connections := by simp [Function.comp_def]
  sent := fun pair hpair => .inr ⟨_, List.mem_map_of_mem hpair, rfl, rfl⟩

end Kept

theorem pollBody_eq_panic {requestUri : Uri} {body : List UInt8} {jsonResp : Value}
    (h : ¬ Splits ctx requestUri) (hbody : ctx.client.fromSlice body = .ok jsonResp)
    (hanswers : answers.body = some (.ok body)) : pollBody ctx requestUri answers = .panic := by
  have hsome : ctx.assertion.simpleAssertions.isSome := by
    by_contra hnone
    rw [Option.not_isSome_iff_eq_none] at hnone
    exact h (by simp [Splits, hnone])
  have hpanics : doSimpleAssertion ctx requestUri body = none := by
    rw [← Option.not_isSome_iff_eq_none, doSimpleAssertion_isSome hsome hbody]
    exact h
  rw [pollBody, hanswers]
  simp only [hsome, if_true, hpanics]

theorem exists_panic {pair : HttpConnection × HttpReq} (hfutures : task.futures[i]? =
      some ⟨pair.1, pair.2, none⟩) (h : ¬ Harmless ctx pair.2) :
    ∃ polls task', run (poll ctx) task polls = some task' ∧ task'.futures = [] ∧
      task'.returned = task.returned := by
  obtain ⟨body, hbody⟩ := ctx.client.fromSlice_null
  let answers : Answers := ⟨some (.ok ()), some (.ok body), true⟩
  cases hrequest : buildRequest ctx pair.2 with
  | none =>
    refine ⟨[(i, answers)], task.panic, ?_, rfl, rfl⟩
    simp [poll, hfutures, Future.begin, hrequest]
  | some request =>
    let sent := task.sent ++ [(pair.1, request)]
    by_cases hbuckets : checkBuckets ctx = true
    · have hsplits : ¬ Splits ctx request.uri :=
        fun hsplits => h ⟨request, hrequest, hbuckets, hsplits⟩
      let received : Task ctx.client := { task with
        futures := task.futures.set i ⟨pair.1, pair.2, some (.body request.uri)⟩
        sent }
      have hlt : i < task.futures.length := (List.getElem?_eq_some_iff.mp hfutures).1
      have hfirst : poll ctx task (i, answers) = some received := by
        simp only [poll, hfutures, Option.map_some, Future.begin, hrequest, HttpRequestState.poll,
          pollRequest_eq hbuckets]
        rfl
      have hget : received.futures[i]? = some ⟨pair.1, pair.2, some (.body request.uri)⟩ :=
        List.getElem?_set_self hlt
      have hpanic : pollBody ctx request.uri answers = .panic :=
        pollBody_eq_panic hsplits hbody rfl
      have hsecond : poll ctx received (i, answers) =
          some { received with sent := received.sent ++ [] }.panic := by
        simp only [poll, hget, Option.map_some, Future.begin, HttpRequestState.poll, hpanic]
        rfl
      exact ⟨[(i, answers), (i, answers)], _,
        run_cons_eq_some.mpr ⟨received, hfirst, run_singleton.trans hsecond⟩, rfl, rfl⟩
    · have hpanic : pollRequest ctx request.uri answers = .panic := by
        simp [pollRequest, upstreamResponseTime, hbuckets, answers]
      have hfirst : poll ctx task (i, answers) = some { task with sent }.panic := by
        simp only [poll, hfutures, Option.map_some, Future.begin, hrequest, HttpRequestState.poll,
          hpanic]
        rfl
      exact ⟨[(i, answers)], _, run_singleton.trans hfirst, rfl, rfl⟩

theorem spawn_of_le {connections : List HttpConnection} {requestsToSend : List HttpReq}
    (h : connections.length ≤ requestsToSend.length) : spawn ctx connections requestsToSend =
      ⟨(connections.zip requestsToSend.reverse).map fun (connection, req) =>
        ⟨connection, req, none⟩, [], [], []⟩ := by
  rw [spawn, assign_eq, if_pos h]

theorem rank_spawn {connections : List HttpConnection} {requestsToSend : List HttpReq}
    (h : connections.length ≤ requestsToSend.length) :
    (spawn ctx connections requestsToSend).rank = 3 * connections.length := by
  rw [spawn_of_le h, Task.rank]
  simp only [List.map_map, Function.comp_def, Future.rank, Option.elim_none, List.map_const',
    List.sum_replicate_nat, List.length_zip, List.length_reverse]
  omega

theorem isolated_of_harmless {connections : List HttpConnection} {requestsToSend : List HttpReq}
    (hlength : connections.length ≤ requestsToSend.length)
    (h : ∀ pair ∈ connections.zip requestsToSend.reverse, Harmless ctx pair.2) :
    Isolated ctx connections requestsToSend := by
  have hkept : ∀ polls task,
      run (poll ctx) (spawn ctx connections requestsToSend) polls = some task →
        Kept ctx (connections.zip requestsToSend.reverse) task := by
    intro polls task hrun
    refine run_invariant (fun _ _ _ hs h => hs.polls (.of_poll h)) ?_ hrun
    rw [spawn_of_le hlength]
    exact .spawn h
  have hfst : (connections.zip requestsToSend.reverse).map Prod.fst = connections :=
    List.map_fst_zip (by rwa [List.length_reverse])
  refine ⟨fun polls task hrun => ?_, fun polls task hrun hend => ?_,
    fun polls task hrun hend pair hpair _ => ?_⟩
  · have := rank_run hrun
    rw [rank_spawn hlength] at this
    omega
  · have := (hkept polls task hrun).connections
    rwa [hend, List.map_nil, List.append_nil, hfst] at this
  · rcases (hkept polls task hrun).sent pair hpair with hsent | ⟨future, hfuture, _⟩
    · exact hsent
    · rw [hend] at hfuture
      cases hfuture

theorem Isolated.harmless {connections : List HttpConnection} {requestsToSend : List HttpReq}
    (h : Isolated ctx connections requestsToSend)
    (hlength : connections.length ≤ requestsToSend.length) :
    ∀ pair ∈ connections.zip requestsToSend.reverse, Harmless ctx pair.2 := by
  intro pair hpair
  by_contra hharmful
  obtain ⟨i, hi⟩ := List.mem_iff_getElem?.mp hpair
  have hfuture : (spawn ctx connections requestsToSend).futures[i]? =
      some ⟨pair.1, pair.2, none⟩ := by
    rw [spawn_of_le hlength, List.getElem?_map, hi]
    rfl
  obtain ⟨polls, task, hrun, hend, hreturned⟩ := exists_panic hfuture hharmful
  have hperm := h.returned polls task hrun hend
  rw [hreturned, spawn_of_le hlength] at hperm
  obtain rfl := hperm.nil_eq
  cases hpair

theorem Isolated.length_le {connections : List HttpConnection} {requestsToSend : List HttpReq}
    (h : Isolated ctx connections requestsToSend) :
    connections.length ≤ requestsToSend.length := by
  by_contra hlength
  have hspawn : spawn ctx connections requestsToSend = ⟨[], [], [], connections⟩ := by
    rw [spawn, assign_eq, if_neg hlength]
  have hreturned := h.returned [] _ rfl (by rw [hspawn])
  rw [hspawn] at hreturned
  exact hlength (hreturned.length_eq ▸ Nat.zero_le _)

end Batches

/-- A batch is isolated exactly if each of its connections has a request, and each of these
is harmless. -/
theorem isolated_iff {x : Externals} (ctx : Context x) (connections : List HttpConnection)
    (requestsToSend : List HttpReq) :
    Isolated ctx connections requestsToSend ↔
      connections.length ≤ requestsToSend.length ∧
        ∀ pair ∈ connections.zip requestsToSend.reverse, Harmless ctx pair.2 :=
  ⟨fun h => ⟨h.length_le, h.harmless h.length_le⟩, fun h => isolated_of_harmless h.1 h.2⟩

theorem isolated_spawned_iff {x : Externals} (ctx : Context x) {n : Nat}
    {s : Cycle.Session HttpReq} {a : Cycle.Action HttpReq} {connections : List HttpConnection}
    {requestsToSend : List HttpReq} (hs : Cycle.Paced n s)
    (h : s.spawned a = some (connections, requestsToSend)) :
    Isolated ctx connections requestsToSend ↔
      ∀ pair ∈ connections.zip requestsToSend.reverse, Harmless ctx pair.2 := by
  obtain ⟨pairs, hpairs, _⟩ := hs.oneEach h
  rw [assign_eq] at hpairs
  split at hpairs
  · rename_i hlength
    exact ⟨fun h => h.harmless hlength, isolated_of_harmless hlength⟩
  · cases hpairs

def plainClient : Client where
  HeaderMap := List (String × String)
  empty := []
  insert headers headerName headerValue := some ((headerName, headerValue) :: headers)
  headerName := some
  headerValue := some
  uri url :=
    if url.toList.contains ' ' then none
    else some ⟨url.toList.takeWhile (· != '?'), (url.toList.splitOn '?')[1]?⟩
  fromUtf8 _ := none
  fromSlice _ := .ok .null
  fromSlice_null := ⟨[], rfl⟩

def bucketContext (histogramBuckets : List UInt32)
    (simpleAssertions : List (Transport.Assertion plainExternals)) : Context plainExternals where
  client := plainClient
  lib := plainLibrary
  assertion := ⟨some simpleAssertions, none⟩
  luaExecutorSender := false
  histogramBuckets
  ge (bound next : UInt32) := decide (next ≤ bound)

def plainContext : List (Transport.Assertion plainExternals) → Context plainExternals :=
  bucketContext [20, 50]

def get (url : String) : HttpReq := ⟨"", ⟨"GET", isMethod_get⟩, url, none, ∅⟩

def nullResponse : Answers := ⟨some (.ok ()), some (.ok []), true⟩

theorem batch_dropped :
    (plainClient.uri "/a").isSome ∧
    run (poll (plainContext [])) (spawn (plainContext []) twoConnections [get "/a", get "/ b"])
      [(0, nullResponse)] = some ⟨[], [], [], twoConnections⟩ ∧
    (∃ task, run (poll (plainContext [⟨1, .requestQueryParam "c", .constant .null⟩]))
        (spawn (plainContext [⟨1, .requestQueryParam "c", .constant .null⟩]) twoConnections
          [get "/a", get "/b?c"]) [(0, nullResponse), (0, nullResponse)] = some task ∧
      task.futures = [] ∧ task.returned = [] ∧
      task.sent.map (fun request => request.2.uri.path) = [['/', 'b']]) ∧
    ∃ task, run (poll (bucketContext [50, 20] [])) (spawn (bucketContext [50, 20] [])
        twoConnections [get "/a", get "/b"]) [(0, nullResponse)] = some task ∧
      task.futures = [] ∧ task.returned = [] ∧
      task.sent.map (fun request => request.2.uri.path) = [['/', 'b']] :=
  ⟨rfl, rfl, ⟨_, rfl, rfl, rfl, rfl⟩, _, rfl, rfl, rfl, rfl⟩

end Overload.Batch
