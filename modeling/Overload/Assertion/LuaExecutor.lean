import Overload.Assertion.SimpleAssert
import Overload.Mailbox

namespace Overload.LuaExecutor

open Transition
open Assertion (AssertionError)
open Request (Method)

structure LuaAssertionResult where
  assertionId : Int32
  assertionResult : Except String Unit

def LuaAssertionResult.luaError (error : String) : LuaAssertionResult where
  assertionId := 2147483647
  assertionResult := .error error

/-- What `mlua` does with values of Lua, and the function of the chunks, which may leave
something behind in the memory of Lua. -/
structure Lua (σ V : Type) where
  rawGet : V → Option (String → V)
  sequenceValues : V → Except String (List V)
  toI32 : V → Except String Int32
  toBool : V → Except String Bool
  toString : V → Except String String
  conversionError : V → String → String → String
  registryValue : σ → Except String Unit
  call : σ → String → String → Option String → String → Except String V × σ

/-- What the task is sent, apart from the headers, which it does not read, and the channel
for the answer. -/
structure Message where
  responseBody : String
  method : Method
  url : String
  requestBody : Option String
  deriving DecidableEq, Repr

section Model

variable {σ V : Type} (lua : Lua σ V)

def fromLua (luaValue : V) : Except String LuaAssertionResult :=
  match lua.rawGet luaValue with
  | some table => do
    let id ← lua.toI32 (table "id")
    if ← lua.toBool (table "success") then .ok ⟨id, .ok ()⟩
    else
      let error ← lua.toString (table "error")
      .ok ⟨id, .error error⟩
  | none => .error (lua.conversionError luaValue "LuaAssertionResult" "expected table")

def callFunction (memory : σ) (message : Message) :
    Except String (List LuaAssertionResult) × σ :=
  let (returned, memory) := lua.call memory message.method.text message.url message.requestBody
    message.responseBody
  (do (← lua.sequenceValues (← returned)).mapM (fromLua lua), memory)

def callLuaFuncFromRegistry (memory : σ) (message : Message) :
    Except (List LuaAssertionResult) Unit × σ :=
  match lua.registryValue memory with
  | .ok _ =>
    let (results, memory) := callFunction lua memory message
    match results with
    | .error e => (.error [.luaError e], memory)
    | .ok r => (if r.isEmpty then .ok () else .error r, memory)
  | .error e => (.error [.luaError e], memory)

def tryFrom (value : LuaAssertionResult) : Option AssertionError :=
  match value.assertionResult with
  | .error e => some (.luaAssertionFailure value.assertionId.toUInt32 e)
  | .ok _ => none

def luaResult (memory : σ) (message : Message) : Except (List AssertionError) Unit × σ :=
  let (result, memory) := callLuaFuncFromRegistry lua memory message
  (result.mapError (List.filterMap tryFrom), memory)

def verdict (memory : σ) (message : Message) : Except String (List LuaAssertionResult) × σ :=
  match lua.registryValue memory with
  | .ok _ => callFunction lua memory message
  | .error e => (.error e, memory)

end Model

def failures : Except String (List LuaAssertionResult) → List AssertionError
  | .error e => [.luaAssertionFailure 2147483647 e]
  | .ok results => results.filterMap tryFrom

def reported : Except (List AssertionError) Unit → List AssertionError
  | .ok _ => []
  | .error errors => errors

section Verdict

variable {σ V : Type} (lua : Lua σ V) (memory : σ) (message : Message)

theorem luaResult_snd : (luaResult lua memory message).2 = (verdict lua memory message).2 := by
  simp only [luaResult, callLuaFuncFromRegistry, verdict]
  cases lua.registryValue memory with
  | error e => rfl
  | ok _ =>
    simp only
    generalize callFunction lua memory message = called
    obtain ⟨results, memory'⟩ := called
    cases results <;> rfl

theorem reported_luaResult :
    reported (luaResult lua memory message).1 = failures (verdict lua memory message).1 := by
  simp only [luaResult, callLuaFuncFromRegistry, verdict]
  cases lua.registryValue memory with
  | error e => rfl
  | ok _ =>
    simp only
    generalize callFunction lua memory message = called
    obtain ⟨results, memory'⟩ := called
    cases results with
    | error e => rfl
    | ok results => cases results <;> rfl

theorem map_reported_answers (messages : List Message) :
    (Mailbox.answers (luaResult lua) memory messages).map reported =
      (Mailbox.answers (verdict lua) memory messages).map failures := by
  rw [← Mailbox.answers_map, ← Mailbox.answers_map]
  simp only [reported_luaResult, luaResult_snd]

end Verdict

/-- `closed` once no `LuaExecSender` is left.  The calls of `assertion_failure` are kept in
their order. -/
structure State (σ : Type) where
  executor : Mailbox.State σ Message (Except (List AssertionError) Unit)
  closed : Bool
  metrics : List AssertionError

def State.start {σ : Type} (memory : σ) : State σ := ⟨.start memory, false, []⟩

/-- `poll` of the future of the `i`-th `do_lua_assertion`, before or after its fifty
milliseconds have elapsed. -/
inductive Action
  | doLuaAssertion (message : Message)
  | receive
  | sendBack
  | poll (i : Nat) (elapsed : Bool)
  | dropSenders
  | finish
  | panic
  deriving DecidableEq, Repr

section Run

variable {σ V : Type} (lua : Lua σ V)

def State.perform (s : State σ) (a : Mailbox.Action Message) : Option (State σ) :=
  (Mailbox.step (luaResult lua) s.executor a).map fun executor => { s with executor }

def step (s : State σ) : Action → Option (State σ)
  | .doLuaAssertion message => if s.closed then none else s.perform lua (.ask message)
  | .receive => s.perform lua .receive
  | .sendBack => s.perform lua .answer
  | .poll i elapsed =>
    -- `timeout` polls the receiver first
    match s.executor.replies[i]? with
    | some (.sent result) =>
      (s.perform lua (.take i)).map fun s => { s with metrics := s.metrics ++ reported result }
    | some .lost => s.perform lua (.abandon i)
    | some .pending => if elapsed then s.perform lua (.abandon i) else some s
    | _ => none
  | .dropSenders => some { s with closed := true }
  | .finish => if s.closed ∧ s.executor.held.isEmpty then s.perform lua .crash else none
  | .panic => s.perform lua .crash

def asserted (as : List Action) : List Message :=
  as.filterMap fun a => match a with
    | .doLuaAssertion message => some message
    | _ => none

variable {lua} {s t : State σ} {a : Action} {memory : σ}

inductive Steps (lua : Lua σ V) (s : State σ) (a : Action) (t : State σ) : Prop
  | idle (hexecutor : t.executor = s.executor) (hmetrics : t.metrics = s.metrics)
    (hasserted : asserted [a] = []) : Steps lua s a t
  | moves {b : Mailbox.Action Message}
    (hexecutor : Mailbox.step (luaResult lua) s.executor b = some t.executor)
    (hmetrics : t.metrics = s.metrics) (hasserted : asserted [a] = Mailbox.asked [b])
    (htake : ∀ i, b ≠ .take i) : Steps lua s a t
  | counts {i : Nat} {result : Except (List AssertionError) Unit}
    (hexecutor : Mailbox.step (luaResult lua) s.executor (.take i) = some t.executor)
    (hi : s.executor.replies[i]? = some (.sent result))
    (hmetrics : t.metrics = s.metrics ++ reported result) (hasserted : asserted [a] = []) :
    Steps lua s a t

theorem Steps.of_perform {b : Mailbox.Action Message} (h : s.perform lua b = some t)
    (hasserted : asserted [a] = Mailbox.asked [b]) (htake : ∀ i, b ≠ .take i) :
    Steps lua s a t := by
  obtain ⟨executor, hexecutor, rfl⟩ := Option.map_eq_some_iff.mp h
  exact .moves hexecutor rfl hasserted htake

theorem Steps.of_step (h : step lua s a = some t) : Steps lua s a t := by
  cases a with
  | doLuaAssertion message =>
    simp only [step] at h
    split at h
    · cases h
    · exact .of_perform h rfl (by simp)
  | receive => exact .of_perform h rfl (by simp)
  | sendBack => exact .of_perform h rfl (by simp)
  | poll i elapsed =>
    simp only [step] at h
    split at h
    · rename_i result hi
      obtain ⟨u, hu, rfl⟩ := Option.map_eq_some_iff.mp h
      obtain ⟨executor, hexecutor, rfl⟩ := Option.map_eq_some_iff.mp hu
      exact .counts hexecutor hi rfl rfl
    · exact .of_perform h rfl (by simp)
    · split at h
      · exact .of_perform h rfl (by simp)
      · cases h
        exact .idle rfl rfl rfl
    · cases h
  | dropSenders =>
    cases h
    exact .idle rfl rfl rfl
  | finish =>
    simp only [step] at h
    split at h
    · exact .of_perform h rfl (by simp)
    · cases h
  | panic => exact .of_perform h rfl (by simp)

def received (replies : List (Mailbox.Reply (Except (List AssertionError) Unit))) (i : Nat) :
    List AssertionError :=
  match replies[i]? with
  | some (.taken result) => reported result
  | _ => []

structure Counted (counted : List Nat) (s : State σ) : Prop where
  nodup : counted.Nodup
  taken : ∀ i, i ∈ counted ↔ ∃ result, s.executor.replies[i]? = some (.taken result)
  metrics : s.metrics = counted.flatMap (received s.executor.replies)

theorem received_of_taken {replies replies' : List (Mailbox.Reply (Except (List AssertionError)
      Unit))} {counted : List Nat}
    (h : ∀ i ∈ counted, ∃ result, replies[i]? = some (.taken result) ∧
      replies'[i]? = some (.taken result)) :
    counted.flatMap (received replies') = counted.flatMap (received replies) := by
  refine List.flatMap_congr fun i hi => ?_
  obtain ⟨result, hreply, hreply'⟩ := h i hi
  simp only [received, hreply, hreply']

theorem Counted.step {counted : List Nat} (hs : Counted counted s) (h : step lua s a = some t) :
    ∃ counted', Counted counted' t := by
  have hstays : ∀ {b}, Mailbox.step (luaResult lua) s.executor b = some t.executor →
      counted.flatMap (received t.executor.replies) =
        counted.flatMap (received s.executor.replies) := by
    intro b hb
    refine received_of_taken fun i hi => ?_
    obtain ⟨result, hresult⟩ := (hs.taken i).mp hi
    exact ⟨result, hresult, (Mailbox.taken_iff hb).mpr (.inl hresult)⟩
  cases Steps.of_step h with
  | idle hexecutor hmetrics _ =>
    refine ⟨counted, hs.nodup, ?_, ?_⟩
    · rw [hexecutor]
      exact hs.taken
    · rw [hexecutor, hmetrics]
      exact hs.metrics
  | moves hexecutor hmetrics _ htake =>
    refine ⟨counted, hs.nodup, fun i => ?_, ?_⟩
    · rw [hs.taken i]
      refine exists_congr fun result => ?_
      rw [Mailbox.taken_iff hexecutor]
      exact ⟨.inl, fun hor => hor.resolve_right fun hand => htake i hand.1⟩
    · rw [hmetrics, hstays hexecutor]
      exact hs.metrics
  | @counts i result hexecutor hi hmetrics _ =>
    have htaken : t.executor.replies[i]? = some (.taken result) :=
      (Mailbox.taken_iff hexecutor).mpr (.inr ⟨rfl, hi⟩)
    refine ⟨counted ++ [i], ?_, fun j => ?_, ?_⟩
    · refine List.nodup_append.mpr ⟨hs.nodup, List.nodup_singleton i, ?_⟩
      rintro j hj _ hmem rfl
      obtain rfl := List.mem_singleton.mp hmem
      obtain ⟨_, hbefore⟩ := (hs.taken j).mp hj
      rw [hi] at hbefore
      cases hbefore
    · rw [List.mem_append, List.mem_singleton, hs.taken j]
      constructor
      · rintro (⟨result', hresult'⟩ | rfl)
        · exact ⟨result', (Mailbox.taken_iff hexecutor).mpr (.inl hresult')⟩
        · exact ⟨result, htaken⟩
      · rintro ⟨result', hresult'⟩
        rcases (Mailbox.taken_iff hexecutor).mp hresult' with hbefore | ⟨heq, _⟩
        · exact .inl ⟨result', hbefore⟩
        · cases heq
          exact .inr rfl
    · rw [List.flatMap_append, hstays hexecutor, hmetrics, hs.metrics, List.flatMap_singleton]
      simp only [received, htaken]

theorem asserted_concat (as : List Action) (a : Action) :
    asserted (as ++ [a]) = asserted as ++ asserted [a] :=
  List.filterMap_append

theorem run_executor {as : List Action} (h : run (step lua) (.start memory) as = some s) :
    (∃ bs, run (Mailbox.step (luaResult lua)) (.start memory) bs = some s.executor ∧
      Mailbox.asked bs = asserted as) ∧ ∃ counted, Counted counted s := by
  induction as using List.reverseRecOn generalizing s with
  | nil =>
    cases h
    exact ⟨⟨[], rfl, rfl⟩, [], List.nodup_nil, by simp [State.start, Mailbox.State.start], rfl⟩
  | append_singleton as a ih =>
    obtain ⟨u, hu, hstep⟩ := run_concat_eq_some.mp h
    obtain ⟨⟨bs, hbs, hasked⟩, counted, hcounted⟩ := ih hu
    refine ⟨?_, hcounted.step hstep⟩
    rw [asserted_concat, ← hasked]
    have hconcat : ∀ {b}, Mailbox.step (luaResult lua) u.executor b = some s.executor →
        asserted [a] = Mailbox.asked [b] → ∃ bs',
          run (Mailbox.step (luaResult lua)) (.start memory) bs' = some s.executor ∧
            Mailbox.asked bs' = Mailbox.asked bs ++ asserted [a] := by
      intro b hb hasserted
      refine ⟨bs ++ [b], run_concat_eq_some.mpr ⟨_, hbs, hb⟩, ?_⟩
      rw [hasserted, Mailbox.asked, List.filterMap_append, Mailbox.asked, Mailbox.asked]
    cases Steps.of_step hstep with
    | idle hexecutor _ hasserted =>
      exact ⟨bs, hexecutor ▸ hbs, by rw [hasserted, List.append_nil]⟩
    | moves hexecutor _ hasserted _ => exact hconcat hexecutor hasserted
    | counts hexecutor _ _ hasserted => exact hconcat hexecutor hasserted

def failuresOf (lua : Lua σ V) (memory : σ) (messages : List Message) (i : Nat) :
    List AssertionError :=
  (((Mailbox.answers (verdict lua) memory messages)[i]?).map failures).getD []

theorem received_eq {bs : List (Mailbox.Action Message)} {i : Nat}
    {result : Except (List AssertionError) Unit}
    (h : run (Mailbox.step (luaResult lua)) (.start memory) bs = some s.executor)
    (hi : s.executor.replies[i]? = some (.taken result)) :
    i < (Mailbox.asked bs).length ∧
      failuresOf lua memory (Mailbox.asked bs) i = reported result := by
  obtain ⟨n, hs⟩ := Mailbox.sequential_run h
  obtain ⟨hlt, hanswer⟩ := hs.results i _ result hi rfl
  refine ⟨Nat.lt_of_lt_of_le hlt hs.served, ?_⟩
  rw [failuresOf, ← List.getElem?_map, ← map_reported_answers, List.getElem?_map, hanswer,
    Option.map_some, Option.getD_some]

theorem Counted.metrics_eq {counted : List Nat} {bs : List (Mailbox.Action Message)}
    (hs : Counted counted s)
    (h : run (Mailbox.step (luaResult lua)) (.start memory) bs = some s.executor) :
    s.metrics = counted.flatMap (failuresOf lua memory (Mailbox.asked bs)) := by
  rw [hs.metrics]
  refine List.flatMap_congr fun i hi => ?_
  obtain ⟨result, hresult⟩ := (hs.taken i).mp hi
  rw [(received_eq h hresult).2]
  simp only [received, hresult]

/-- Whatever the order in which responses come, futures are polled and times run out, and even
if the task dies: every failure that is counted is one that the function, called for one
response after the other, finds in the response of the call that counts it, and every call
counts once at most. -/
theorem failures_counted_once (lua : Lua σ V) (memory : σ) (as : List Action) (s : State σ)
    (hrun : run (step lua) (.start memory) as = some s) :
    ∃ counted : List Nat, counted.Nodup ∧ (∀ i ∈ counted, i < (asserted as).length) ∧
      s.metrics = counted.flatMap (failuresOf lua memory (asserted as)) := by
  obtain ⟨⟨bs, hbs, hasked⟩, counted, hcounted⟩ := run_executor hrun
  refine ⟨counted, hcounted.nodup, fun i hi => ?_, hasked ▸ hcounted.metrics_eq hbs⟩
  obtain ⟨result, hresult⟩ := (hcounted.taken i).mp hi
  exact hasked ▸ (received_eq hbs hresult).1

def failing : Lua Nat (Int32 × Bool) where
  rawGet := fun v => some fun _ => v
  sequenceValues := fun v => .ok [v]
  toI32 := fun v => .ok v.1
  toBool := fun v => .ok v.2
  toString := fun _ => .ok "failed"
  conversionError := fun _ _ _ => ""
  registryValue := fun _ => .ok ()
  call := fun calls _ _ _ _ => (.ok (Int32.ofNat calls, false), calls + 1)

def response (body : String) : Message := ⟨body, ⟨"GET", Request.isMethod_get⟩, "/", none⟩

def firstTooLate : List Action :=
  [.doLuaAssertion (response "a"), .doLuaAssertion (response "b"), .receive, .poll 0 true,
    .sendBack, .receive, .sendBack, .poll 1 true]

def afterwards (as : List Action) : State Nat := (run (step failing) (.start 0) as).getD (.start 0)

theorem failures_counted_once_firstTooLate :
    (afterwards firstTooLate).metrics = [.luaAssertionFailure 1 "failed"] ∧
    ∃ counted : List Nat, counted.Nodup ∧ (∀ i ∈ counted, i < 2) ∧
      (afterwards firstTooLate).metrics =
        counted.flatMap (failuresOf failing 0 [response "a", response "b"]) :=
  ⟨by decide, failures_counted_once failing 0 firstTooLate (afterwards firstTooLate) rfl⟩

/-- Whoever has waited for fifty milliseconds has been answered by then, and the function of
the chunks does not bring the task down. -/
def InTime (s : State σ) : Action → Prop
  | .poll i true => s.executor.replies[i]? ≠ some .pending
  | .panic => False
  | _ => True

instance (s : State σ) : ∀ a, Decidable (InTime s a)
  | .poll _ true => inferInstanceAs (Decidable (_ ≠ _))
  | .panic => isFalse id
  | .poll _ false => isTrue trivial
  | .doLuaAssertion _ => isTrue trivial
  | .receive => isTrue trivial
  | .sendBack => isTrue trivial
  | .dropSenders => isTrue trivial
  | .finish => isTrue trivial

def isWaiting {R : Type} : Mailbox.Reply R → Bool
  | .taken _ => false
  | .abandoned => false
  | _ => true

structure Attended (s : State σ) : Prop where
  alive : s.executor.alive = true ∨ s.closed = true
  kept : Mailbox.Kept s.executor

theorem Attended.perform {b : Mailbox.Action Message} (hs : Attended s)
    (h : s.perform lua b = some t) (hb : b.Keeps s.executor) (hcrash : b ≠ .crash) :
    Attended t := by
  obtain ⟨executor, hexecutor, rfl⟩ := Option.map_eq_some_iff.mp h
  exact ⟨Mailbox.alive_step hexecutor hcrash ▸ hs.alive, hs.kept.step hexecutor hb⟩

theorem Attended.step (hs : Attended s) (ha : InTime s a) (h : step lua s a = some t) :
    Attended t := by
  cases a with
  | doLuaAssertion message =>
    simp only [LuaExecutor.step] at h
    split at h
    · cases h
    · rename_i hopen
      exact hs.perform h (hs.alive.resolve_right hopen) (by simp)
  | receive => exact hs.perform h trivial (by simp)
  | sendBack => exact hs.perform h trivial (by simp)
  | poll i elapsed =>
    simp only [LuaExecutor.step] at h
    split at h
    · obtain ⟨u, hu, rfl⟩ := Option.map_eq_some_iff.mp h
      have htaken : Attended u := hs.perform hu trivial (by simp)
      exact ⟨htaken.alive, htaken.kept⟩
    · rename_i hi
      exact absurd rfl (hs.kept _ (List.mem_of_getElem? hi)).1
    · rename_i hi
      cases elapsed with
      | true => exact absurd hi ha
      | false =>
        cases h
        exact hs
    · cases h
  | dropSenders =>
    cases h
    exact ⟨.inr rfl, hs.kept⟩
  | finish =>
    simp only [LuaExecutor.step] at h
    split at h
    · rename_i hidle
      obtain ⟨executor, hexecutor, rfl⟩ := Option.map_eq_some_iff.mp h
      exact ⟨.inr hidle.1, hs.kept.step hexecutor (List.isEmpty_iff.mp hidle.2)⟩
    · cases h
  | panic => exact ha.elim

theorem attended_run {as : List Action}
    (has : Meets (step lua) (fun _ s a => InTime s a) (.start memory) as)
    (h : run (step lua) (.start memory) as = some s) : Attended s := by
  refine (has.always (P := fun _ s => Attended s)
    ⟨.inl rfl, by simp [State.start, Mailbox.State.start, Mailbox.Kept]⟩ ?_).last h
  exact fun _ _ _ _ hs ha h => hs.step ha h

/-- If every call that is polled after its fifty milliseconds finds its answer and the task does
not panic, then once nobody is waiting any more exactly the failures of all responses have been
counted. -/
theorem failures_all_counted (lua : Lua σ V) (memory : σ) (as : List Action) (s : State σ)
    (has : Meets (step lua) (fun _ s a => InTime s a) (.start memory) as)
    (hrun : run (step lua) (.start memory) as = some s)
    (hreturned : ∀ reply ∈ s.executor.replies, isWaiting reply = false) :
    s.metrics.Perm
      ((Mailbox.answers (verdict lua) memory (asserted as)).flatMap failures) := by
  obtain ⟨⟨bs, hbs, hasked⟩, counted, hcounted⟩ := run_executor hrun
  have hkept := (attended_run has hrun).kept
  have hlength : s.executor.replies.length = (asserted as).length := by
    rw [Mailbox.length_replies hbs, hasked]
  have hperm : counted.Perm (List.range (asserted as).length) := by
    refine (List.perm_ext_iff_of_nodup hcounted.nodup List.nodup_range).mpr fun i => ?_
    rw [hcounted.taken i, List.mem_range, ← hlength]
    constructor
    · rintro ⟨result, hresult⟩
      exact (List.getElem?_eq_some_iff.mp hresult).1
    · intro hi
      have hmem := List.getElem_mem hi
      have hwaiting := hreturned _ hmem
      have habandoned := (hkept _ hmem).2
      rw [List.getElem?_eq_getElem hi]
      cases hreply : s.executor.replies[i] with
      | taken result => exact ⟨result, rfl⟩
      | abandoned => exact absurd hreply habandoned
      | _ =>
        rw [hreply] at hwaiting
        cases hwaiting
  have hall : (List.range (asserted as).length).flatMap (failuresOf lua memory (asserted as)) =
      (Mailbox.answers (verdict lua) memory (asserted as)).flatMap failures := by
    rw [← Mailbox.flatMap_range_length
      (Mailbox.answers (verdict lua) memory (asserted as)) failures, Mailbox.length_answers]
    rfl
  rw [hcounted.metrics_eq hbs, hasked, ← hall]
  exact hperm.flatMap_right _

def bothInTime : List Action :=
  [.doLuaAssertion (response "a"), .doLuaAssertion (response "b"), .receive, .poll 0 false,
    .sendBack, .receive, .sendBack, .poll 1 false, .dropSenders, .finish, .poll 0 true]

theorem failures_all_counted_bothInTime :
    (afterwards bothInTime).metrics =
      [.luaAssertionFailure 1 "failed", .luaAssertionFailure 0 "failed"] ∧
    (afterwards bothInTime).metrics.Perm
      [.luaAssertionFailure 0 "failed", .luaAssertionFailure 1 "failed"] :=
  ⟨by decide, failures_all_counted failing 0 bothInTime (afterwards bothInTime) (by decide) rfl
    (by decide)⟩

end Run

end Overload.LuaExecutor
