import Mathlib.Data.List.Basic
import Overload.Transition

/-! A worker that answers messages one after the other, each on a reply channel of its own
that is used once.  Whoever asks takes the reply when it is there or goes away; the worker
can die.  The answers are those of a worker without clients: what it makes of the messages
in the order in which they were sent. -/

namespace Overload.Mailbox

open Transition

variable {σ M R : Type}

/-- A reply channel: nothing has come yet; there is a result; the worker has dropped its
end; the result has been taken; the other end has been dropped. -/
inductive Reply (R : Type)
  | pending
  | sent (result : R)
  | lost
  | taken (result : R)
  | abandoned
  deriving DecidableEq, Repr

namespace Reply

def fill (result : R) : Reply R → Reply R
  | .pending => .sent result
  | reply => reply

def drop : Reply R → Reply R
  | .pending => .lost
  | reply => reply

def result : Reply R → Option R
  | .sent result => some result
  | .taken result => some result
  | _ => none

end Reply

/-- The messages carry the numbers of their reply channels. -/
structure State (σ M R : Type) where
  memory : σ
  queue : List (M × Nat)
  current : Option (M × Nat)
  alive : Bool
  replies : List (Reply R)
  deriving DecidableEq, Repr

namespace State

def start (memory : σ) : State σ M R := ⟨memory, [], none, true, []⟩

variable (s : State σ M R)

def held : List (M × Nat) := s.current.toList ++ s.queue

def ask (message : M) : State σ M R :=
  if s.alive then
    { s with
      queue := s.queue ++ [(message, s.replies.length)]
      replies := s.replies ++ [.pending] }
  else { s with replies := s.replies ++ [.lost] }

def answer (call : σ → M → R × σ) (message : M) (i : Nat) : State σ M R :=
  { s with
    memory := (call s.memory message).2
    current := none
    replies := s.replies.modify i (Reply.fill (call s.memory message).1) }

def crash : State σ M R :=
  { s with
    queue := []
    current := none
    alive := false
    replies := s.replies.mapIdx fun i reply =>
      if (s.held.map Prod.snd).contains i then reply.drop else reply }

end State

inductive Action (M : Type)
  | ask (message : M)
  | receive
  | answer
  | take (i : Nat)
  | abandon (i : Nat)
  | crash
  deriving DecidableEq, Repr

def step (call : σ → M → R × σ) (s : State σ M R) : Action M → Option (State σ M R)
  | .ask message => some (s.ask message)
  | .receive =>
    match s.current, s.queue with
    | none, next :: queue => some { s with current := some next, queue }
    | _, _ => none
  | .answer =>
    match s.current with
    | some (message, i) => some (s.answer call message i)
    | none => none
  | .take i =>
    match s.replies[i]? with
    | some (.sent result) => some { s with replies := s.replies.set i (.taken result) }
    | _ => none
  | .abandon i =>
    match s.replies[i]? with
    | some .pending => some { s with replies := s.replies.set i .abandoned }
    | some .lost => some { s with replies := s.replies.set i .abandoned }
    | _ => none
  | .crash => if s.alive then some s.crash else none

inductive Steps (call : σ → M → R × σ) (s : State σ M R) : Action M → State σ M R → Prop
  | ask (message : M) : Steps call s (.ask message) (s.ask message)
  | receive {next : M × Nat} {queue : List (M × Nat)} (hcurrent : s.current = none)
    (hqueue : s.queue = next :: queue) :
    Steps call s .receive { s with current := some next, queue }
  | answer {message : M} {i : Nat} (hcurrent : s.current = some (message, i)) :
    Steps call s .answer (s.answer call message i)
  | take {i : Nat} {result : R} (hi : s.replies[i]? = some (.sent result)) :
    Steps call s (.take i) { s with replies := s.replies.set i (.taken result) }
  | abandon {i : Nat} {reply : Reply R} (hi : s.replies[i]? = some reply)
    (hreply : reply = .pending ∨ reply = .lost) :
    Steps call s (.abandon i) { s with replies := s.replies.set i .abandoned }
  | crash (halive : s.alive = true) : Steps call s .crash s.crash

variable {call : σ → M → R × σ} {s t : State σ M R} {a : Action M} {memory : σ}

theorem Steps.of_step (h : step call s a = some t) : Steps call s a t := by
  cases a with
  | ask message =>
    cases h
    exact .ask message
  | receive =>
    simp only [step] at h
    split at h
    · cases h
      exact .receive ‹_› ‹_›
    · cases h
  | answer =>
    simp only [step] at h
    split at h
    · cases h
      exact .answer ‹_›
    · cases h
  | take i =>
    simp only [step] at h
    split at h
    · cases h
      exact .take ‹_›
    · cases h
  | abandon i =>
    simp only [step] at h
    split at h
    · cases h
      exact .abandon ‹_› (.inl rfl)
    · cases h
      exact .abandon ‹_› (.inr rfl)
    · cases h
  | crash =>
    simp only [step] at h
    split at h
    · cases h
      exact .crash ‹_›
    · cases h

def answers (call : σ → M → R × σ) : σ → List M → List R
  | _, [] => []
  | memory, message :: messages =>
    (call memory message).1 :: answers call (call memory message).2 messages

def after (call : σ → M → R × σ) (memory : σ) (messages : List M) : σ :=
  messages.foldl (fun memory message => (call memory message).2) memory

theorem answers_append (messages messages' : List M) :
    answers call memory (messages ++ messages') =
      answers call memory messages ++ answers call (after call memory messages) messages' := by
  induction messages generalizing memory with
  | nil => rfl
  | cons message messages ih => exact congrArg _ ih

@[simp] theorem length_answers (messages : List M) :
    (answers call memory messages).length = messages.length := by
  induction messages generalizing memory with
  | nil => rfl
  | cons message messages ih => exact congrArg Nat.succ ih

theorem flatMap_range_length {α β : Type} (l : List α) (f : α → List β) :
    ((List.range l.length).flatMap fun i => ((l[i]?).map f).getD []) = l.flatMap f := by
  induction l using List.reverseRecOn with
  | nil => rfl
  | append_singleton l x ih =>
    have hbefore : ∀ i ∈ List.range l.length, (((l ++ [x])[i]?).map f).getD [] =
        ((l[i]?).map f).getD [] := by
      intro i hi
      rw [List.getElem?_append_left (List.mem_range.mp hi)]
    rw [List.length_append, List.length_singleton, List.range_succ, List.flatMap_append,
      List.flatMap_congr hbefore, ih, List.flatMap_append, List.flatMap_singleton,
      List.flatMap_singleton, List.getElem?_concat_length, Option.map_some, Option.getD_some]

theorem after_concat (messages : List M) (message : M) :
    after call memory (messages ++ [message]) =
      (call (after call memory messages) message).2 := by
  rw [after, List.foldl_append]
  rfl

theorem answers_map {R' : Type} (f : R → R') (messages : List M) :
    answers (fun memory message => (f (call memory message).1, (call memory message).2)) memory
      messages = (answers call memory messages).map f := by
  induction messages generalizing memory with
  | nil => rfl
  | cons message messages ih => exact congrArg _ ih

theorem getElem?_answers {messages : List M} {n : Nat} {message : M}
    (h : messages[n]? = some message) :
    (answers call memory messages)[n]? =
      some (call (after call memory (messages.take n)) message).1 := by
  obtain ⟨hn, rfl⟩ := List.getElem?_eq_some_iff.mp h
  have hsplit : messages = messages.take n ++ messages[n] :: messages.drop (n + 1) := by
    rw [List.getElem_cons_drop, List.take_append_drop]
  have hlength : (answers call memory (messages.take n)).length = n := by
    rw [length_answers, List.length_take, Nat.min_eq_left (Nat.le_of_lt hn)]
  conv_lhs => rw [hsplit, answers_append]
  rw [List.getElem?_append_right (Nat.le_of_eq hlength), hlength, Nat.sub_self]
  rfl

def asked (as : List (Action M)) : List M :=
  as.filterMap fun a => match a with
    | .ask message => some message
    | _ => none

/-- `n` of the messages have been answered.  The worker has the others before it, each with
the number at which it was sent, until it dies; and no result is of another message. -/
structure Sequential (call : σ → M → R × σ) (memory : σ) (messages : List M) (n : Nat)
    (s : State σ M R) : Prop where
  served : n ≤ messages.length
  remembers : s.memory = after call memory (messages.take n)
  held : s.held = if s.alive then messages.zipIdx.drop n else []
  channels : s.replies.length = messages.length
  results : ∀ (i : Nat) reply result, s.replies[i]? = some reply → reply.result = some result →
    i < n ∧ (answers call memory messages)[i]? = some result
  pending : ∀ i : Nat, s.replies[i]? = some .pending → s.alive = true ∧ n ≤ i

namespace Sequential

variable {messages : List M} {n : Nat}

theorem start : Sequential call memory [] 0 (.start memory : State σ M R) where
  served := Nat.le_refl 0
  remembers := rfl
  held := rfl
  channels := rfl
  results := by simp [State.start]
  pending := by simp [State.start]

theorem getElem?_answers_concat {i : Nat} (hi : i < messages.length) (message : M) :
    (answers call memory (messages ++ [message]))[i]? = (answers call memory messages)[i]? := by
  rw [answers_append, List.getElem?_append_left (by rwa [length_answers])]

theorem ask (hs : Sequential call memory messages n s) (message : M) :
    Sequential call memory (messages ++ [message]) n (s.ask message) := by
  have hserved := hs.served
  have hresults : ∀ (i : Nat) new reply result, (s.replies ++ [new])[i]? = some reply →
      new.result = none → reply.result = some result →
      i < n ∧ (answers call memory (messages ++ [message]))[i]? = some result := by
    intro i new reply result hi hnew hresult
    rcases getElem?_concat_cases hi with hi | rfl
    · obtain ⟨hlt, hanswer⟩ := hs.results i reply result hi hresult
      exact ⟨hlt, (getElem?_answers_concat (by omega) message).trans hanswer⟩
    · rw [hnew] at hresult
      cases hresult
  have hremembers : s.memory = after call memory ((messages ++ [message]).take n) := by
    rw [List.take_append_of_le_length hserved]
    exact hs.remembers
  have hlength : n ≤ (messages ++ [message]).length := by
    rw [List.length_append]
    omega
  have hheld := hs.held
  unfold State.ask
  cases halive : s.alive with
  | true =>
    rw [halive, if_pos rfl] at hheld
    refine ⟨hlength, hremembers, ?_, by simp [hs.channels],
      fun i reply result hi => hresults i .pending reply result hi rfl, ?_⟩
    · simp only [State.held, if_true] at hheld ⊢
      rw [← List.append_assoc, hheld, hs.channels, List.zipIdx_append,
        List.drop_append_of_le_length (by rwa [List.length_zipIdx])]
      simp
    · intro i hi
      simp only [if_true, List.getElem?_append] at hi
      split at hi
      · exact ⟨rfl, (hs.pending i hi).2⟩
      · have hchannels := hs.channels
        exact ⟨rfl, by omega⟩
  | false =>
    rw [halive] at hheld
    refine ⟨hlength, hremembers, hheld, by simp [hs.channels],
      fun i reply result hi => hresults i .lost reply result hi rfl, ?_⟩
    intro i hi
    rcases getElem?_concat_cases hi with hi | hi
    · exact absurd (hs.pending i hi).1 (by simp [halive])
    · cases hi

theorem receive (hs : Sequential call memory messages n s) {next : M × Nat}
    {queue : List (M × Nat)} (hcurrent : s.current = none) (hqueue : s.queue = next :: queue) :
    Sequential call memory messages n { s with current := some next, queue } := by
  have hheld : ({ s with current := some next, queue } : State σ M R).held = s.held := by
    simp [State.held, hcurrent, hqueue]
  exact ⟨hs.served, hs.remembers, hheld.trans hs.held, hs.channels, hs.results, hs.pending⟩

theorem current (hs : Sequential call memory messages n s) {message : M} {i : Nat}
    (hcurrent : s.current = some (message, i)) :
    s.alive = true ∧ i = n ∧ messages[n]? = some message ∧
      s.queue = messages.zipIdx.drop (n + 1) := by
  have hheld := hs.held
  simp only [State.held, hcurrent, Option.toList_some, List.singleton_append] at hheld
  cases halive : s.alive with
  | false =>
    rw [halive] at hheld
    cases hheld
  | true =>
    rw [halive, if_pos rfl] at hheld
    by_cases hn : n < messages.length
    · rw [List.drop_eq_getElem_cons (by rwa [List.length_zipIdx]), List.getElem_zipIdx] at hheld
      obtain ⟨hnext, hqueue⟩ := List.cons.inj hheld
      obtain ⟨rfl, rfl⟩ := Prod.mk.inj hnext
      exact ⟨rfl, Nat.zero_add n, List.getElem?_eq_getElem hn, hqueue⟩
    · rw [List.drop_eq_nil_of_le (by rw [List.length_zipIdx]; omega)] at hheld
      cases hheld

theorem answer (hs : Sequential call memory messages n s) {message : M} {i : Nat}
    (hcurrent : s.current = some (message, i)) :
    Sequential call memory messages (n + 1) (s.answer call message i) := by
  obtain ⟨halive, rfl, hthis, hqueue⟩ := hs.current hcurrent
  have hreply : (answers call memory messages)[i]? = some (call s.memory message).1 := by
    rw [getElem?_answers hthis, hs.remembers]
  have hbefore : ∀ (j : Nat) reply result, s.replies[j]? = some reply →
      reply.result = some result →
        j < i + 1 ∧ (answers call memory messages)[j]? = some result := by
    intro j reply result hj hresult
    obtain ⟨hlt, hanswer⟩ := hs.results j reply result hj hresult
    exact ⟨Nat.lt_succ_of_lt hlt, hanswer⟩
  refine ⟨(List.getElem?_eq_some_iff.mp hthis).1, ?_, ?_, by simp [State.answer, hs.channels], ?_,
    ?_⟩
  · simp only [State.answer]
    rw [List.take_add_one, hthis, Option.toList_some, after_concat, hs.remembers]
  · simp [State.answer, State.held, halive, hqueue]
  · intro j reply result hj hresult
    simp only [State.answer, List.getElem?_modify] at hj
    obtain ⟨old, hold, rfl⟩ := Option.map_eq_some_iff.mp hj
    split at hresult
    · rename_i hij
      subst hij
      cases old with
      | pending =>
        cases hresult
        exact ⟨Nat.lt_succ_self _, hreply⟩
      | _ => exact hbefore _ _ result hold hresult
    · exact hbefore j old result hold hresult
  · intro j hj
    simp only [State.answer, List.getElem?_modify] at hj
    obtain ⟨old, hold, hpending⟩ := Option.map_eq_some_iff.mp hj
    split at hpending
    · cases old <;> cases hpending
    · subst hpending
      have hle := (hs.pending j hold).2
      exact ⟨halive, by omega⟩

theorem setReply (hs : Sequential call memory messages n s) {i : Nat} {old new : Reply R}
    (hi : s.replies[i]? = some old) (hpending : new ≠ .pending)
    (hresult : ∀ result, new.result = some result → old.result = some result) :
    Sequential call memory messages n { s with replies := s.replies.set i new } := by
  refine ⟨hs.served, hs.remembers, hs.held, by simp [hs.channels], ?_, ?_⟩
  · intro j reply result hj hreply
    rcases getElem?_set_cases hj with ⟨rfl, rfl⟩ | ⟨_, hj⟩
    · exact hs.results j old result hi (hresult result hreply)
    · exact hs.results j reply result hj hreply
  · intro j hj
    rcases getElem?_set_cases hj with ⟨_, hnew⟩ | ⟨_, hj⟩
    · exact absurd hnew.symm hpending
    · exact hs.pending j hj

theorem crash (hs : Sequential call memory messages n s) (halive : s.alive = true) :
    Sequential call memory messages n s.crash := by
  refine ⟨hs.served, hs.remembers, rfl, by simp [State.crash, hs.channels], ?_, ?_⟩
  · intro j reply result hj hresult
    simp only [State.crash, List.getElem?_mapIdx] at hj
    obtain ⟨old, hold, rfl⟩ := Option.map_eq_some_iff.mp hj
    refine hs.results j old result hold ?_
    split at hresult
    · cases old <;> exact hresult
    · exact hresult
  · intro j hj
    simp only [State.crash, List.getElem?_mapIdx] at hj
    obtain ⟨old, hold, hpending⟩ := Option.map_eq_some_iff.mp hj
    split at hpending
    · cases old <;> cases hpending
    · rename_i hheld
      subst hpending
      -- its message was held by the worker
      have hle := (hs.pending j hold).2
      have hlt : j < messages.length := by
        rw [← hs.channels]
        exact (List.getElem?_eq_some_iff.mp hold).1
      rw [hs.held, halive, if_pos rfl, List.map_drop, List.zipIdx_map_snd, List.drop_range',
        List.contains_iff_mem, List.mem_range'_1] at hheld
      omega

theorem quiet (hs : Sequential call memory messages n s) (ha : ∀ message, a ≠ .ask message)
    (h : step call s a = some t) : ∃ n', Sequential call memory messages n' t := by
  cases Steps.of_step h with
  | ask message => exact absurd rfl (ha message)
  | receive hcurrent hqueue => exact ⟨n, hs.receive hcurrent hqueue⟩
  | answer hcurrent => exact ⟨n + 1, hs.answer hcurrent⟩
  | take hi => exact ⟨n, hs.setReply hi (by simp) fun _ => id⟩
  | abandon hi _ => exact ⟨n, hs.setReply hi (by simp) (by simp [Reply.result])⟩
  | crash halive => exact ⟨n, hs.crash halive⟩

end Sequential

theorem asked_ask (past : List (Action M)) (message : M) :
    asked (past ++ [.ask message]) = asked past ++ [message] := by
  simp [asked]

theorem asked_concat (past : List (Action M)) (ha : ∀ message, a ≠ .ask message) :
    asked (past ++ [a]) = asked past := by
  cases a with
  | ask message => exact absurd rfl (ha message)
  | _ => simp [asked]

/-- In every run each result is the one that the worker alone would give to its message. -/
theorem sequential_run {as : List (Action M)} (h : run (step call) (.start memory) as = some s) :
    ∃ n, Sequential call memory (asked as) n s := by
  induction as using List.reverseRecOn generalizing s with
  | nil =>
    cases h
    exact ⟨0, .start⟩
  | append_singleton as a ih =>
    obtain ⟨u, hu, hstep⟩ := run_concat_eq_some.mp h
    obtain ⟨n, hs⟩ := ih hu
    by_cases ha : ∃ message, a = .ask message
    · obtain ⟨message, rfl⟩ := ha
      cases hstep
      exact ⟨n, asked_ask as message ▸ hs.ask message⟩
    · have ha : ∀ message, a ≠ .ask message := fun message h => ha ⟨message, h⟩
      rw [asked_concat as ha]
      exact hs.quiet ha hstep

theorem taken_iff (h : step call s a = some t) {i : Nat} {result : R} :
    t.replies[i]? = some (.taken result) ↔
      s.replies[i]? = some (.taken result) ∨ a = .take i ∧ s.replies[i]? = some (.sent result) := by
  cases Steps.of_step h with
  | ask message =>
    unfold State.ask
    split <;>
    · simp only [List.getElem?_append, reduceCtorEq, false_and, or_false]
      split
      · rfl
      · rename_i hlt
        rw [List.getElem?_eq_none (Nat.le_of_not_lt hlt), List.getElem?_singleton]
        split <;> simp
  | receive _ _ => simp
  | @answer message k _ =>
    simp only [State.answer, List.getElem?_modify, reduceCtorEq, false_and, or_false]
    cases s.replies[i]? with
    | none => simp
    | some reply => cases reply <;> by_cases hk : k = i <;> simp [hk, Reply.fill]
  | @take k taken hk =>
    by_cases hki : k = i
    · subst hki
      rw [List.getElem?_set_self (List.getElem?_eq_some_iff.mp hk).1, hk]
      simp [eq_comm]
    · simp [List.getElem?_set_ne hki, hki]
  | @abandon k reply hk hreply =>
    by_cases hki : k = i
    · subst hki
      rw [List.getElem?_set_self (List.getElem?_eq_some_iff.mp hk).1, hk]
      rcases hreply with rfl | rfl <;> simp
    · simp [List.getElem?_set_ne hki]
  | crash _ =>
    simp only [State.crash, List.getElem?_mapIdx, reduceCtorEq, false_and, or_false]
    generalize (s.held.map Prod.snd).contains i = isHeld
    cases s.replies[i]? with
    | none => simp
    | some reply => cases isHeld <;> cases reply <;> simp [Reply.drop]

def Action.Keeps (s : State σ M R) : Action M → Prop
  | .ask _ => s.alive = true
  | .abandon _ => False
  | .crash => s.held = []
  | _ => True

def Kept (s : State σ M R) : Prop := ∀ reply ∈ s.replies, reply ≠ .lost ∧ reply ≠ .abandoned

theorem Kept.step (hs : Kept s) (h : Mailbox.step call s a = some t) (ha : a.Keeps s) :
    Kept t := by
  cases Steps.of_step h with
  | ask message =>
    have halive : s.alive = true := ha
    rw [State.ask, if_pos halive]
    intro reply hreply
    rcases List.mem_append.mp hreply with hreply | hreply
    · exact hs reply hreply
    · simp [List.mem_singleton.mp hreply]
  | receive _ _ => exact hs
  | answer _ =>
    intro reply hreply
    obtain ⟨j, hj⟩ := List.mem_iff_getElem?.mp hreply
    simp only [State.answer, List.getElem?_modify] at hj
    obtain ⟨old, hold, rfl⟩ := Option.map_eq_some_iff.mp hj
    have hkept := hs old (List.mem_of_getElem? hold)
    split
    · cases old <;> simp_all [Reply.fill]
    · exact hkept
  | take _ =>
    intro reply hreply
    rcases List.mem_or_eq_of_mem_set hreply with hreply | rfl
    · exact hs reply hreply
    · simp
  | abandon _ _ => exact ha.elim
  | crash _ =>
    have hheld : s.held = [] := ha
    have hreplies : s.crash.replies = s.replies :=
      List.ext_getElem? fun i => by simp [State.crash, hheld]
    rw [Kept, hreplies]
    exact hs

theorem alive_step (h : step call s a = some t) (ha : a ≠ .crash) : t.alive = s.alive := by
  cases Steps.of_step h with
  | ask message =>
    rw [State.ask]
    split <;> rfl
  | crash _ => exact absurd rfl ha
  | _ => rfl

theorem length_replies {as : List (Action M)} (h : run (step call) (.start memory) as = some s) :
    s.replies.length = (asked as).length := by
  obtain ⟨n, hs⟩ := sequential_run h
  exact hs.channels

end Overload.Mailbox
