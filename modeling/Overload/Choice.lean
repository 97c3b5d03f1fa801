import Mathlib.Data.List.Basic

/-! Programs that ask for choices and are answered from a list.  A run ends with a value, with a
panic, at the end of the list, or at an answer that cannot be one to what is asked.  `Ensures` is
about every list of answers; `Yields` is about those that lead to a value; `Refutes` says that some
answers lead to a panic or to a value outside the postcondition, whatever follows them; `Within`
bounds the number of questions. -/

namespace Overload

inductive Halt
  | panic
  | unanswered
  | refused
  deriving DecidableEq, Repr

abbrev Choice (δ : Type) := StateT (List δ) (Except Halt)

namespace Choice

variable {δ α β : Type}

def panic : Choice δ α := fun _ => .error .panic

def ask (accept : δ → Option α) : Choice δ α
  | [] => .error .unanswered
  | d :: answers =>
    match accept d with
    | some x => .ok (x, answers)
    | none => .error .refused

def unwrap : Option α → Choice δ α
  | some x => pure x
  | none => panic

def repeated (program : Choice δ α) : Nat → Choice δ (List α)
  | 0 => pure []
  | n + 1 => do
    let x ← program
    let xs ← repeated program n
    return x :: xs

def Ensures (program : Choice δ α) (post : α → Prop) : Prop :=
  ∀ answers, match program answers with
    | .ok (x, _) => post x
    | .error halt => halt ≠ .panic

def Yields (program : Choice δ α) (post : α → Prop) : Prop :=
  ∀ answers x rest, program answers = .ok (x, rest) → post x

def Within (program : Choice δ α) (n : Nat) : Prop :=
  ∀ answers, match program answers with
    | .ok (_, rest) => answers.length ≤ rest.length + n
    | .error halt => halt = .unanswered → answers.length < n

def Refutes (program : Choice δ α) (post : α → Prop) : Prop :=
  ∃ answers, (∀ rest, program (answers ++ rest) = .error .panic) ∨
    ∃ x, ¬ post x ∧ ∀ rest, program (answers ++ rest) = .ok (x, rest)

variable {program : Choice δ α} {next : α → Choice δ β} {post post' : α → Prop} {post₂ : β → Prop}
  {x : α} {accept : δ → Option α}

theorem bind_apply (program : Choice δ α) (next : α → Choice δ β) (answers : List δ) :
    (program >>= next) answers =
      match program answers with
      | .ok (x, rest) => next x rest
      | .error halt => .error halt := by
  change (program answers >>= fun p => next p.1 p.2) = _
  cases program answers <;> rfl

theorem Ensures.mono (h : program.Ensures post) (hpost : ∀ x, post x → post' x) :
    program.Ensures post' := by
  intro answers
  have := h answers
  cases hrun : program answers with
  | error halt => simpa [hrun] using this
  | ok result =>
    rw [hrun] at this
    exact hpost _ this

theorem Ensures.pure (h : post x) : Ensures (pure x : Choice δ α) post := fun _ => h

theorem Ensures.bind (h : program.Ensures post) (hnext : ∀ x, post x → (next x).Ensures post₂) :
    (program >>= next).Ensures post₂ := by
  intro answers
  have := h answers
  rw [bind_apply]
  cases hrun : program answers with
  | error halt => simpa [hrun] using this
  | ok result =>
    rw [hrun] at this
    exact hnext _ this result.2

theorem Ensures.ask (h : ∀ d x, accept d = some x → post x) : (ask accept).Ensures post := by
  intro answers
  cases answers with
  | nil => simp [Choice.ask]
  | cons d answers =>
    rw [Choice.ask]
    cases hd : accept d with
    | none => simp
    | some x => exact h d x hd

theorem Ensures.repeated {n : Nat} (h : 0 < n → program.Ensures post) :
    (program.repeated n).Ensures fun xs => ∀ x ∈ xs, post x := by
  induction n with
  | zero => exact .pure (by simp)
  | succ n ih =>
    have hprogram := h (Nat.succ_pos n)
    refine hprogram.bind fun x hx => (ih fun _ => hprogram).bind fun xs hxs => .pure ?_
    exact List.forall_mem_cons.mpr ⟨hx, hxs⟩

theorem Ensures.not_refutes (h : program.Ensures post) : ¬ program.Refutes post := by
  rintro ⟨answers, hpanic | ⟨x, hx, hrun⟩⟩
  · have := h (answers ++ [])
    rw [hpanic] at this
    exact this rfl
  · have := h (answers ++ [])
    rw [hrun] at this
    exact hx this

theorem Yields.mono (h : program.Yields post) (hpost : ∀ x, post x → post' x) :
    program.Yields post' :=
  fun answers x rest hrun => hpost x (h answers x rest hrun)

theorem Yields.of_forall (h : ∀ x, post x) : program.Yields post :=
  fun _ x _ _ => h x

theorem Ensures.yields (h : program.Ensures post) : program.Yields post := by
  intro answers x rest hrun
  have := h answers
  rw [hrun] at this
  exact this

theorem Ensures.and_yields (h : program.Ensures post) (h' : program.Yields post') :
    program.Ensures fun x => post x ∧ post' x := by
  intro answers
  have := h answers
  cases hrun : program answers with
  | error halt => simpa [hrun] using this
  | ok result =>
    rw [hrun] at this
    exact ⟨this, h' answers result.1 result.2 hrun⟩

theorem Yields.pure (h : post x) : Yields (pure x : Choice δ α) post :=
  Ensures.yields (.pure h)

theorem Yields.panic : Yields (panic : Choice δ α) post := by
  intro _ _ _ hrun
  cases hrun

theorem Yields.bind (h : program.Yields post) (hnext : ∀ x, post x → (next x).Yields post₂) :
    (program >>= next).Yields post₂ := by
  intro answers y rest hrun
  rw [bind_apply] at hrun
  cases hprogram : program answers with
  | error halt =>
    rw [hprogram] at hrun
    cases hrun
  | ok result =>
    rw [hprogram] at hrun
    exact hnext result.1 (h answers result.1 result.2 hprogram) result.2 y rest hrun

theorem Yields.repeated (h : program.Yields post) (n : Nat) :
    (program.repeated n).Yields fun xs => xs.length = n ∧ ∀ x ∈ xs, post x := by
  induction n with
  | zero => exact .pure (by simp)
  | succ n ih =>
    refine h.bind fun x hx => ih.bind fun xs hxs => .pure ?_
    exact ⟨congrArg (· + 1) hxs.1, List.forall_mem_cons.mpr ⟨hx, hxs.2⟩⟩

theorem Within.mono {n m : Nat} (h : program.Within n) (hle : n ≤ m) : program.Within m := by
  intro answers
  have := h answers
  cases hrun : program answers with
  | error halt =>
    rw [hrun] at this
    exact fun hhalt => Nat.lt_of_lt_of_le (this hhalt) hle
  | ok result =>
    rw [hrun] at this
    exact Nat.le_trans this (Nat.add_le_add_left hle _)

theorem Within.pure (x : α) : Within (pure x : Choice δ α) 0 := fun _ => Nat.le_refl _

theorem Within.panic : Within (panic : Choice δ α) 0 := by
  intro _ hhalt
  cases hhalt

theorem Within.unwrap (x : Option α) : Within (unwrap x : Choice δ α) 0 := by
  cases x with
  | none => exact .panic
  | some x => exact .pure x

theorem Within.ask (accept : δ → Option α) : (ask accept).Within 1 := by
  intro answers
  cases answers with
  | nil => exact fun _ => Nat.one_pos
  | cons d answers =>
    rw [Choice.ask]
    cases accept d with
    | none => simp
    | some x => simp

theorem Within.bind_of_yields {n m : Nat} (h : program.Within n) (hpost : program.Yields post)
    (hnext : ∀ x, post x → (next x).Within m) : (program >>= next).Within (n + m) := by
  intro answers
  have hprogram := h answers
  rw [bind_apply]
  cases hrun : program answers with
  | error halt =>
    rw [hrun] at hprogram
    exact fun hhalt => Nat.lt_of_lt_of_le (hprogram hhalt) (Nat.le_add_right n m)
  | ok result =>
    obtain ⟨x, rest⟩ := result
    rw [hrun] at hprogram
    have hrest := hnext x (hpost answers x rest hrun) rest
    cases hrun' : next x rest with
    | error halt =>
      simp only [hrun'] at hprogram hrest ⊢
      intro hhalt
      have := hrest hhalt
      omega
    | ok result =>
      simp only [hrun'] at hprogram hrest ⊢
      omega

theorem Within.bind {n m : Nat} (h : program.Within n) (hnext : ∀ x, (next x).Within m) :
    (program >>= next).Within (n + m) :=
  h.bind_of_yields (Yields.of_forall fun _ => trivial) fun x _ => hnext x

theorem Within.map {n : Nat} {f : α → β} (h : program.Within n) :
    (program >>= fun x => (Pure.pure (f x) : Choice δ β)).Within n :=
  h.bind fun x => .pure (f x)

theorem Within.repeated {n : Nat} (h : program.Within n) (count : Nat) :
    (program.repeated count).Within (count * n) := by
  induction count with
  | zero => exact (Within.pure []).mono (Nat.zero_le _)
  | succ count ih =>
    have hround : (program.repeated (count + 1)).Within (n + count * n) := h.bind fun x => ih.map
    exact hround.mono (Nat.le_of_eq (by rw [Nat.succ_mul, Nat.add_comm]))

/-- Answers that are not refused lead to a value, if there are enough of them, and some are not
refused. -/
structure Delivers (program : Choice δ α) (post : α → Prop) : Prop where
  settled : ∃ n, ∀ answers : List δ, n ≤ answers.length →
    program answers = .error .refused ∨ ∃ x rest, program answers = .ok (x, rest) ∧ post x
  possible : ∃ answers x, ∀ rest, program (answers ++ rest) = .ok (x, rest)

theorem Ensures.delivers {n : Nat} (h : program.Ensures post) (hwithin : program.Within n)
    (hsettles : program.Refutes fun _ => False) : program.Delivers post where
  settled := by
    refine ⟨n, fun answers hlength => ?_⟩
    have hensures := h answers
    have hwithin := hwithin answers
    cases hrun : program answers with
    | error halt =>
      rw [hrun] at hensures hwithin
      cases halt with
      | panic => exact absurd rfl hensures
      | unanswered => exact absurd hlength (Nat.not_le_of_lt (hwithin rfl))
      | refused => exact .inl rfl
    | ok result =>
      rw [hrun] at hensures
      exact .inr ⟨result.1, result.2, rfl, hensures⟩
  possible := by
    obtain ⟨answers, hpanic | ⟨x, -, hrun⟩⟩ := hsettles
    · have hensures := h (answers ++ [])
      rw [hpanic] at hensures
      exact absurd rfl hensures
    · exact ⟨answers, x, hrun⟩

theorem Refutes.mono (h : program.Refutes post) (hpost : ∀ x, post' x → post x) :
    program.Refutes post' := by
  obtain ⟨answers, hpanic | ⟨x, hx, hrun⟩⟩ := h
  · exact ⟨answers, .inl hpanic⟩
  · exact ⟨answers, .inr ⟨x, fun h => hx (hpost x h), hrun⟩⟩

theorem Refutes.of_ensures (h : program.Refutes fun _ => False) (hensures : program.Ensures post) :
    program.Refutes fun x => ¬ post x := by
  obtain ⟨answers, hpanic | ⟨x, -, hrun⟩⟩ := h
  · exact ⟨answers, .inl hpanic⟩
  · have hpost := hensures (answers ++ [])
    rw [hrun] at hpost
    exact ⟨answers, .inr ⟨x, not_not_intro hpost, hrun⟩⟩

theorem Refutes.unwrap (x : Option α) : Refutes (unwrap x : Choice δ α) fun _ => False := by
  cases x with
  | none => exact ⟨[], .inl fun _ => rfl⟩
  | some x => exact ⟨[], .inr ⟨x, id, fun _ => rfl⟩⟩

theorem Refutes.pure (h : ¬ post x) : Refutes (pure x : Choice δ α) post :=
  ⟨[], .inr ⟨x, h, fun _ => rfl⟩⟩

theorem Refutes.panic : Refutes (panic : Choice δ α) post := ⟨[], .inl fun _ => rfl⟩

theorem Refutes.ask (d : δ) (hd : accept d = some x) (hx : ¬ post x) :
    (ask accept).Refutes post :=
  ⟨[d], .inr ⟨x, hx, fun rest => by simp [Choice.ask, hd]⟩⟩

theorem Refutes.bind (h : program.Refutes post)
    (hnext : ∀ x, ¬ post x → (next x).Refutes post₂) : (program >>= next).Refutes post₂ := by
  obtain ⟨answers, hpanic | ⟨x, hx, hrun⟩⟩ := h
  · exact ⟨answers, .inl fun rest => by rw [bind_apply, hpanic]⟩
  · obtain ⟨answers', hnext'⟩ := hnext x hx
    have happend : ∀ rest, (program >>= next) (answers ++ answers' ++ rest) =
        next x (answers' ++ rest) := fun rest => by rw [bind_apply, List.append_assoc, hrun]
    refine ⟨answers ++ answers', ?_⟩
    simpa only [happend] using hnext'

theorem Refutes.repeated (h : program.Refutes fun _ => False) (n : Nat) :
    (program.repeated n).Refutes fun _ => False := by
  induction n with
  | zero => exact .pure id
  | succ n ih => exact h.bind fun _ _ => ih.bind fun _ _ => .pure id

theorem Refutes.repeated_succ (h : program.Refutes post) (hsettles : program.Refutes fun _ => False)
    (n : Nat) : (program.repeated (n + 1)).Refutes fun xs => ∀ x ∈ xs, post x :=
  h.bind fun x hx => (hsettles.repeated n).bind fun _ _ =>
    .pure fun hall => hx (hall x List.mem_cons_self)

end Choice

end Overload
