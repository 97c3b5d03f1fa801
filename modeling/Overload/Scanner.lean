import Mathlib.Data.List.TakeWhile

/-! Reading a text of symbols from a position on.  A scan that goes through is described by
the symbols that it passes. -/

namespace Overload.Scanner

variable {σ ε α β : Type}

structure Cursor (σ : Type) where
  idx : Nat
  rest : List σ
  deriving DecidableEq, Repr

namespace Cursor

def advance (c : Cursor σ) (n : Nat) : Cursor σ := ⟨c.idx + n, c.rest.drop n⟩

def upTo (p : σ → Bool) (c : Cursor σ) : List σ := c.rest.takeWhile fun b => !p b

def seek (p : σ → Bool) (c : Cursor σ) : Cursor σ := c.advance (c.upTo p).length

/-- Passing the symbols `t` leads from `c` to `d`. -/
structure Passes (c : Cursor σ) (t : List σ) (d : Cursor σ) : Prop where
  rest : c.rest = t ++ d.rest
  idx : d.idx = c.idx + t.length

variable {c d e : Cursor σ} {t u : List σ} {p : σ → Bool}

theorem Passes.trans (h : Passes c t d) (h' : Passes d u e) : Passes c (t ++ u) e where
  rest := by rw [h.rest, h'.rest, List.append_assoc]
  idx := by rw [h'.idx, h.idx, List.length_append, Nat.add_assoc]

theorem Passes.head {b : σ} (h : c.rest.head? = some b) : Passes c [b] (c.advance 1) := by
  obtain ⟨idx, rest⟩ := c
  cases rest with
  | nil => cases h
  | cons b' rest =>
    cases h
    exact ⟨rfl, rfl⟩

theorem passes_advance (h : c.rest = t ++ u) : Passes c t (c.advance t.length) :=
  ⟨by rw [advance, h, List.drop_left], rfl⟩

theorem advance_append {i : Nat} : advance ⟨i, t ++ u⟩ t.length = ⟨i + t.length, u⟩ := by
  rw [advance, List.drop_left]

theorem Passes.length_rest (h : Passes c t d) : c.rest.length = t.length + d.rest.length := by
  rw [h.rest, List.length_append]

theorem rest_seek (p : σ → Bool) (c : Cursor σ) :
    (c.seek p).rest = c.rest.dropWhile fun b => !p b := by
  have hdrop := congrArg (List.drop (c.upTo p).length)
    (List.takeWhile_append_dropWhile (p := fun b => !p b) (l := c.rest))
  rw [upTo, List.drop_left] at hdrop
  exact hdrop.symm

theorem passes_seek (p : σ → Bool) (c : Cursor σ) : Passes c (c.upTo p) (c.seek p) where
  rest := by rw [rest_seek, upTo, List.takeWhile_append_dropWhile]
  idx := rfl

theorem not_of_mem_upTo {b : σ} (h : b ∈ c.upTo p) : p b = false := by
  have hnot := List.mem_takeWhile_imp h
  rwa [Bool.not_eq_true'] at hnot

def Stops (p : σ → Bool) (rest : List σ) : Prop := ∀ b ∈ rest.head?, p b = true

theorem stops_seek (p : σ → Bool) (c : Cursor σ) : Stops p (c.seek p).rest := by
  intro b hb
  have hhead := List.head?_dropWhile_not (fun b => !p b) c.rest
  rw [← rest_seek, hb] at hhead
  exact (Bool.not_eq_false' (p b)).mp hhead

theorem upTo_append {i : Nat} {rest : List σ} (ht : ∀ b ∈ t, p b = false) (hrest : Stops p rest) :
    upTo p ⟨i, t ++ rest⟩ = t := by
  have hall : ∀ b ∈ t, (!p b) = true := fun b hb => by rw [ht b hb, Bool.not_false]
  rw [upTo, List.takeWhile_append_of_pos hall]
  cases rest with
  | nil => exact List.append_nil t
  | cons b rest =>
    have hb := hrest b rfl
    rw [List.takeWhile_cons_of_neg (by rw [hb]; decide), List.append_nil]

theorem seek_append {i : Nat} {rest : List σ} (ht : ∀ b ∈ t, p b = false) (hrest : Stops p rest) :
    seek p ⟨i, t ++ rest⟩ = ⟨i + t.length, rest⟩ := by
  rw [seek, upTo_append ht hrest, advance, List.drop_left]

end Cursor

/-- What becomes of a scan: a value and where it ends, or an error.  A recursive one may also
have been given too little fuel. -/
inductive Result (ε σ α : Type)
  | ok (value : α) (next : Cursor σ)
  | error (message : ε)
  | outOfFuel
  deriving DecidableEq, Repr

namespace Result

def bind (r : Result ε σ α) (f : α → Cursor σ → Result ε σ β) : Result ε σ β :=
  match r with
  | .ok value next => f value next
  | .error message => .error message
  | .outOfFuel => .outOfFuel

def map (f : α → β) (r : Result ε σ α) : Result ε σ β := r.bind fun value next => .ok (f value) next

theorem ok_idx {value : α} {rest : List σ} {i j : Nat} (h : i = j) :
    (ok value ⟨i, rest⟩ : Result ε σ α) = ok value ⟨j, rest⟩ := by
  rw [h]

@[simp] theorem bind_ok (value : α) (next : Cursor σ) (f : α → Cursor σ → Result ε σ β) :
    (ok value next).bind f = f value next := rfl

theorem bind_eq_ok {r : Result ε σ α} {f : α → Cursor σ → Result ε σ β} {b : β} {c : Cursor σ} :
    r.bind f = .ok b c ↔ ∃ value next, r = .ok value next ∧ f value next = .ok b c := by
  cases r with
  | ok value next =>
    simp only [bind, ok.injEq]
    constructor
    · exact fun h => ⟨value, next, ⟨rfl, rfl⟩, h⟩
    · rintro ⟨_, _, ⟨rfl, rfl⟩, h⟩
      exact h
  | error message => simp [bind]
  | outOfFuel => simp [bind]

theorem map_eq_ok {r : Result ε σ α} {f : α → β} {b : β} {c : Cursor σ} :
    r.map f = .ok b c ↔ ∃ value, r = .ok value c ∧ f value = b := by
  rw [map, bind_eq_ok]
  constructor
  · rintro ⟨value, next, hr, hb⟩
    obtain ⟨rfl, rfl⟩ := ok.inj hb
    exact ⟨value, hr, rfl⟩
  · rintro ⟨value, hr, rfl⟩
    exact ⟨value, c, hr, rfl⟩

theorem ok_ne_outOfFuel (value : α) (next : Cursor σ) :
    (ok value next : Result ε σ α) ≠ .outOfFuel := nofun

theorem error_ne_outOfFuel (message : ε) : (error message : Result ε σ α) ≠ .outOfFuel := nofun

theorem bind_ne_outOfFuel {r : Result ε σ α} {f : α → Cursor σ → Result ε σ β}
    (hr : r ≠ .outOfFuel) (hf : ∀ value next, r = .ok value next → f value next ≠ .outOfFuel) :
    r.bind f ≠ .outOfFuel := by
  cases r with
  | ok value next => exact hf value next rfl
  | error message => exact error_ne_outOfFuel message
  | outOfFuel => exact absurd rfl hr

end Result

end Overload.Scanner
