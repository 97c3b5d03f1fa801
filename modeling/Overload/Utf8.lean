import Mathlib.Algebra.BigOperators.Group.List.Basic
import Mathlib.Algebra.GroupWithZero.Nat

namespace Overload.Utf8

def utf8Len (s : List Char) : Nat := (s.map Char.utf8Size).sum

def splitAt? : List Char → Nat → Option (List Char × List Char)
  | s, 0 => some ([], s)
  | [], _ + 1 => none
  | c :: s, n + 1 =>
    if c.utf8Size ≤ n + 1 then
      (splitAt? s (n + 1 - c.utf8Size)).map fun parts => (c :: parts.1, parts.2)
    else none

def slice (s : List Char) (start stop : Nat) : Option (List Char) :=
  if start ≤ stop then do
    let (_, rest) ← splitAt? s start
    let (middle, _) ← splitAt? rest (stop - start)
    return middle
  else none

def replaceRange (s : List Char) (start stop : Nat) (text : List Char) : Option (List Char) :=
  if start ≤ stop then do
    let (front, rest) ← splitAt? s start
    let (_, back) ← splitAt? rest (stop - start)
    return front ++ text ++ back
  else none

variable {s front middle back text : List Char} {start stop : Nat}

@[simp] theorem utf8Len_nil : utf8Len [] = 0 := rfl

@[simp] theorem utf8Len_cons (c : Char) : utf8Len (c :: s) = c.utf8Size + utf8Len s := by
  simp [utf8Len]

@[simp] theorem utf8Len_append : utf8Len (front ++ back) = utf8Len front + utf8Len back := by
  simp [utf8Len]

theorem utf8Len_replicate (n : Nat) (c : Char) :
    utf8Len (List.replicate n c) = n * c.utf8Size := by
  simp [utf8Len]

theorem splitAt?_append : splitAt? (front ++ back) (utf8Len front) = some (front, back) := by
  induction front with
  | nil => cases back <;> rfl
  | cons c front ih =>
    have hc := Char.utf8Size_pos c
    obtain ⟨n, hn⟩ : ∃ n, utf8Len (c :: front) = n + 1 :=
      ⟨utf8Len (c :: front) - 1, by rw [utf8Len_cons]; omega⟩
    rw [utf8Len_cons] at hn
    rw [utf8Len_cons, hn, List.cons_append, splitAt?, if_pos (by omega),
      show n + 1 - c.utf8Size = utf8Len front by omega, ih, Option.map_some]

theorem splitAt?_eq_some (h : splitAt? s start = some (front, back)) :
    front ++ back = s ∧ utf8Len front = start := by
  induction s generalizing start front with
  | nil =>
    cases start with
    | zero =>
      cases h
      exact ⟨rfl, rfl⟩
    | succ n => cases h
  | cons c s ih =>
    cases start with
    | zero =>
      cases h
      exact ⟨rfl, rfl⟩
    | succ n =>
      rw [splitAt?] at h
      split at h
      · obtain ⟨⟨front', back'⟩, hparts, heq⟩ := Option.map_eq_some_iff.mp h
        cases heq
        obtain ⟨rfl, hlen⟩ := ih hparts
        refine ⟨rfl, ?_⟩
        rw [utf8Len_cons, hlen]
        omega
      · cases h

theorem slice_append (hstart : utf8Len front = start) (hstop : start + utf8Len middle = stop) :
    slice (front ++ (middle ++ back)) start stop = some middle := by
  subst hstart hstop
  rw [slice, if_pos (Nat.le_add_right _ _), splitAt?_append, Nat.add_sub_cancel_left]
  simp only [Option.bind_eq_bind, Option.bind_some, splitAt?_append]
  rfl

theorem replaceRange_append (hstart : utf8Len front = start)
    (hstop : start + utf8Len middle = stop) :
    replaceRange (front ++ (middle ++ back)) start stop text = some (front ++ text ++ back) := by
  subst hstart hstop
  rw [replaceRange, if_pos (Nat.le_add_right _ _), splitAt?_append, Nat.add_sub_cancel_left]
  simp only [Option.bind_eq_bind, Option.bind_some, splitAt?_append]
  rfl

theorem replaceRange_eq_some {result : List Char}
    (h : replaceRange s start stop text = some result) :
    ∃ front middle back, s = front ++ (middle ++ back) ∧ result = front ++ text ++ back ∧
      utf8Len front = start ∧ start + utf8Len middle = stop := by
  rw [replaceRange] at h
  split at h
  · obtain ⟨⟨front, rest⟩, hfront, h⟩ := Option.bind_eq_some_iff.mp h
    obtain ⟨⟨middle, back⟩, hmiddle, h⟩ := Option.bind_eq_some_iff.mp h
    cases h
    obtain ⟨rfl, hstart⟩ := splitAt?_eq_some hfront
    obtain ⟨rfl, hstop⟩ := splitAt?_eq_some hmiddle
    exact ⟨front, middle, back, rfl, rfl, hstart, by omega⟩
  · cases h

end Overload.Utf8
