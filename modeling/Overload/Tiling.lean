import Mathlib.Data.List.Chain

namespace Overload.Tiling

variable {α : Type} (first last : α → Nat)

structure Tiles (start : Nat) (xs : List α) : Prop where
  head : ∀ x ∈ xs.head?, first x = start
  chain : xs.IsChain fun a b => first b = last a + 1
  nonempty : ∀ x ∈ xs, first x ≤ last x

def covers (i : Nat) (x : α) : Bool := first x ≤ i && i ≤ last x

variable {first last} {start i k : Nat} {xs : List α} {x y z : α}

theorem covers_iff : covers first last i x = true ↔ first x ≤ i ∧ i ≤ last x := by
  simp [covers]

theorem tiles_cons : Tiles first last start (x :: xs) ↔
    first x = start ∧ first x ≤ last x ∧ Tiles first last (last x + 1) xs := by
  constructor
  · rintro ⟨hhead, hchain, hnonempty⟩
    obtain ⟨hx, hxs⟩ := List.forall_mem_cons.mp hnonempty
    obtain ⟨hnext, hchain⟩ := List.isChain_cons.mp hchain
    exact ⟨hhead x rfl, hx, hnext, hchain, hxs⟩
  · rintro ⟨hstart, hx, hhead, hchain, hnonempty⟩
    refine ⟨?_, List.isChain_cons.mpr ⟨hhead, hchain⟩, List.forall_mem_cons.mpr ⟨hx, hnonempty⟩⟩
    rintro _ ⟨⟩
    exact hstart

theorem Tiles.le_first (h : Tiles first last start xs) (hx : x ∈ xs) : start ≤ first x := by
  induction xs generalizing start with
  | nil => cases hx
  | cons y ys ih =>
    obtain ⟨hstart, hy, hys⟩ := tiles_cons.mp h
    rcases List.mem_cons.mp hx with rfl | hx
    · exact Nat.le_of_eq hstart.symm
    · have := ih hys hx
      omega

theorem Tiles.pairwise (h : Tiles first last start xs) :
    xs.Pairwise fun a b => last a < first b := by
  induction xs generalizing start with
  | nil => exact .nil
  | cons y ys ih =>
    obtain ⟨_, _, hys⟩ := tiles_cons.mp h
    exact List.pairwise_cons.mpr ⟨fun x hx => hys.le_first hx, ih hys⟩

theorem Tiles.exists_covers (h : Tiles first last start xs) (hlast : xs.getLast? = some z)
    (hstart : start ≤ i) (hi : i ≤ last z) : ∃ x ∈ xs, covers first last i x = true := by
  induction xs generalizing start with
  | nil => cases hlast
  | cons y ys ih =>
    obtain ⟨rfl, _, hys⟩ := tiles_cons.mp h
    by_cases hy : i ≤ last y
    · exact ⟨y, List.mem_cons_self, covers_iff.mpr ⟨hstart, hy⟩⟩
    · cases ys with
      | nil =>
        cases hlast
        exact absurd hi hy
      | cons _ _ =>
        rw [List.getLast?_cons_cons] at hlast
        obtain ⟨x, hx, hcovers⟩ := ih hys hlast (by omega)
        exact ⟨x, List.mem_cons_of_mem _ hx, hcovers⟩

theorem Tiles.last_le (h : Tiles first last start xs) (hlast : xs.getLast? = some z)
    (hx : x ∈ xs) : last x ≤ last z := by
  obtain ⟨ys, rfl⟩ := List.getLast?_eq_some_iff.mp hlast
  rcases List.mem_append.mp hx with hx | hx
  · have hlt := (List.pairwise_append.mp h.pairwise).2.2 x hx z List.mem_cons_self
    have := h.nonempty z (by simp)
    omega
  · rw [List.mem_singleton.mp hx]

theorem Tiles.find?_eq (h : Tiles first last start xs) (hx : x ∈ xs)
    (hcovers : covers first last i x = true) : xs.find? (covers first last i) = some x := by
  induction xs generalizing start with
  | nil => cases hx
  | cons y ys ih =>
    obtain ⟨_, _, hys⟩ := tiles_cons.mp h
    rcases List.mem_cons.mp hx with rfl | hx
    · exact List.find?_cons_of_pos hcovers
    · have hy : ¬ covers first last i y = true := by
        have := hys.le_first hx
        rw [covers_iff] at hcovers ⊢
        omega
      rw [List.find?_cons_of_neg hy, ih hys hx]

theorem Tiles.find?_eq_none (h : Tiles first last start xs) (hlast : xs.getLast? = some z)
    (hi : last z < i) : xs.find? (covers first last i) = none := by
  refine List.find?_eq_none.mpr fun x hx => ?_
  have := h.last_le hlast hx
  rw [covers_iff]
  omega

theorem Tiles.next (h : Tiles first last start xs) (hx : xs[k]? = some x)
    (hy : xs[k + 1]? = some y) : first y = last x + 1 := by
  obtain ⟨hk, rfl⟩ := List.getElem?_eq_some_iff.mp hy
  obtain ⟨_, rfl⟩ := List.getElem?_eq_some_iff.mp hx
  exact List.isChain_iff_getElem.mp h.chain k hk

end Overload.Tiling
