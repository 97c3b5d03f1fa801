import Mathlib.Data.List.Nodup

namespace Overload.Fifo

variable {α : Type} {joined l l' : List α} {k : Nat} {x y : α}

def Ahead (l : List α) (x y : α) : Prop :=
  ∃ i j : Nat, i < j ∧ l[i]? = some x ∧ l[j]? = some y

/-- Some join, then some leave at the back and `k` at the front. -/
def Shifts (k : Nat) (joined l l' : List α) : Prop := ∃ m, l' = ((l ++ joined).take m).drop k

namespace Shifts

theorem refl (l : List α) : Shifts 0 [] l l := ⟨l.length, by simp⟩

theorem join (joined l : List α) : Shifts 0 joined l (l ++ joined) :=
  ⟨(l ++ joined).length, by rw [List.take_length, List.drop_zero]⟩

theorem drop (k : Nat) (l : List α) : Shifts k [] l (l.drop k) := ⟨l.length, by simp⟩

theorem getElem? (h : Shifts k joined l l') {i : Nat} (hi : l'[i]? = some x) :
    (l ++ joined)[k + i]? = some x := by
  obtain ⟨m, rfl⟩ := h
  rw [List.getElem?_drop, List.getElem?_take] at hi
  split at hi
  · exact hi
  · cases hi

theorem subset (h : Shifts k joined l l') : l' ⊆ l ++ joined := by
  intro x hx
  obtain ⟨i, hi⟩ := List.mem_iff_getElem?.mp hx
  exact List.mem_iff_getElem?.mpr ⟨k + i, h.getElem? hi⟩

variable [DecidableEq α]

theorem idxOf_add (h : Shifts k joined l l') (hnodup : (l ++ joined).Nodup) (hx : x ∈ l)
    (hx' : x ∈ l') : l'.idxOf x + k = l.idxOf x := by
  have hi := h.getElem? (List.getElem?_idxOf hx')
  have hold : (l ++ joined)[l.idxOf x]? = some x := by
    rw [List.getElem?_append_left (List.idxOf_lt_length_iff.mpr hx)]
    exact List.getElem?_idxOf hx
  have hlt := (List.getElem?_eq_some_iff.mp hold).1
  have heq := (List.getElem?_inj hlt hnodup).mp (hold.trans hi.symm)
  omega

theorem take_subset (h : Shifts k joined l l') (hnodup : (l ++ joined).Nodup) (hx : x ∈ l)
    (hx' : x ∈ l') : l'.take (l'.idxOf x) ⊆ l.take (l.idxOf x) := by
  have hadd := h.idxOf_add hnodup hx hx'
  have hlt := List.idxOf_lt_length_iff.mpr hx
  intro y hy
  obtain ⟨i, hi⟩ := List.mem_iff_getElem?.mp hy
  rw [List.getElem?_take] at hi
  split at hi
  · have hold := h.getElem? hi
    rw [List.getElem?_append_left (by omega)] at hold
    refine List.mem_iff_getElem?.mpr ⟨k + i, ?_⟩
    rw [List.getElem?_take, if_pos (by omega)]
    exact hold
  · cases hi

theorem front_subset (h : Shifts k joined l l') (hnodup : (l ++ joined).Nodup) (hx : x ∈ l)
    (hx' : x ∈ l') : (l ++ joined).take k ⊆ l.take (l.idxOf x) := by
  have hadd := h.idxOf_add hnodup hx hx'
  have hlt := List.idxOf_lt_length_iff.mpr hx
  have htake : l.take k = (l.take (l.idxOf x)).take k := by
    rw [List.take_take, Nat.min_eq_left (by omega)]
  rw [List.take_append_of_le_length (by omega), htake]
  exact List.take_subset _ _

theorem ahead_of_joined (h : Shifts k joined l l') (hnodup : (l ++ joined).Nodup) (hx : x ∈ l)
    (hx' : x ∈ l') (hy : y ∉ l) (hy' : y ∈ l') : Ahead l' x y := by
  have hadd := h.idxOf_add hnodup hx hx'
  have hlt := List.idxOf_lt_length_iff.mpr hx
  obtain ⟨j, hj⟩ := List.mem_iff_getElem?.mp hy'
  have hlength : l.length ≤ k + j := by
    by_contra hless
    have hold := h.getElem? hj
    rw [List.getElem?_append_left (by omega)] at hold
    exact hy (List.mem_iff_getElem?.mpr ⟨_, hold⟩)
  exact ⟨l'.idxOf x, j, by omega, List.getElem?_idxOf hx', hj⟩

end Shifts

theorem Ahead.not_mem_take [DecidableEq α] (h : Ahead l x y) (hnodup : l.Nodup) :
    y ∉ l.take (l.idxOf x) := by
  obtain ⟨i, j, hij, hi, hj⟩ := h
  have hx : l.idxOf x = i := by
    have hmem := List.mem_iff_getElem?.mpr ⟨i, hi⟩
    exact (List.getElem?_inj (List.idxOf_lt_length_iff.mpr hmem) hnodup).mp
      ((List.getElem?_idxOf hmem).trans hi.symm)
  intro hy
  obtain ⟨n, hn⟩ := List.mem_iff_getElem?.mp hy
  rw [List.getElem?_take] at hn
  split at hn
  · have hlt := (List.getElem?_eq_some_iff.mp hj).1
    have heq := (List.getElem?_inj hlt hnodup).mp (hj.trans hn.symm)
    omega
  · cases hn

end Overload.Fifo
