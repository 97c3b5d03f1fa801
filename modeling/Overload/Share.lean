import Mathlib.Algebra.Ring.Nat

namespace Overload.Share

variable {n k i j : Nat}

def share (n k i : Nat) : Nat := if i < n % k then n / k + 1 else n / k

def offset (n k i : Nat) : Nat := i * (n / k) + min i (n % k)

@[simp] theorem offset_zero (n k : Nat) : offset n k 0 = 0 := by simp [offset]

theorem offset_succ (n k i : Nat) : offset n k (i + 1) = offset n k i + share n k i := by
  simp only [offset, share, Nat.succ_mul]
  split <;> omega

theorem offset_self (hk : 0 < k) : offset n k k = n := by
  have hmod : n % k < k := Nat.mod_lt n hk
  rw [offset, Nat.min_eq_right (Nat.le_of_lt hmod)]
  exact Nat.div_add_mod n k

theorem offset_le_offset (h : i ≤ j) : offset n k i ≤ offset n k j := by
  induction h with
  | refl => exact Nat.le_refl _
  | step _ ih =>
    rw [offset_succ]
    exact Nat.le_add_right_of_le ih

theorem offset_le (hk : 0 < k) (h : i ≤ k) : offset n k i ≤ n :=
  calc offset n k i ≤ offset n k k := offset_le_offset h
    _ = n := offset_self hk

theorem sum_share (n k i : Nat) : ((List.range i).map (share n k)).sum = offset n k i := by
  induction i with
  | zero => simp
  | succ i ih => simp [List.range_succ, ih, offset_succ]

theorem exists_block (hk : 0 < k) {x : Nat} (hx : x < n) :
    ∃ i < k, offset n k i ≤ x ∧ x < offset n k (i + 1) := by
  -- the last block that begins at or before `x`
  have hlast : ∀ j ≤ k, offset n k j ≤ x ∨ ∃ i < j, offset n k i ≤ x ∧ x < offset n k (i + 1) := by
    intro j
    induction j with
    | zero => simp
    | succ j ih =>
      intro hj
      rcases ih (Nat.le_of_succ_le hj) with hle | ⟨i, hi, hblock⟩
      · by_cases hnext : offset n k (j + 1) ≤ x
        · exact .inl hnext
        · exact .inr ⟨j, Nat.lt_succ_self j, hle, Nat.lt_of_not_le hnext⟩
      · exact .inr ⟨i, Nat.lt_succ_of_lt hi, hblock⟩
  rcases hlast k (Nat.le_refl k) with hle | hblock
  · rw [offset_self hk] at hle
    exact absurd hx (Nat.not_lt_of_le hle)
  · exact hblock

theorem share_eq_floor_or_ceil (hk : 0 < k) (i : Nat) :
    share n k i = n / k ∨ share n k i = (n + (k - 1)) / k := by
  unfold share
  split
  · rename_i hi
    right
    have hdiv := Nat.div_add_mod n k
    have hmod := Nat.mod_lt n hk
    symm
    apply Nat.div_eq_of_lt_le
    · rw [Nat.mul_comm, Nat.mul_succ]
      omega
    · rw [Nat.mul_comm, Nat.mul_succ, Nat.mul_succ]
      omega
  · exact .inl rfl

theorem share_pos_iff (hi : i < k) : 0 < share n k i ↔ k ≤ n ∨ i < n := by
  unfold share
  by_cases hn : k ≤ n
  · have hdiv : 0 < n / k := Nat.div_pos hn (Nat.zero_lt_of_lt hi)
    simp only [hn, true_or, iff_true]
    split <;> omega
  · have hlt : n < k := Nat.lt_of_not_le hn
    rw [Nat.mod_eq_of_lt hlt, Nat.div_eq_of_lt hlt]
    split <;> omega

theorem share_of_le (hk : 0 < k) (h : k ≤ n) : 0 < share n k i := by
  have hdiv : 0 < n / k := Nat.div_pos h hk
  unfold share
  split <;> omega

end Overload.Share
