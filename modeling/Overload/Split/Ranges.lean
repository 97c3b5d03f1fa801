import Overload.Share

/-! `split_ranges` (`cluster-executor/src/split_request.rs`): the rows of a request
file, one range for each secondary.  Ranges count from one and include both ends. -/

namespace Overload.Split

open Share

def pushSplit (size width : Nat) : List (Nat × Nat) × Nat → List (Nat × Nat) × Nat
  | (splits, lastEnd) =>
    let newEnd := min size (lastEnd + width)
    (splits ++ [(min (lastEnd + 1) size, newEnd)], newEnd)

def splitRanges (size splitSize : Nat) : Option (List (Nat × Nat)) :=
  -- both divisions panic when there is nobody to divide among
  if splitSize = 0 then none
  else
    let blockSize := size / splitSize
    let remainder := size % splitSize
    let longer := Nat.repeat (pushSplit size (blockSize + 1)) remainder ([], 0)
    some (Nat.repeat (pushSplit size blockSize) (splitSize - remainder) longer).1

variable {s k : Nat}

def block (s k i : Nat) : Nat × Nat := (min (offset s k i + 1) s, offset s k (i + 1))

def pushed (s k i : Nat) : List (Nat × Nat) × Nat := ((List.range i).map (block s k), offset s k i)

theorem pushSplit_pushed (hk : 0 < k) {i : Nat} (hi : i < k) :
    pushSplit s (share s k i) (pushed s k i) = pushed s k (i + 1) := by
  have hle : offset s k (i + 1) ≤ s := offset_le hk hi
  rw [offset_succ] at hle
  simp only [pushSplit, pushed, Nat.min_eq_right hle, List.range_succ, List.map_append,
    List.map_cons, List.map_nil, block, offset_succ]

theorem pushSplit_repeat (hk : 0 < k) {width i : Nat} (n : Nat) (hle : i + n ≤ k)
    (hwidth : ∀ j, i ≤ j → j < i + n → share s k j = width) :
    Nat.repeat (pushSplit s width) n (pushed s k i) = pushed s k (i + n) := by
  induction n with
  | zero => rfl
  | succ n ih =>
    have hbefore := ih (by omega) fun j hij hj => hwidth j hij (by omega)
    rw [Nat.repeat, hbefore, ← hwidth (i + n) (by omega) (by omega)]
    exact pushSplit_pushed hk (by omega)

theorem splitRanges_eq (hk : 0 < k) :
    splitRanges s k = some ((List.range k).map (block s k)) := by
  have hmod : s % k < k := Nat.mod_lt s hk
  have hlonger : Nat.repeat (pushSplit s (s / k + 1)) (s % k) (pushed s k 0) =
      pushed s k (0 + s % k) := by
    apply pushSplit_repeat hk _ (by omega)
    intro j _ hj
    rw [share, if_pos (by omega)]
  have hrest : Nat.repeat (pushSplit s (s / k)) (k - s % k) (pushed s k (0 + s % k)) =
      pushed s k (0 + s % k + (k - s % k)) := by
    apply pushSplit_repeat hk _ (by omega)
    intro j hj _
    rw [share, if_neg (by omega)]
  have hall : 0 + s % k + (k - s % k) = k := by omega
  have hstart : (([], 0) : List (Nat × Nat) × Nat) = pushed s k 0 := by simp [pushed]
  simp only [splitRanges, Nat.ne_of_gt hk, if_false]
  rw [hstart, hlonger, hrest, hall]
  rfl

/-- A division of the rows `1..s` among `k`.  With rows for everybody the ranges lie
side by side; without, those left over all get the last row. -/
structure Splits (s k : Nat) (ranges : List (Nat × Nat)) : Prop where
  length : ranges.length = k
  inside : ∀ range ∈ ranges, 1 ≤ range.1 ∧ range.1 ≤ range.2 ∧ range.2 ≤ s
  cover : ∀ row, 1 ≤ row → row ≤ s → ∃ range ∈ ranges, range.1 ≤ row ∧ row ≤ range.2
  disjoint : k ≤ s → ranges.Pairwise fun range range' => range.2 < range'.1
  consecutive : k ≤ s → ∀ i range range', ranges[i]? = some range →
    ranges[i + 1]? = some range' → range'.1 = range.2 + 1
  even : k ≤ s → ∀ range ∈ ranges, ∀ range' ∈ ranges,
    range.2 - range.1 ≤ range'.2 - range'.1 + 1
  surplus : s < k → ranges.drop s = List.replicate (k - s) (s, s)

theorem block_of_le (hk : 0 < k) (h : k ≤ s) {i : Nat} (hi : i < k) :
    block s k i = (offset s k i + 1, offset s k i + share s k i) := by
  have hpos : 0 < share s k i := share_of_le hk h
  have hle : offset s k (i + 1) ≤ s := offset_le hk hi
  rw [offset_succ] at hle
  rw [block, offset_succ, Nat.min_eq_left (by omega)]

theorem offset_of_lt (h : s < k) (i : Nat) : offset s k i = min i s := by
  rw [offset, Nat.div_eq_of_lt h, Nat.mod_eq_of_lt h, Nat.mul_zero, Nat.zero_add]

theorem block_of_lt (h : s < k) (i : Nat) : block s k i = (min (i + 1) s, min (i + 1) s) := by
  rw [block, offset_of_lt h, offset_of_lt h, Prod.mk.injEq]
  omega

theorem block_inside (hs : 0 < s) (hk : 0 < k) {i : Nat} (hi : i < k) :
    1 ≤ (block s k i).1 ∧ (block s k i).1 ≤ (block s k i).2 ∧ (block s k i).2 ≤ s := by
  refine ⟨?_, ?_, offset_le hk hi⟩
  · rw [block]
    omega
  · by_cases h : k ≤ s
    · have hpos : 0 < share s k i := share_of_le hk h
      rw [block_of_le hk h hi]
      omega
    · rw [block_of_lt (Nat.lt_of_not_le h)]

theorem blocks_cover (hk : 0 < k) {row : Nat} (hrow : 1 ≤ row) (hle : row ≤ s) :
    ∃ i < k, (block s k i).1 ≤ row ∧ row ≤ (block s k i).2 := by
  obtain ⟨i, hi, hstart, hend⟩ := exists_block hk (n := s) (x := row - 1) (by omega)
  refine ⟨i, hi, ?_⟩
  simp only [block]
  omega

theorem blocks_disjoint (hk : 0 < k) (h : k ≤ s) :
    ((List.range k).map (block s k)).Pairwise fun range range' => range.2 < range'.1 := by
  rw [List.pairwise_map]
  refine List.pairwise_lt_range.imp_of_mem ?_
  intro i j hi hj hij
  rw [List.mem_range] at hi hj
  rw [block_of_le hk h hi, block_of_le hk h hj, ← offset_succ]
  exact Nat.lt_succ_of_le (offset_le_offset hij)

theorem blocks_surplus (h : s < k) :
    ((List.range k).map (block s k)).drop s = List.replicate (k - s) (s, s) := by
  rw [List.eq_replicate_iff]
  refine ⟨by simp, ?_⟩
  intro range hrange
  obtain ⟨i, hi, rfl⟩ := List.mem_iff_getElem.mp hrange
  simp only [List.getElem_drop, List.getElem_map, List.getElem_range, block_of_lt h,
    Prod.mk.injEq]
  omega

theorem splitRanges_splits (hs : 0 < s) (hk : 0 < k) :
    ∃ ranges, splitRanges s k = some ranges ∧ Splits s k ranges := by
  refine ⟨_, splitRanges_eq hk, ?_⟩
  constructor
  case length => simp
  case inside =>
    intro range hrange
    obtain ⟨i, hi, rfl⟩ := List.mem_map.mp hrange
    exact block_inside hs hk (List.mem_range.mp hi)
  case cover =>
    intro row hrow hle
    obtain ⟨i, hi, hblock⟩ := blocks_cover hk hrow hle
    exact ⟨_, List.mem_map_of_mem (List.mem_range.mpr hi), hblock⟩
  case disjoint => exact blocks_disjoint hk
  case consecutive =>
    intro h i range range' hi hi'
    obtain ⟨hlt, rfl⟩ := List.getElem?_eq_some_iff.mp hi
    obtain ⟨hlt', rfl⟩ := List.getElem?_eq_some_iff.mp hi'
    simp only [List.length_map, List.length_range] at hlt hlt'
    simp only [List.getElem_map, List.getElem_range, block_of_le hk h hlt, block_of_le hk h hlt',
      offset_succ]
  case even =>
    intro h range hrange range' hrange'
    obtain ⟨i, hi, rfl⟩ := List.mem_map.mp hrange
    obtain ⟨j, hj, rfl⟩ := List.mem_map.mp hrange'
    rw [block_of_le hk h (List.mem_range.mp hi), block_of_le hk h (List.mem_range.mp hj)]
    simp only [share]
    split <;> split <;> omega
  case surplus => exact blocks_surplus

example : splitRanges 10 4 = some [(1, 3), (4, 6), (7, 8), (9, 10)] := by decide

example : splitRanges 1 4 = some [(1, 1), (1, 1), (1, 1), (1, 1)] := by decide

end Overload.Split
