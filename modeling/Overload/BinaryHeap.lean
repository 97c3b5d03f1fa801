import Mathlib.Data.List.Chain
import Mathlib.Data.List.Induction
import Mathlib.Data.List.Perm.Basic
import Mathlib.Order.Lattice

/-! A binary max-heap in an array, as it is built by pushes.  Its array is in order of
the heap only; when the pushes come in ascending order it is known where everything goes. -/

namespace Overload.BinaryHeap

variable {α β : Type} [LinearOrder β] (key : α → β)

def parent (pos : Nat) : Nat := (pos - 1) / 2

/-- `data` has a hole at `pos`, in which `x` moves up past what is less. -/
def siftUp (x : α) : Nat → List α → Nat → List α
  | 0, data, pos => data.set pos x
  | n + 1, data, pos =>
    if pos = 0 then data.set pos x
    else
      match data[parent pos]? with
      | none => data.set pos x
      | some above =>
        if key x ≤ key above then data.set pos x
        else siftUp x n (data.set pos above) (parent pos)

def push (data : List α) (x : α) : List α := siftUp key x data.length (data ++ [x]) data.length

def pushAll (xs : List α) : List α := xs.foldl (push key) []

variable {key} {x y : α} {data xs : List α} {pos i c m n : Nat}

theorem parent_lt (h : 0 < pos) : parent pos < pos := by
  unfold parent
  omega

theorem pushAll_concat : pushAll key (xs ++ [x]) = push key (pushAll key xs) x := by
  simp [pushAll]

theorem siftUp_perm (hpos : pos < data.length) :
    (siftUp key x n data pos).Perm (x :: data.eraseIdx pos) := by
  induction n generalizing data pos with
  | zero => exact List.set_perm_cons_eraseIdx hpos x
  | succ n ih =>
    unfold siftUp
    split
    · exact List.set_perm_cons_eraseIdx hpos x
    · rename_i hne
      have hlt := parent_lt (Nat.pos_of_ne_zero hne)
      split
      · exact List.set_perm_cons_eraseIdx hpos x
      · rename_i above habove
        split
        · exact List.set_perm_cons_eraseIdx hpos x
        · -- what moves down into the hole leaves another behind
          refine (ih (by rw [List.length_set]; omega)).trans (List.Perm.cons x ?_)
          have hsame : (data.set pos above)[parent pos]? = (data.set pos above)[pos]? := by
            rw [List.getElem?_set_ne (by omega), List.getElem?_set_self hpos, habove]
          have hperm := (List.Perm.refl (data.set pos above)).eraseIdx_of_getElem?_eq hsame
          rwa [List.eraseIdx_set_eq] at hperm

theorem push_perm : (push key data x).Perm (x :: data) := by
  have hpos : data.length < (data ++ [x]).length := by simp
  refine (siftUp_perm hpos).trans (List.Perm.cons x ?_)
  rw [List.eraseIdx_append_of_length_le (Nat.le_refl _), Nat.sub_self, List.eraseIdx_cons_zero,
    List.append_nil]

theorem pushAll_perm : (pushAll key xs).Perm xs := by
  induction xs using List.reverseRecOn with
  | nil => exact .nil
  | append_singleton xs x ih =>
    rw [pushAll_concat]
    exact push_perm.trans ((ih.cons x).trans (List.perm_append_singleton x xs).symm)

variable (key xs) in
theorem length_pushAll : (pushAll key xs).length = xs.length := pushAll_perm.length_eq

inductive OnPath : Nat → Nat → Prop
  | self {pos : Nat} : OnPath pos pos
  | up {pos i : Nat} : 0 < pos → OnPath (parent pos) i → OnPath pos i

theorem onPath_iff (hpos : 0 < pos) : OnPath pos i ↔ i = pos ∨ OnPath (parent pos) i := by
  constructor
  · intro h
    cases h with
    | self => exact .inl rfl
    | up _ h => exact .inr h
  · rintro (rfl | h)
    · exact .self
    · exact .up hpos h

theorem OnPath.le (h : OnPath pos i) : i ≤ pos := by
  induction h with
  | self => exact Nat.le_refl _
  | up hpos _ ih => exact Nat.le_trans ih (Nat.le_of_lt (parent_lt hpos))

theorem OnPath.parent (h : OnPath pos i) : OnPath pos (parent i) := by
  induction h with
  | @self pos =>
    rcases Nat.eq_zero_or_pos pos with rfl | hpos
    · exact .self
    · exact .up hpos .self
  | up hpos _ ih => exact .up hpos ih

theorem OnPath.child (h : OnPath pos i) (hne : i ≠ pos) :
    ∃ c, 0 < c ∧ BinaryHeap.parent c = i ∧ OnPath pos c := by
  induction h with
  | self => exact absurd rfl hne
  | @up pos i hpos h ih =>
    by_cases hi : i = BinaryHeap.parent pos
    · exact ⟨pos, hpos, hi.symm, .self⟩
    · obtain ⟨c, hc, hparent, hpath⟩ := ih hi
      exact ⟨c, hc, hparent, .up hpos hpath⟩

theorem onPath_zero (pos : Nat) : OnPath pos 0 := by
  induction pos using Nat.strongRecOn with
  | ind pos ih =>
    rcases Nat.eq_zero_or_pos pos with rfl | hpos
    · exact .self
    · exact .up hpos (ih _ (parent_lt hpos))

theorem onPath_one_or_two (hpos : 0 < pos) : OnPath pos 1 ∨ OnPath pos 2 := by
  obtain ⟨c, hc, hparent, hpath⟩ := (onPath_zero pos).child (by omega)
  obtain rfl | rfl : c = 1 ∨ c = 2 := by
    unfold parent at hparent
    omega
  · exact .inl hpath
  · exact .inr hpath

theorem not_onPath_one_and_two : ¬ (OnPath pos 1 ∧ OnPath pos 2) := by
  induction pos using Nat.strongRecOn with
  | ind pos ih =>
    rintro ⟨hone, htwo⟩
    have hle := htwo.le
    rw [onPath_iff (by omega)] at hone htwo
    have hparent : parent pos < pos := parent_lt (by omega)
    rcases hone with rfl | hone
    · omega
    · rcases htwo with rfl | htwo
      · exact absurd hone.le (by decide)
      · exact ih _ hparent ⟨hone, htwo⟩

theorem onPath_sibling {j : Nat} (hi : i < 2 * j + 1) :
    OnPath (2 * j + 1) i ↔ OnPath (2 * j + 2) i := by
  have hparent : parent (2 * j + 2) = parent (2 * j + 1) := by
    unfold parent
    omega
  have hleft : OnPath (2 * j + 1) i ↔ OnPath (parent (2 * j + 1)) i := by
    rw [onPath_iff (by omega), or_iff_right (by omega)]
  have hright : OnPath (2 * j + 2) i ↔ OnPath (parent (2 * j + 2)) i := by
    rw [onPath_iff (by omega), or_iff_right (by omega)]
  rw [hleft, hright, hparent]

structure Lifted (x : α) (data result : List α) (pos : Nat) : Prop where
  root : result[0]? = some x
  on_path : ∀ c, 0 < c → OnPath pos c → result[c]? = data[parent c]?
  off_path : ∀ i, ¬ OnPath pos i → result[i]? = data[i]?

theorem Lifted.set_root (h : 0 < data.length) : Lifted x data (data.set 0 x) 0 where
  root := List.getElem?_set_self h
  on_path c hc hpath := absurd hpath.le (by omega)
  off_path i hi := by
    refine List.getElem?_set_ne ?_
    rintro rfl
    exact hi .self

theorem Lifted.up {above : α} {result : List α} (hpos : 0 < pos) (hlt : pos < data.length)
    (habove : data[parent pos]? = some above)
    (h : Lifted x (data.set pos above) result (parent pos)) : Lifted x data result pos where
  root := h.root
  on_path c hc hpath := by
    have hparent := parent_lt hpos
    rcases (onPath_iff hpos).mp hpath with rfl | hpath
    · rw [h.off_path c fun h => absurd h.le (by omega), List.getElem?_set_self hlt, habove]
    · have hle := hpath.le
      have := parent_lt hc
      rw [h.on_path c hc hpath, List.getElem?_set_ne (by omega)]
  off_path i hi := by
    rw [onPath_iff hpos, not_or] at hi
    rw [h.off_path i hi.2, List.getElem?_set_ne (Ne.symm hi.1)]

theorem siftUp_lifted (hn : pos ≤ n) (hlt : pos < data.length)
    (hx : ∀ i < pos, ∀ y, data[i]? = some y → key y < key x) :
    Lifted x data (siftUp key x n data pos) pos := by
  induction n generalizing data pos with
  | zero =>
    obtain rfl := Nat.le_zero.mp hn
    exact .set_root hlt
  | succ n ih =>
    unfold siftUp
    split
    · subst pos
      exact .set_root hlt
    · rename_i hne
      have hpos := Nat.pos_of_ne_zero hne
      have hparent := parent_lt hpos
      have habove : data[parent pos]? = some data[parent pos] := List.getElem?_eq_getElem _
      simp only [habove, not_le.mpr (hx _ hparent _ habove), if_false]
      refine .up hpos hlt habove (ih (by omega) (by rw [List.length_set]; omega) ?_)
      intro i hi y hy
      rw [List.getElem?_set_ne (by omega)] at hy
      exact hx i (by omega) y hy

theorem push_lifted (hx : ∀ y ∈ data, key y < key x) :
    Lifted x data (push key data x) data.length := by
  have hlifted : Lifted x (data ++ [x]) (push key data x) data.length := by
    refine siftUp_lifted (Nat.le_refl _) (by simp) fun i hi y hy => ?_
    rw [List.getElem?_append_left hi] at hy
    exact hx y (List.mem_of_getElem? hy)
  refine ⟨hlifted.root, fun c hc hpath => ?_, fun i hi => ?_⟩
  · have := hpath.le
    have := parent_lt hc
    rw [hlifted.on_path c hc hpath, List.getElem?_append_left (by omega)]
  · rw [hlifted.off_path i hi]
    have hne : i ≠ data.length := by
      rintro rfl
      exact hi .self
    rcases Nat.lt_or_gt_of_ne hne with hlt | hgt
    · exact List.getElem?_append_left hlt
    · rw [List.getElem?_eq_none (Nat.le_of_lt hgt), List.getElem?_eq_none (by simp; omega)]

variable (key) in
def Ascending (xs : List α) : Prop := xs.Pairwise fun a b => key a < key b

variable (key) in
def Descending (xs : List α) : Prop := xs.Pairwise fun a b => key b < key a

theorem Descending.lt {i j : Nat} (h : Descending key xs) (hij : i < j) (hx : xs[i]? = some x)
    (hy : xs[j]? = some y) : key y < key x := by
  obtain ⟨hi, rfl⟩ := List.getElem?_eq_some_iff.mp hx
  obtain ⟨hj, rfl⟩ := List.getElem?_eq_some_iff.mp hy
  exact List.pairwise_iff_getElem.mp h i j hi hj hij

theorem exists_step_up (h : ¬ Descending key xs) :
    ∃ front a b back, xs = front ++ a :: b :: back ∧ key a ≤ key b := by
  have htrans : IsTrans α fun a b => key b < key a := ⟨fun _ _ _ hab hbc => lt_trans hbc hab⟩
  rw [Descending, ← List.isChain_iff_pairwise,
    List.isChain_iff_forall_rel_of_append_cons_cons] at h
  push Not at h
  obtain ⟨a, b, front, back, hsplit, hab⟩ := h
  exact ⟨front, a, b, back, hsplit, hab⟩

theorem Ascending.of_concat (h : Ascending key (xs ++ [x])) :
    Ascending key xs ∧ ∀ y ∈ pushAll key xs, key y < key x := by
  obtain ⟨hxs, _, hlt⟩ := List.pairwise_append.mp h
  exact ⟨hxs, fun y hy => hlt y (pushAll_perm.mem_iff.mp hy) x List.mem_cons_self⟩

theorem Ascending.lifted (h : Ascending key (xs ++ [x])) (hm : xs.length = m) :
    Lifted x (pushAll key xs) (pushAll key (xs ++ [x])) m := by
  rw [pushAll_concat, ← hm, ← length_pushAll key xs]
  exact push_lifted h.of_concat.2

theorem Ascending.le_last (h : Ascending key (xs ++ [x])) :
    ∀ y ∈ pushAll key (xs ++ [x]), key y ≤ key x := by
  intro y hy
  rw [pushAll_concat, push_perm.mem_iff, List.mem_cons] at hy
  rcases hy with rfl | hy
  · exact le_refl _
  · exact le_of_lt (h.of_concat.2 y hy)

theorem exists_getElem?_pushAll (hi : i < xs.length) : ∃ y, (pushAll key xs)[i]? = some y := by
  rw [← length_pushAll key xs] at hi
  exact ⟨_, List.getElem?_eq_getElem hi⟩

theorem not_descending_of_right {a b : α} (h : Ascending key (xs ++ [a] ++ [b]))
    (hright : OnPath (xs.length + 1) 2) : ¬ Descending key (pushAll key (xs ++ [a] ++ [b])) := by
  intro hdesc
  have hb := h.lifted (m := xs.length + 1) (by simp)
  have hle := hright.le
  obtain ⟨y, hy⟩ : ∃ y, (pushAll key (xs ++ [a] ++ [b]))[1]? = some y :=
    exists_getElem?_pushAll (by simp)
  have ha : (pushAll key (xs ++ [a] ++ [b]))[2]? = some a :=
    (hb.on_path 2 (by decide) hright).trans (h.of_concat.1.lifted rfl).root
  have hlt := hdesc.lt (by decide) hy ha
  rw [hb.off_path 1 fun hleft => not_onPath_one_and_two ⟨hleft, hright⟩] at hy
  exact absurd (h.of_concat.1.le_last y (List.mem_of_getElem? hy)) (not_le.mpr hlt)

theorem not_descending_of_left_left {a b c : α} (h : Ascending key (xs ++ [a] ++ [b] ++ [c]))
    (hleft : OnPath (xs.length + 1) 1) (hleft' : OnPath (xs.length + 2) 1) :
    ¬ Descending key (pushAll key (xs ++ [a] ++ [b] ++ [c])) := by
  intro hdesc
  have hc := h.lifted (m := xs.length + 2) (by simp)
  have hb := h.of_concat.1.lifted (m := xs.length + 1) (by simp)
  obtain ⟨child, hpos, hparent, hchild⟩ := hleft'.child (by omega)
  have hle : 3 ≤ child := by
    unfold parent at hparent
    omega
  obtain ⟨y, hy⟩ : ∃ y, (pushAll key (xs ++ [a] ++ [b] ++ [c]))[2]? = some y :=
    exists_getElem?_pushAll (by simp)
  have ha : (pushAll key (xs ++ [a] ++ [b] ++ [c]))[child]? = some a := by
    rw [hc.on_path child hpos hchild, hparent, hb.on_path 1 (by decide) hleft]
    exact (h.of_concat.1.of_concat.1.lifted rfl).root
  have hlt := hdesc.lt hle hy ha
  rw [hc.off_path 2 fun hright => not_onPath_one_and_two ⟨hleft', hright⟩,
    hb.off_path 2 fun hright => not_onPath_one_and_two ⟨hleft, hright⟩] at hy
  exact absurd (h.of_concat.1.of_concat.1.le_last y (List.mem_of_getElem? hy)) (not_le.mpr hlt)

theorem not_descending_of_right_left {z a b c : α}
    (h : Ascending key (xs ++ [z] ++ [a] ++ [b] ++ [c])) (hright : OnPath (xs.length + 1) 2)
    (hright' : OnPath (xs.length + 2) 2) (hleft : OnPath (xs.length + 3) 1) :
    ¬ Descending key (pushAll key (xs ++ [z] ++ [a] ++ [b] ++ [c])) := by
  intro hdesc
  have hc := h.lifted (m := xs.length + 3) (by simp)
  have hb := h.of_concat.1.lifted (m := xs.length + 2) (by simp)
  have ha := h.of_concat.1.of_concat.1.lifted (m := xs.length + 1) (by simp)
  have hz := h.of_concat.1.of_concat.1.of_concat.1
  obtain ⟨child, hpos, hparent, hchild⟩ := hright'.child (by have := hright.le; omega)
  have hle := hchild.le
  have hfour : 3 < child := by
    unfold parent at hparent
    omega
  have hoff : ¬ OnPath (xs.length + 3) child := by
    intro hpath
    have := hpath.parent
    rw [hparent] at this
    exact not_onPath_one_and_two ⟨hleft, this⟩
  have hz' : (pushAll key (xs ++ [z] ++ [a] ++ [b] ++ [c]))[child]? = some z := by
    rw [hc.off_path child hoff, hb.on_path child hpos hchild, hparent,
      ha.on_path 2 (by decide) hright]
    exact (hz.lifted rfl).root
  obtain ⟨y, hy⟩ : ∃ y, (pushAll key (xs ++ [z] ++ [a] ++ [b] ++ [c]))[3]? = some y :=
    exists_getElem?_pushAll (by simp)
  have hlt := hdesc.lt hfour hy hz'
  -- what stands at 3 has been on the left all the time
  have hone : ∀ {pos}, OnPath pos 2 → ¬ OnPath pos 1 :=
    fun hright hleft => not_onPath_one_and_two ⟨hleft, hright⟩
  have hthree : ∀ {pos}, OnPath pos 2 → ¬ OnPath pos 3 :=
    fun hright hpath => hone hright hpath.parent
  have hmem : y ∈ pushAll key (xs ++ [z]) := by
    by_cases hpath : OnPath (xs.length + 3) 3
    · rw [hc.on_path 3 (by decide) hpath, show parent 3 = 1 from rfl, hb.off_path 1 (hone hright'),
        ha.off_path 1 (hone hright)] at hy
      exact List.mem_of_getElem? hy
    · rw [hc.off_path 3 hpath, hb.off_path 3 (hthree hright'), ha.off_path 3 (hthree hright)] at hy
      exact List.mem_of_getElem? hy
  exact absurd (hz.le_last y hmem) (not_le.mpr hlt)

theorem descending_pushAll_small (h : Ascending key xs) (hlength : xs.length ≤ 2 ∨ xs.length = 4) :
    Descending key (pushAll key xs) := by
  match xs, h, hlength with
  | [], _, _ => exact .nil
  | [a], _, _ => exact List.pairwise_singleton _ _
  | [a, b], h, _ =>
    have hab : key a < key b := by simpa [Ascending] using h
    have heq : pushAll key [a, b] = [b, a] := by
      simp [pushAll, push, siftUp, parent, not_le.mpr hab]
    simpa [heq, Descending] using hab
  | [a, b, c, d], h, _ =>
    simp only [Ascending, List.pairwise_cons, List.mem_cons, List.not_mem_nil, or_false,
      forall_eq_or_imp, forall_eq] at h
    obtain ⟨⟨hab, hac, had⟩, ⟨hbc, hbd⟩, hcd, _⟩ := h
    have heq : pushAll key [a, b, c, d] = [d, c, b, a] := by
      simp [pushAll, push, siftUp, parent, not_le.mpr, hab, hbc, had, hcd]
    simp [heq, Descending, hab, hac, had, hbc, hbd, hcd]
  | [_, _, _], _, hlength => simp at hlength
  | _ :: _ :: _ :: _ :: _ :: _, _, hlength => simp at hlength

theorem onPath_two_of_parting (hm : 2 ≤ m) (hright : OnPath (m + 1) 2) (hleft : OnPath (m + 2) 1) :
    OnPath m 2 := by
  obtain ⟨j, rfl | rfl⟩ : ∃ j, m = 2 * j ∨ m = 2 * j + 1 := ⟨m / 2, by omega⟩
  · exact absurd ⟨(onPath_sibling (by omega)).mpr hleft, hright⟩ not_onPath_one_and_two
  · exact (onPath_sibling (by omega)).mpr hright

/-- Pushed in ascending order, the elements stand in descending order exactly if there are at
most two of them, or four. -/
theorem descending_pushAll_iff (h : Ascending key xs) :
    Descending key (pushAll key xs) ↔ xs.length ≤ 2 ∨ xs.length = 4 := by
  refine ⟨fun hdesc => ?_, descending_pushAll_small h⟩
  by_contra hlength
  obtain rfl | ⟨xs, c, rfl⟩ := xs.eq_nil_or_concat'
  · simp at hlength
  obtain rfl | ⟨xs, b, rfl⟩ := xs.eq_nil_or_concat'
  · simp at hlength
  obtain rfl | ⟨xs, a, rfl⟩ := xs.eq_nil_or_concat'
  · simp at hlength
  have hright : ¬ OnPath (xs.length + 2) 2 := by
    intro hright
    refine not_descending_of_right h ?_ hdesc
    simpa using hright
  have hleft := (onPath_one_or_two (Nat.succ_pos (xs.length + 1))).resolve_right hright
  have hleft' : ¬ OnPath (xs.length + 1) 1 := fun hleft' =>
    not_descending_of_left_left h hleft' hleft hdesc
  have hright' := (onPath_one_or_two (Nat.succ_pos xs.length)).resolve_left hleft'
  obtain rfl | ⟨xs, z, rfl⟩ := xs.eq_nil_or_concat'
  · exact absurd hright'.le (by simp)
  simp only [List.length_append, List.length_singleton] at hlength hleft hright'
  refine not_descending_of_right_left h ?_ hright' hleft hdesc
  exact onPath_two_of_parting (by omega) hright' hleft

end Overload.BinaryHeap
