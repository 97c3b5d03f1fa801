import Mathlib.Algebra.BigOperators.Group.List.Basic
import Mathlib.Algebra.GroupWithZero.Nat
import Mathlib.Data.List.Infix
import Overload.Json

namespace Overload.Json.Pointer

def unescape (digit char : Char) : List Char → List Char
  | [] => []
  | [a] => [a]
  | a :: b :: s =>
    if a = '~' ∧ b = digit then char :: unescape digit char s
    else a :: unescape digit char (b :: s)

def decode (token : List Char) : String :=
  String.ofList (unescape '0' '~' (unescape '1' '/' token))

def tokens? : List Char → Option (List String)
  | [] => some []
  | c :: rest => if c = '/' then some ((rest.splitOn '/').map decode) else none

def parseIndex (token : String) : Option Nat :=
  let i := Nat.ofDigitChars 10 token.toList 0
  if toString i = token then some i else none

def child (v : Value) (token : String) : Option Value :=
  match v with
  | .object members => members.lookup token
  | .array elems => (parseIndex token).bind (elems[·]?)
  | _ => none

def setChild (v : Value) (token : String) (x : Value) : Value :=
  match v with
  | .object members => .object (members.map fun m => if m.1 = token then (m.1, x) else m)
  | .array elems =>
    match parseIndex token with
    | some i => .array (elems.set i x)
    | none => v
  | _ => v

def valueAt : List String → Value → Option Value
  | [], v => some v
  | token :: path, v => (child v token).bind (valueAt path)

def setAt (x : Value) : List String → Value → Option Value
  | [], _ => some x
  | token :: path, v => (child v token).bind fun w => (setAt x path w).map (setChild v token)

def set (v : Value) (pointer : String) (x : Value) : Option Value :=
  (tokens? pointer.toList).bind fun path => setAt x path v

def text : List String → String
  | [] => ""
  | key :: path => "/" ++ key ++ text path

section Tokens

variable {digit char : Char} {s : List Char} {key : String} {path : List String}

theorem unescape_eq_self (h : ¬ ['~', digit] <:+: s) : unescape digit char s = s := by
  fun_induction unescape digit char s with
  | case1 => rfl
  | case2 a => rfl
  | case3 a b s hab =>
    obtain ⟨rfl, rfl⟩ := hab
    exact absurd (List.prefix_append ['~', b] s).isInfix h
  | case4 a b s _ ih => rw [ih fun hs => h (List.infix_cons hs)]

theorem length_unescape_le (digit char : Char) (s : List Char) :
    (unescape digit char s).length ≤ s.length := by
  fun_induction unescape digit char s with
  | case1 => rfl
  | case2 a => rfl
  | case3 a b s _ ih =>
    simp only [List.length_cons]
    omega
  | case4 a b s _ ih => simpa using ih

theorem length_unescape_lt (h : ['~', digit] <:+: s) :
    (unescape digit char s).length < s.length := by
  fun_induction unescape digit char s with
  | case1 => simp at h
  | case2 a => exact absurd h.length_le (by simp)
  | case3 a b s _ ih =>
    have := length_unescape_le digit char s
    simp only [List.length_cons]
    omega
  | case4 a b s hab ih =>
    rcases List.infix_cons_iff.mp h with hpre | hs
    · obtain ⟨ha, hrest⟩ := List.cons_prefix_cons.mp hpre
      obtain ⟨hb, _⟩ := List.cons_prefix_cons.mp hrest
      exact absurd ⟨ha.symm, hb.symm⟩ hab
    · simpa using ih hs

theorem sum_splitOn_le (s : List Char) :
    ((s.splitOn '/').map fun t => 2 * t.length + 1).sum ≤ 2 * s.length + 1 ∧
      ('/' ∈ s → ((s.splitOn '/').map fun t => 2 * t.length + 1).sum < 2 * s.length + 1) := by
  induction s with
  | nil => simp
  | cons c s ih =>
    rw [List.splitOn_cons_eq_if_modifyHead]
    by_cases hc : c = '/'
    · subst hc
      simp only [beq_self_eq_true, if_true, List.map_cons, List.sum_cons, List.length_cons,
        List.length_nil]
      omega
    · obtain ⟨t, ts, hts⟩ := List.exists_cons_of_ne_nil (List.splitOn_ne_nil '/' s)
      have hmem : '/' ∈ c :: s → '/' ∈ s := fun h => (List.mem_cons.mp h).resolve_left (Ne.symm hc)
      rw [hts] at ih
      simp only [beq_false_of_ne hc, Bool.false_eq_true, if_false, hts, List.modifyHead_cons,
        List.map_cons, List.sum_cons, List.length_cons] at ih ⊢
      refine ⟨by omega, fun h => ?_⟩
      have := ih.2 (hmem h)
      omega

def pieces (key : String) : List String := (key.toList.splitOn '/').map decode

structure Plain (key : String) : Prop where
  slash : '/' ∉ key.toList
  tilde : ¬ ['~', '0'] <:+: key.toList
  escapedSlash : ¬ ['~', '1'] <:+: key.toList

instance : Decidable (Plain key) :=
  decidable_of_iff
    ('/' ∉ key.toList ∧ ¬ ['~', '0'] <:+: key.toList ∧ ¬ ['~', '1'] <:+: key.toList)
    ⟨fun ⟨h, h', h''⟩ => ⟨h, h', h''⟩, fun ⟨h, h', h''⟩ => ⟨h, h', h''⟩⟩

def weight (path : List String) : Nat := (path.map fun key => 2 * key.length + 1).sum

theorem length_decode_le (token : List Char) : (decode token).length ≤ token.length := by
  rw [decode, String.length_ofList]
  exact (length_unescape_le _ _ _).trans (length_unescape_le _ _ _)

theorem length_decode_lt {token : List Char}
    (h : ['~', '0'] <:+: token ∨ ['~', '1'] <:+: token) :
    (decode token).length < token.length := by
  rw [decode, String.length_ofList]
  by_cases hslash : ['~', '1'] <:+: token
  · exact (length_unescape_le _ _ _).trans_lt (length_unescape_lt hslash)
  · rw [unescape_eq_self hslash]
    exact length_unescape_lt (h.resolve_right hslash)

theorem pieces_of_plain (h : Plain key) : pieces key = [key] := by
  rw [pieces, List.splitOn_eq_singleton h.slash, List.map_singleton, decode,
    unescape_eq_self h.escapedSlash, unescape_eq_self h.tilde, String.ofList_toList]

theorem weight_cons (key : String) (path : List String) :
    weight (key :: path) = 2 * key.length + 1 + weight path := by simp [weight]

theorem weight_append (path path' : List String) :
    weight (path ++ path') = weight path + weight path' := by simp [weight]

theorem weight_map_decode_le (tokens : List (List Char)) :
    weight (tokens.map decode) ≤ (tokens.map fun t => 2 * t.length + 1).sum := by
  induction tokens with
  | nil => rfl
  | cons t tokens ih =>
    have := length_decode_le t
    rw [List.map_cons, weight_cons, List.map_cons, List.sum_cons]
    omega

theorem weight_pieces_le (key : String) : weight (pieces key) ≤ 2 * key.length + 1 := by
  rw [← String.length_toList]
  exact (weight_map_decode_le _).trans (sum_splitOn_le key.toList).1

theorem weight_pieces_lt (h : ¬ Plain key) : weight (pieces key) < 2 * key.length + 1 := by
  rw [← String.length_toList]
  by_cases hslash : '/' ∈ key.toList
  · exact (weight_map_decode_le _).trans_lt ((sum_splitOn_le key.toList).2 hslash)
  · have hescape : ['~', '0'] <:+: key.toList ∨ ['~', '1'] <:+: key.toList := by
      by_contra hnot
      exact h ⟨hslash, fun h0 => hnot (.inl h0), fun h1 => hnot (.inr h1)⟩
    have := length_decode_lt hescape
    simp only [weight, pieces, List.splitOn_eq_singleton hslash, List.map_singleton,
      List.sum_singleton]
    omega

theorem toList_text (path : List String) :
    (text path).toList = path.flatMap fun key => '/' :: key.toList := by
  induction path with
  | nil => rfl
  | cons key path ih => simp [text, ih]

theorem tokens?_text (path : List String) :
    tokens? (text path).toList = some (path.flatMap pieces) := by
  rw [toList_text]
  cases path with
  | nil => rfl
  | cons key path =>
    simp only [List.flatMap_cons, List.cons_append, tokens?, if_true, Option.some.injEq]
    induction path generalizing key with
    | nil => simp [pieces]
    | cons key' path ih =>
      rw [List.flatMap_cons, List.cons_append, List.splitOn_append_cons_self, List.map_append, ih,
        List.flatMap_cons]
      rfl

theorem flatMap_pieces_of_plain (h : ∀ key ∈ path, Plain key) : path.flatMap pieces = path := by
  induction path with
  | nil => rfl
  | cons key path ih =>
    rw [List.flatMap_cons, pieces_of_plain (h key List.mem_cons_self),
      ih fun k hk => h k (List.mem_cons_of_mem _ hk), List.singleton_append]

theorem weight_flatMap_pieces_le (path : List String) :
    weight (path.flatMap pieces) ≤ weight path := by
  induction path with
  | nil => rfl
  | cons key path ih =>
    rw [List.flatMap_cons, weight_append, weight_cons]
    exact Nat.add_le_add (weight_pieces_le key) ih

theorem weight_flatMap_pieces_lt (hkey : key ∈ path) (h : ¬ Plain key) :
    weight (path.flatMap pieces) < weight path := by
  induction path with
  | nil => cases hkey
  | cons k path ih =>
    rw [List.flatMap_cons, weight_append, weight_cons]
    rcases List.mem_cons.mp hkey with rfl | hkey
    · exact Nat.add_lt_add_of_lt_of_le (weight_pieces_lt h) (weight_flatMap_pieces_le path)
    · exact Nat.add_lt_add_of_le_of_lt (weight_pieces_le k) (ih hkey)

theorem plain_toString (i : Nat) : Plain (toString i) := by
  have hdigit : ∀ c ∈ (toString i).toList, c.isDigit = true := by
    rw [Nat.toString_eq_repr, Nat.toList_repr]
    exact fun c hc => Nat.isDigit_of_mem_toDigits (by decide) (by decide) hc
  have htilde : '~' ∉ (toString i).toList := fun h => absurd (hdigit _ h) (by decide)
  exact ⟨fun h => absurd (hdigit _ h) (by decide), fun h => htilde (h.subset (by simp)),
    fun h => htilde (h.subset (by simp))⟩

end Tokens

section Places

variable {v v' w x : Value} {token token' : String} {i : Nat} {path path' : List String}

theorem parseIndex_toString (i : Nat) : parseIndex (toString i) = some i := by
  have hvalue : Nat.ofDigitChars 10 (toString i).toList 0 = i := by
    rw [Nat.toString_eq_repr, Nat.toList_repr, Nat.ofDigitChars_ten_toDigits]
  rw [parseIndex, hvalue, if_pos rfl]

theorem toString_injective : Function.Injective (toString : Nat → String) := fun i j h =>
  Option.some.inj ((parseIndex_toString i).symm.trans (h ▸ parseIndex_toString j))

theorem toString_of_parseIndex (h : parseIndex token = some i) : toString i = token := by
  rw [parseIndex] at h
  split at h
  · cases h
    assumption
  · cases h

theorem lookup_setMember (members : List (String × Value)) (token token' : String) (x : Value) :
    (members.map fun m => if m.1 = token then (m.1, x) else m).lookup token' =
      if token' = token then (members.lookup token).map fun _ => x else members.lookup token' := by
  induction members with
  | nil => simp
  | cons m members ih =>
    obtain ⟨k, y⟩ := m
    rw [List.map_cons]
    by_cases hk : k = token
    · subst hk
      by_cases htoken : token' = k
      · simp [htoken]
      · simp [htoken, List.lookup_cons, beq_false_of_ne htoken, ih]
    · by_cases htoken : token' = token
      · subst htoken
        simp [hk, List.lookup_cons, beq_false_of_ne (Ne.symm hk), ih]
      · simp [hk, List.lookup_cons, htoken, ih]

theorem setChild_ne_null (h : child v token = some w) : setChild v token x ≠ .null := by
  cases v with
  | object members => exact nofun
  | array elems =>
    obtain ⟨i, hi, _⟩ := Option.bind_eq_some_iff.mp h
    simp only [setChild, hi]
    exact nofun
  | _ => cases h

theorem child_setChild_self (h : child v token = some w) :
    child (setChild v token x) token = some x := by
  cases v with
  | object members =>
    rw [child] at h
    rw [setChild, child, lookup_setMember, if_pos rfl, h, Option.map_some]
  | array elems =>
    obtain ⟨i, hi, hw⟩ := Option.bind_eq_some_iff.mp h
    have hlt : i < elems.length := (List.getElem?_eq_some_iff.mp hw).1
    simp only [setChild, hi, child, Option.bind_some, List.getElem?_set_self hlt]
  | _ => cases h

theorem child_setChild_of_ne (hne : token' ≠ token) :
    child (setChild v token x) token' = child v token' := by
  cases v with
  | object members =>
    rw [setChild, child, lookup_setMember, if_neg hne, child]
  | array elems =>
    cases hi : parseIndex token with
    | none => simp only [setChild, hi]
    | some i =>
      simp only [setChild, hi, child]
      cases hj : parseIndex token' with
      | none => rfl
      | some j =>
        have hij : i ≠ j := by
          rintro rfl
          exact hne ((toString_of_parseIndex hj).symm.trans (toString_of_parseIndex hi))
        simp only [Option.bind_some, List.getElem?_set_ne hij]
  | _ => rfl

theorem valueAt_setAt_ne_null (hset : setAt .null path' v = some v') (hne : path' ≠ path)
    (h : valueAt path v ≠ some .null) : valueAt path v' ≠ some .null := by
  induction path' generalizing path v v' with
  | nil =>
    cases hset
    cases path with
    | nil => exact absurd rfl hne
    | cons token path => exact nofun
  | cons token path' ih =>
    obtain ⟨w, hw, hset⟩ := Option.bind_eq_some_iff.mp hset
    obtain ⟨w', hw', rfl⟩ := Option.map_eq_some_iff.mp hset
    cases path with
    | nil => exact fun hnull => setChild_ne_null hw (Option.some.inj hnull)
    | cons token' path =>
      rw [valueAt] at h ⊢
      by_cases htoken : token' = token
      · subst htoken
        rw [child_setChild_self hw, Option.bind_some]
        rw [hw, Option.bind_some] at h
        exact ih hw' (fun hpath => hne (hpath ▸ rfl)) h
      · rwa [child_setChild_of_ne htoken]

end Places

end Overload.Json.Pointer
