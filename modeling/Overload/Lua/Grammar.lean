import Mathlib.Data.Bool.AllAny
import Mathlib.Data.List.Forall2
import Overload.Json
import Overload.Lua.Decode

namespace Overload.Lua.Json

open Scanner Cursor

def Spaces (t : Bytes) : Prop := ∀ b ∈ t, spaceChars.contains b = true

abbrev Matches (classes : List (UInt8 → Bool)) (t : Bytes) : Prop :=
  List.Forall₂ (fun p b => p b = true) classes t

/-- An escape before the text `t`.  Two codes that can be a pair are one. -/
inductive Escape (t : Bytes) : Bytes → Bytes → Prop
  | char {c e : UInt8} : (c, e) ∈ escapeCharMapInv → Escape t [backslash, c] [e]
  | pair {hex bytes : Bytes} : Matches pairPattern hex → parseUnicodeEscape hex = .ok bytes →
    Escape t (backslash :: 'u'.toUInt8 :: hex) bytes
  | code {hex bytes : Bytes} : Matches codePattern hex → startsWith pairPattern (hex ++ t) = false →
    parseUnicodeEscape hex = .ok bytes → Escape t (backslash :: 'u'.toUInt8 :: hex) bytes

inductive Chars : Bytes → Bytes → Prop
  | close : Chars [quote] []
  | plain {b : UInt8} {t s : Bytes} : ¬ b < 32 → b ≠ backslash → b ≠ quote → Chars t s →
    Chars (b :: t) (b :: s)
  | escape {e bytes t s : Bytes} : Escape t e bytes → Chars t s → Chars (e ++ t) (bytes ++ s)

variable {x : Interpreter}

def arrayEntries (res : List (Key × Value x.Num)) (n : Nat) :
    List (Value x.Num) → List (Key × Value x.Num)
  | [] => res
  | value :: values => arrayEntries (setEntry res (.index n) value) (n + 1) values

def objectEntries (res : List (Key × Value x.Num)) :
    List (Bytes × Value x.Num) → List (Key × Value x.Num)
  | [] => res
  | (key, value) :: members => objectEntries (setEntry res (.string key) value) members

inductive Form (x : Interpreter)
  | value (v : Value x.Num)
  | elements (values : List (Value x.Num))
  | members (members : List (Bytes × Value x.Num))

/-- Elements and members end with the bracket that closes them.  Each value takes one call
inside the calls of the arrays and objects around it. -/
inductive Writes (x : Interpreter) : List ParseFunction → Form x → Bytes → Prop
  | literal {calls : List ParseFunction} {word : Bytes} {v : Value x.Num} :
    x.hasRoom (.literal :: calls) = true → (word, v) ∈ literalMap x → Writes x calls (.value v) word
  | number {calls : List ParseFunction} {b : UInt8} {s : Bytes} {n : x.Num} :
    x.hasRoom (.number :: calls) = true → (isDigit b || b = '-'.toUInt8) = true →
    (∀ d ∈ b :: s, delimChars.contains d = false) → x.tonumber (b :: s) = some n →
    Writes x calls (.value (.number n)) (b :: s)
  | string {calls : List ParseFunction} {t s : Bytes} : x.hasRoom (.string :: calls) = true →
    Chars t s → Writes x calls (.value (.string s)) (quote :: t)
  | array {calls : List ParseFunction} {values : List (Value x.Num)} {t : Bytes} :
    x.hasRoom (.array :: calls) = true → Writes x (.array :: calls) (.elements values) t →
    Writes x calls (.value (.table (arrayEntries [] 1 values))) ('['.toUInt8 :: t)
  | object {calls : List ParseFunction} {members : List (Bytes × Value x.Num)} {t : Bytes} :
    x.hasRoom (.object :: calls) = true → Writes x (.object :: calls) (.members members) t →
    Writes x calls (.value (.table (objectEntries [] members))) (openBrace :: t)
  | noElement {calls : List ParseFunction} {w : Bytes} : Spaces w →
    Writes x calls (.elements []) (w ++ [']'.toUInt8])
  | lastElement {calls : List ParseFunction} {w t w' : Bytes} {v : Value x.Num} : Spaces w →
    Writes x calls (.value v) t → Spaces w' →
    Writes x calls (.elements [v]) (w ++ t ++ w' ++ [']'.toUInt8])
  | element {calls : List ParseFunction} {w t w' rest : Bytes} {v : Value x.Num}
    {values : List (Value x.Num)} : Spaces w → Writes x calls (.value v) t → Spaces w' →
    Writes x calls (.elements values) rest →
    Writes x calls (.elements (v :: values)) (w ++ t ++ w' ++ [','.toUInt8] ++ rest)
  | noMember {calls : List ParseFunction} {w : Bytes} : Spaces w →
    Writes x calls (.members []) (w ++ [closeBrace])
  | lastMember {calls : List ParseFunction} {w k key w₁ w₂ t w₃ : Bytes} {v : Value x.Num} :
    x.hasRoom (.string :: calls) = true → Spaces w → Chars k key → Spaces w₁ → Spaces w₂ →
    Writes x calls (.value v) t → Spaces w₃ →
    Writes x calls (.members [(key, v)])
      (w ++ quote :: k ++ w₁ ++ ':'.toUInt8 :: w₂ ++ t ++ w₃ ++ [closeBrace])
  | member {calls : List ParseFunction} {w k key w₁ w₂ t w₃ rest : Bytes} {v : Value x.Num}
    {members : List (Bytes × Value x.Num)} : x.hasRoom (.string :: calls) = true → Spaces w →
    Chars k key → Spaces w₁ → Spaces w₂ → Writes x calls (.value v) t → Spaces w₃ →
    Writes x calls (.members members) rest →
    Writes x calls (.members ((key, v) :: members))
      (w ++ quote :: k ++ w₁ ++ ':'.toUInt8 :: w₂ ++ t ++ w₃ ++ [','.toUInt8] ++ rest)

variable {classes : List (UInt8 → Bool)} {t rest s : Bytes} {c d : Cursor UInt8}

theorem startsWith_iff : startsWith classes rest = true ↔
    ∃ t rest', rest = t ++ rest' ∧ Matches classes t := by
  induction classes generalizing rest with
  | nil => exact iff_of_true rfl ⟨[], rest, rfl, .nil⟩
  | cons p classes ih =>
    cases rest with
    | nil =>
      refine iff_of_false nofun ?_
      rintro ⟨t, rest', h, hmatches⟩
      cases hmatches
      cases h
    | cons b rest =>
      rw [startsWith, Bool.and_eq_true, ih]
      constructor
      · rintro ⟨hb, t, rest', rfl, hmatches⟩
        exact ⟨b :: t, rest', rfl, .cons hb hmatches⟩
      · rintro ⟨t, rest', h, hmatches⟩
        cases hmatches with
        | cons hb hmatches =>
          cases h
          exact ⟨hb, _, rest', rfl, hmatches⟩

theorem strMatch_eq_some : strMatch classes rest = some t ↔
    Matches classes t ∧ ∃ rest', rest = t ++ rest' := by
  rw [strMatch, Option.ite_none_right_eq_some, startsWith_iff]
  constructor
  · rintro ⟨⟨u, rest', rfl, hmatches⟩, h⟩
    rw [hmatches.length_eq, List.take_left, Option.some.injEq] at h
    exact h ▸ ⟨hmatches, rest', rfl⟩
  · rintro ⟨hmatches, rest', rfl⟩
    refine ⟨⟨t, rest', rfl, hmatches⟩, ?_⟩
    rw [hmatches.length_eq, List.take_left]

theorem strMatch_eq_none : strMatch classes rest = none ↔ startsWith classes rest = false := by
  rw [strMatch, ite_eq_right_iff, ← Bool.not_eq_true]
  simp

theorem startsWith_quote (hclasses : ∀ p ∈ classes, p quote = false) (u after : Bytes) :
    startsWith classes (u ++ quote :: after) = startsWith classes (u ++ [quote]) := by
  induction classes generalizing u with
  | nil => rfl
  | cons p classes ih =>
    obtain ⟨hp, hclasses⟩ := List.forall_mem_cons.mp hclasses
    cases u with
    | nil => simp [startsWith, hp]
    | cons b u =>
      rw [List.cons_append, List.cons_append, startsWith, startsWith, ih hclasses]

theorem Chars.exists_concat (h : Chars t s) : ∃ u, t = u ++ [quote] := by
  induction h with
  | close => exact ⟨[], rfl⟩
  | plain _ _ _ _ ih =>
    obtain ⟨u, rfl⟩ := ih
    exact ⟨_ :: u, rfl⟩
  | escape _ _ ih =>
    obtain ⟨u, rfl⟩ := ih
    exact ⟨_ ++ u, (List.append_assoc ..).symm⟩

theorem pairPattern_quote : ∀ p ∈ pairPattern, p quote = false := by
  simp only [pairPattern, List.forall_mem_cons, List.not_mem_nil, false_implies, implies_true,
    and_true]
  decide

theorem escape_append_iff {e bytes after : Bytes} (h : Chars t s) :
    Escape (t ++ after) e bytes ↔ Escape t e bytes := by
  obtain ⟨u, rfl⟩ := h.exists_concat
  have hstarts (hex : Bytes) : startsWith pairPattern (hex ++ (u ++ [quote] ++ after)) =
      startsWith pairPattern (hex ++ (u ++ [quote])) := by
    have hquote := startsWith_quote pairPattern_quote (hex ++ u) after
    simpa only [List.append_assoc, List.singleton_append] using hquote
  constructor
  · rintro (hmem | ⟨hmatches, hbytes⟩ | ⟨hmatches, hnot, hbytes⟩)
    · exact .char hmem
    · exact .pair hmatches hbytes
    · exact .code hmatches (hstarts _ ▸ hnot) hbytes
  · rintro (hmem | ⟨hmatches, hbytes⟩ | ⟨hmatches, hnot, hbytes⟩)
    · exact .char hmem
    · exact .pair hmatches hbytes
    · exact .code hmatches (hstarts _ ▸ hnot) hbytes

theorem lookup_escapeCharMapInv {b e : UInt8} :
    escapeCharMapInv.lookup b = some e ↔ (b, e) ∈ escapeCharMapInv :=
  Overload.Json.lookup_eq_some_iff (by decide)

theorem fst_mem_escapeChars : ∀ entry ∈ escapeCharMapInv,
    entry.1 ≠ 'u'.toUInt8 ∧ escapeChars.contains entry.1 = true :=
  List.all_iff_forall_prop.mp (by decide)

theorem isSome_lookup_escapeCharMapInv : ∀ b ∈ escapeChars, b ≠ 'u'.toUInt8 →
    (escapeCharMapInv.lookup b).isSome = true :=
  List.all_iff_forall_prop.mp (by decide)

theorem strMatch_or_eq_some {hex : Bytes} :
    (strMatch pairPattern rest).or (strMatch codePattern rest) = some hex ↔
      ∃ after, rest = hex ++ after ∧
        (Matches pairPattern hex ∨
          Matches codePattern hex ∧ startsWith pairPattern rest = false) := by
  rw [Option.or_eq_some_iff, strMatch_eq_some, strMatch_eq_some, strMatch_eq_none]
  constructor
  · rintro (⟨hmatches, after, hrest⟩ | ⟨hnot, hmatches, after, hrest⟩)
    · exact ⟨after, hrest, .inl hmatches⟩
    · exact ⟨after, hrest, .inr ⟨hmatches, hnot⟩⟩
  · rintro ⟨after, hrest, hmatches | ⟨hmatches, hnot⟩⟩
    · exact .inl ⟨hmatches, after, hrest⟩
    · exact .inr ⟨hnot, hmatches, after, hrest⟩

theorem parseEscape_u {str bytes : Bytes} {i n : Nat} :
    parseEscape str ⟨i, backslash :: 'u'.toUInt8 :: rest⟩ = .ok (bytes, n) ↔
      ∃ hex, (strMatch pairPattern rest).or (strMatch codePattern rest) = some hex ∧
        parseUnicodeEscape hex = .ok bytes ∧ hex.length + 2 = n := by
  have hescape : advance ⟨i, backslash :: 'u'.toUInt8 :: rest⟩ 1 =
      ⟨i + 1, 'u'.toUInt8 :: rest⟩ := rfl
  have hrest : (advance ⟨i + 1, 'u'.toUInt8 :: rest⟩ 1).rest = rest := rfl
  rw [parseEscape, hescape, List.head?_cons, if_pos rfl, hrest]
  cases (strMatch pairPattern rest).or (strMatch codePattern rest) with
  | none => simp
  | some hex => cases hbytes : parseUnicodeEscape hex <;> simp [hbytes, Except.map, Nat.add_comm]

theorem parseEscape_char {str bytes : Bytes} {b : UInt8} {i n : Nat} (hb : b ≠ 'u'.toUInt8) :
    parseEscape str ⟨i, backslash :: b :: rest⟩ = .ok (bytes, n) ↔
      ∃ e, (b, e) ∈ escapeCharMapInv ∧ [e] = bytes ∧ 2 = n := by
  have hhead : (advance ⟨i, backslash :: b :: rest⟩ 1).rest.head? = some b := rfl
  rw [parseEscape, hhead, if_neg fun h => hb (Option.some.inj h), Option.any_some]
  split
  next hmem =>
    have hsome := isSome_lookup_escapeCharMapInv b (List.contains_iff_mem.mp hmem) hb
    obtain ⟨e, he⟩ := Option.isSome_iff_exists.mp hsome
    simp only [Option.bind_some, he, Option.toList_some, Except.ok.injEq, Prod.mk.injEq,
      ← lookup_escapeCharMapInv, Option.some.injEq, exists_eq_left']
  next hnot =>
    refine iff_of_false nofun ?_
    rintro ⟨e, he, -⟩
    exact hnot (fst_mem_escapeChars _ he).2

theorem parseEscape_eq_ok {str bytes : Bytes} {n : Nat} (hc : c.rest = backslash :: rest) :
    parseEscape str c = .ok (bytes, n) ↔
      ∃ e after, c.rest = e ++ after ∧ e.length = n ∧ Escape after e bytes := by
  obtain ⟨i, crest⟩ := c
  cases hc
  match rest with
  | [] =>
    refine iff_of_false nofun ?_
    rintro ⟨_, _, h, -, hmem | ⟨-, -⟩ | ⟨-, -, -⟩⟩ <;> cases h
  | b :: rest =>
    by_cases hb : b = 'u'.toUInt8
    · subst hb
      rw [parseEscape_u]
      constructor
      · rintro ⟨hex, hhex, hbytes, rfl⟩
        obtain ⟨after, rfl, hpair | ⟨hcode, hnot⟩⟩ := strMatch_or_eq_some.mp hhex
        · exact ⟨_ :: _ :: hex, after, rfl, rfl, .pair hpair hbytes⟩
        · exact ⟨_ :: _ :: hex, after, rfl, rfl, .code hcode hnot hbytes⟩
      · rintro ⟨_, after, h, rfl, hmem | ⟨hpair, hbytes⟩ | ⟨hcode, hnot, hbytes⟩⟩
        · cases h
          exact absurd rfl (fst_mem_escapeChars _ hmem).1
        · cases h
          exact ⟨_, strMatch_or_eq_some.mpr ⟨after, rfl, .inl hpair⟩, hbytes, rfl⟩
        · cases h
          exact ⟨_, strMatch_or_eq_some.mpr ⟨after, rfl, .inr ⟨hcode, hnot⟩⟩, hbytes, rfl⟩
    · rw [parseEscape_char hb]
      constructor
      · rintro ⟨e, he, rfl, rfl⟩
        exact ⟨[backslash, b], rest, rfl, rfl, .char he⟩
      · rintro ⟨_, after, h, rfl, hmem | ⟨-, -⟩ | ⟨-, -, -⟩⟩ <;> cases h
        · exact ⟨_, hmem, rfl, rfl⟩
        · exact absurd rfl hb
        · exact absurd rfl hb

theorem Escape.exists_cons {e bytes : Bytes} (h : Escape t e bytes) : ∃ u, e = backslash :: u := by
  rcases h with hmem | ⟨-, -⟩ | ⟨-, -, -⟩ <;> exact ⟨_, rfl⟩

theorem parseStringLoop_sound {str res v : Bytes} {i fuel : Nat}
    (h : parseStringLoop str i fuel res c = .ok v d) :
    ∃ t s, v = res ++ s ∧ Passes c t d ∧ Chars t s := by
  induction fuel generalizing res c with
  | zero => cases h
  | succ fuel ih =>
    rw [parseStringLoop] at h
    split at h
    next => cases h
    next b rest hrest =>
      have hhead : c.rest.head? = some b := by rw [hrest, List.head?_cons]
      split_ifs at h with hcontrol hbackslash hquote
      · subst hbackslash
        split at h
        next => cases h
        next bytes n hescape =>
          obtain ⟨e, after, hafter, rfl, he⟩ := (parseEscape_eq_ok hrest).mp hescape
          obtain ⟨t, s, rfl, hpasses, hchars⟩ := ih h
          have hadvance := passes_advance hafter
          have hrest' : after = t ++ d.rest := by
            rw [← hpasses.rest, ← List.append_cancel_left_eq e, ← hadvance.rest, ← hafter]
          rw [hrest', escape_append_iff hchars] at he
          exact ⟨e ++ t, bytes ++ s, List.append_assoc .., hadvance.trans hpasses,
            .escape he hchars⟩
      · cases h
        exact ⟨[quote], [], (List.append_nil _).symm, hquote ▸ .head hhead, .close⟩
      · obtain ⟨t, s, rfl, hpasses, hchars⟩ := ih h
        exact ⟨b :: t, b :: s, List.append_cons .. |>.symm, .trans (.head hhead) hpasses,
          .plain hcontrol hbackslash hquote hchars⟩

theorem parseEscape_append {str e bytes : Bytes} {i : Nat} (he : Escape t e bytes) (h : Chars t s) :
    parseEscape str ⟨i, e ++ (t ++ rest)⟩ = .ok (bytes, e.length) := by
  obtain ⟨u, rfl⟩ := he.exists_cons
  exact (parseEscape_eq_ok rfl).mpr ⟨_, t ++ rest, rfl, rfl, (escape_append_iff h).mpr he⟩

theorem parseStringLoop_escape {str e u res bytes : Bytes} {i j fuel : Nat}
    (he : e = backslash :: u) (h : parseEscape str ⟨j, e ++ rest⟩ = .ok (bytes, e.length)) :
    parseStringLoop str i (fuel + 1) res ⟨j, e ++ rest⟩ =
      parseStringLoop str i fuel (res ++ bytes) ⟨j + e.length, rest⟩ := by
  rw [← advance_append, parseStringLoop]
  subst he
  have hcontrol : ¬ backslash < 32 := by decide
  simp only [List.cons_append, if_neg hcontrol, if_true] at h ⊢
  rw [h]

theorem parseStringLoop_complete {str : Bytes} {i : Nat} (h : Chars t s) (res : Bytes)
    (fuel j : Nat) (hfuel : t.length ≤ fuel) :
    parseStringLoop str i fuel res ⟨j, t ++ rest⟩ = .ok (res ++ s) ⟨j + t.length, rest⟩ := by
  induction h generalizing res fuel j with
  | close =>
    obtain ⟨fuel, rfl⟩ := Nat.exists_eq_add_one.mpr hfuel
    rw [List.append_nil]
    rfl
  | @plain b t s hcontrol hbackslash hquote h ih =>
    obtain ⟨fuel, rfl⟩ := Nat.exists_eq_add_one.mpr (Nat.zero_lt_of_lt hfuel)
    rw [List.cons_append, parseStringLoop]
    simp only [if_neg hcontrol, if_neg hbackslash, if_neg hquote]
    rw [show advance ⟨j, b :: (t ++ rest)⟩ 1 = ⟨j + 1, t ++ rest⟩ from rfl,
      ih _ _ _ (Nat.le_of_succ_le_succ hfuel), List.append_assoc, List.singleton_append,
      List.length_cons, Nat.add_right_comm, Nat.add_assoc]
  | @escape e bytes t s he h ih =>
    obtain ⟨u, hu⟩ := he.exists_cons
    rw [List.length_append] at hfuel ⊢
    have hpos : 1 ≤ e.length := hu ▸ Nat.succ_pos u.length
    obtain ⟨fuel, rfl⟩ := Nat.exists_eq_add_one.mpr (show 0 < fuel by omega)
    rw [List.append_assoc, parseStringLoop_escape hu (parseEscape_append he h),
      ih _ _ _ (by omega), List.append_assoc, Nat.add_assoc]

theorem parseStringLoop_ne_outOfFuel {str : Bytes} {i fuel : Nat} (res : Bytes)
    (hfuel : c.rest.length < fuel) : parseStringLoop str i fuel res c ≠ .outOfFuel := by
  induction fuel generalizing res c with
  | zero => exact absurd hfuel (Nat.not_lt_zero _)
  | succ fuel ih =>
    have hadvance {n : Nat} (hn : 0 < n) (hc : 0 < c.rest.length) :
        (c.advance n).rest.length < fuel := by
      rw [advance, List.length_drop]
      omega
    rw [parseStringLoop]
    split
    next => exact Result.error_ne_outOfFuel _
    next b rest hrest =>
      have hc : 0 < c.rest.length := hrest ▸ Nat.succ_pos rest.length
      split_ifs with hcontrol hbackslash hquote
      · exact Result.error_ne_outOfFuel _
      · subst hbackslash
        split
        next => exact Result.error_ne_outOfFuel _
        next bytes n hescape =>
          obtain ⟨e, after, -, rfl, he⟩ := (parseEscape_eq_ok hrest).mp hescape
          obtain ⟨u, rfl⟩ := he.exists_cons
          exact ih _ (hadvance (Nat.succ_pos _) hc)
      · exact Result.ok_ne_outOfFuel _ _
      · exact ih _ (hadvance Nat.one_pos hc)

theorem parseString_sound {str : Bytes} {fuel : Nat} (hhead : c.rest.head? = some quote)
    (h : parseString str fuel c = .ok s d) : ∃ t, Passes c (quote :: t) d ∧ Chars t s := by
  obtain ⟨t, s', rfl, hpasses, hchars⟩ := parseStringLoop_sound h
  exact ⟨t, .trans (.head hhead) hpasses, hchars⟩

theorem parseString_complete {str : Bytes} {i fuel : Nat} (h : Chars t s)
    (hfuel : t.length ≤ fuel) :
    parseString str fuel ⟨i, quote :: t ++ rest⟩ = .ok s ⟨i + (quote :: t).length, rest⟩ := by
  have hloop : parseStringLoop str i fuel [] ⟨i + 1, t ++ rest⟩ = _ :=
    parseStringLoop_complete h [] fuel (i + 1) hfuel
  rw [List.nil_append, Nat.add_assoc, Nat.add_comm 1] at hloop
  exact hloop

theorem parseString_ne_outOfFuel {str : Bytes} {fuel : Nat} (hfuel : c.rest.length ≤ fuel)
    (hhead : c.rest.head? = some quote) : parseString str fuel c ≠ .outOfFuel := by
  refine parseStringLoop_ne_outOfFuel [] ?_
  have hlength := (Passes.head hhead).length_rest
  rw [List.length_singleton] at hlength
  omega

end Overload.Lua.Json
