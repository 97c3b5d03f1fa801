import Overload.Lua.Grammar

namespace Overload.Lua.Json

open Scanner Cursor

variable {x : Interpreter} {calls : List ParseFunction} {str t rest w w' : Bytes}
  {c d : Cursor UInt8} {b : UInt8} {v : Value x.Num}

theorem passes_skipSpaces (c : Cursor UInt8) :
    ∃ w, Spaces w ∧ Passes c w (skipSpaces c) := by
  refine ⟨_, fun b hb => ?_, passes_seek _ c⟩
  exact (Bool.not_eq_false' _).mp (not_of_mem_upTo (c := c) (p := (!spaceChars.contains ·)) hb)

theorem skipSpaces_append {i : Nat} (hw : Spaces w) (hrest : Stops (!spaceChars.contains ·) rest) :
    skipSpaces ⟨i, w ++ rest⟩ = ⟨i + w.length, rest⟩ :=
  seek_append (fun b hb => by rw [hw b hb, Bool.not_true]) hrest

theorem contains_delimChars_of_space (hb : spaceChars.contains b = true) :
    delimChars.contains b = true := by
  rw [List.contains_iff_mem] at hb ⊢
  exact List.mem_append_left _ hb

theorem charFuncMap_delimChars : ∀ b ∈ delimChars, charFuncMap b = none :=
  List.all_iff_forall_prop.mp (by decide)

def ParseFunction.Begins : ParseFunction → UInt8 → Prop
  | .string, b => b = quote
  | .number, b => (isDigit b || b = '-'.toUInt8) = true
  | .literal, b => b ∈ ascii "tfn"
  | .array, b => b = '['.toUInt8
  | .object, b => b = openBrace

theorem begins_of_charFuncMap {f : ParseFunction} (h : charFuncMap b = some f) : f.Begins b := by
  unfold charFuncMap at h
  split_ifs at h with hquote hnumber hliteral harray hobject <;> cases h
  · exact hquote
  · exact hnumber
  · exact List.contains_iff_mem.mp hliteral
  · exact harray
  · exact hobject

theorem charFuncMap_number (h : (isDigit b || b = '-'.toUInt8) = true) :
    charFuncMap b = some .number := by
  have hquote : b ≠ quote := by
    rintro rfl
    revert h
    decide
  rw [charFuncMap, if_neg hquote, if_pos h]

theorem literalMap_words : ∀ entry ∈ literalMap x, (∀ b ∈ entry.1, delimChars.contains b = false) ∧
    ∃ b u, entry.1 = b :: u ∧ charFuncMap b = some .literal := by
  simp only [literalMap, List.forall_mem_cons, List.not_mem_nil, false_implies, implies_true,
    and_true]
  exact ⟨⟨List.all_iff_forall_prop.mp (by decide), _, _, rfl, rfl⟩,
    ⟨List.all_iff_forall_prop.mp (by decide), _, _, rfl, rfl⟩,
    List.all_iff_forall_prop.mp (by decide), _, _, rfl, rfl⟩

theorem lookup_literalMap {word : Bytes} :
    (literalMap x).lookup word = some v ↔ (word, v) ∈ literalMap x := by
  refine Overload.Json.lookup_eq_some_iff ?_
  rw [show (literalMap x).map Prod.fst = ["true", "false", "null"].map ascii from rfl]
  decide

theorem Writes.exists_cons (h : Writes x calls (.value v) t) :
    ∃ b u f, t = b :: u ∧ charFuncMap b = some f := by
  cases h with
  | literal _ hmem =>
    obtain ⟨-, b, u, hword, hb⟩ := literalMap_words _ hmem
    exact ⟨b, u, _, hword, hb⟩
  | number _ hb => exact ⟨_, _, _, rfl, charFuncMap_number hb⟩
  | string => exact ⟨_, _, .string, rfl, rfl⟩
  | array => exact ⟨_, _, .array, rfl, rfl⟩
  | object => exact ⟨_, _, .object, rfl, rfl⟩

section Calls

variable {α : Type} {body : Result Bytes UInt8 α} {value : α}

theorem call_eq_ok :
    call x calls body = .ok value c ↔ x.hasRoom calls = true ∧ body = .ok value c := by
  rw [call]
  split_ifs with hroom
  · exact (and_iff_right hroom).symm
  · exact iff_of_false nofun fun h => hroom h.1

theorem call_ne_outOfFuel (hbody : body ≠ .outOfFuel) : call x calls body ≠ .outOfFuel := by
  rw [call]
  split_ifs
  · exact hbody
  · exact Result.error_ne_outOfFuel _

end Calls

theorem exists_upTo_eq_cons {f : ParseFunction} (hhead : c.rest.head? = some b)
    (hb : charFuncMap b = some f) : ∃ s, c.upTo delimChars.contains = b :: s := by
  have hpasses := passes_seek delimChars.contains c
  cases hs : c.upTo delimChars.contains with
  | nil =>
    have hrest := hpasses.rest
    rw [hs, List.nil_append] at hrest
    have hdelim := stops_seek delimChars.contains c b (hrest ▸ hhead)
    rw [charFuncMap_delimChars b (List.contains_iff_mem.mp hdelim)] at hb
    cases hb
  | cons b' s =>
    rw [hpasses.rest, hs] at hhead
    cases hhead
    exact ⟨s, rfl⟩

theorem parseNumber_sound (hroom : x.hasRoom (.number :: calls) = true)
    (hhead : c.rest.head? = some b) (hb : charFuncMap b = some .number)
    (h : parseNumber x str c = .ok v d) : ∃ t, Passes c t d ∧ Writes x calls (.value v) t := by
  obtain ⟨s, hs⟩ := exists_upTo_eq_cons hhead hb
  unfold parseNumber at h
  dsimp only at h
  split at h
  next => cases h
  next n hn =>
    cases h
    refine ⟨b :: s, hs ▸ passes_seek _ c, .number hroom (begins_of_charFuncMap hb) ?_ (hs ▸ hn)⟩
    exact fun d hd => not_of_mem_upTo (hs ▸ hd)

theorem parseLiteral_sound (hroom : x.hasRoom (.literal :: calls) = true)
    (h : parseLiteral x str c = .ok v d) : ∃ t, Passes c t d ∧ Writes x calls (.value v) t := by
  unfold parseLiteral at h
  dsimp only at h
  split at h
  next => cases h
  next value hvalue =>
    cases h
    exact ⟨_, passes_seek _ c, .literal hroom (lookup_literalMap.mp hvalue)⟩

def Sound (calls : List ParseFunction) (parse : Cursor UInt8 → Result Bytes UInt8 (Value x.Num)) :
    Prop :=
  ∀ c v d, parse c = .ok v d → ∃ t, Passes c t d ∧ Writes x calls (.value v) t

theorem parseArrayLoop_sound {parse : Cursor UInt8 → Result Bytes UInt8 (Value x.Num)}
    (hparse : Sound calls parse) {res : List (Key × Value x.Num)} {n fuel : Nat}
    (h : parseArrayLoop str parse fuel res n c = .ok v d) :
    ∃ values t, v = .table (arrayEntries res n values) ∧ Passes c t d ∧
      Writes x calls (.elements values) t := by
  induction fuel generalizing res n c with
  | zero => cases h
  | succ fuel ih =>
    obtain ⟨w, hw, hc⟩ := passes_skipSpaces c
    rw [parseArrayLoop] at h
    split_ifs at h with hclose
    · cases h
      exact ⟨[], _, rfl, hc.trans (.head hclose), .noElement hw⟩
    obtain ⟨value, c', hvalue, h⟩ := Result.bind_eq_ok.mp h
    obtain ⟨t, ht, hwrites⟩ := hparse _ _ _ hvalue
    obtain ⟨w', hw', hc'⟩ := passes_skipSpaces c'
    dsimp only at h
    split_ifs at h with hlast hcomma
    · cases h
      exact ⟨[value], _, rfl, ((hc.trans ht).trans hc').trans (.head hlast),
        .lastElement hw hwrites hw'⟩
    · obtain ⟨values, rest, rfl, hrest, hvalues⟩ := ih h
      exact ⟨value :: values, _, rfl, (((hc.trans ht).trans hc').trans (.head hcomma)).trans hrest,
        .element hw hwrites hw' hvalues⟩

theorem parseObjectLoop_sound {parse : Cursor UInt8 → Result Bytes UInt8 (Value x.Num)}
    (hparse : Sound calls parse) {res : List (Key × Value x.Num)} {fuel : Nat}
    (h : parseObjectLoop str calls parse fuel res c = .ok v d) :
    ∃ members t, v = .table (objectEntries res members) ∧ Passes c t d ∧
      Writes x calls (.members members) t := by
  induction fuel generalizing res c with
  | zero => cases h
  | succ fuel ih =>
    obtain ⟨w, hw, hc⟩ := passes_skipSpaces c
    rw [parseObjectLoop] at h
    split_ifs at h with hclose hquote
    · cases h
      exact ⟨[], _, rfl, hc.trans (.head hclose), .noMember hw⟩
    obtain ⟨key, c₁, hkey, h⟩ := Result.bind_eq_ok.mp h
    obtain ⟨hroom, hkey⟩ := call_eq_ok.mp hkey
    obtain ⟨k, hk, hchars⟩ := parseString_sound hquote hkey
    obtain ⟨w₁, hw₁, hc₁⟩ := passes_skipSpaces c₁
    dsimp only at h
    split_ifs at h with hcolon
    obtain ⟨w₂, hw₂, hc₂⟩ := passes_skipSpaces ((skipSpaces c₁).advance 1)
    obtain ⟨value, c₃, hvalue, h⟩ := Result.bind_eq_ok.mp h
    obtain ⟨t, ht, hwrites⟩ := hparse _ _ _ hvalue
    obtain ⟨w₃, hw₃, hc₃⟩ := passes_skipSpaces c₃
    have hkey := ((hc.trans hk).trans hc₁).trans (.trans (.head hcolon) hc₂)
    have hmember := (hkey.trans ht).trans hc₃
    split_ifs at h with hlast hcomma
    · cases h
      exact ⟨[(key, value)], _, rfl, hmember.trans (.head hlast),
        .lastMember hroom hw hchars hw₁ hw₂ hwrites hw₃⟩
    · obtain ⟨members, rest, rfl, hrest, hmembers⟩ := ih h
      exact ⟨(key, value) :: members, _, rfl, (hmember.trans (.head hcomma)).trans hrest,
        .member hroom hw hchars hw₁ hw₂ hwrites hw₃ hmembers⟩

theorem parse_sound (fuel : Nat) (calls : List ParseFunction) :
    Sound calls (parse x str fuel calls) := by
  induction fuel generalizing calls with
  | zero => nofun
  | succ fuel ih =>
    intro c v d h
    rw [parse] at h
    split at h
    next f hf =>
      obtain ⟨b, hhead, hb⟩ := Option.bind_eq_some_iff.mp hf
      obtain ⟨hroom, h⟩ := call_eq_ok.mp h
      cases f with
      | string =>
        obtain ⟨s, hs, rfl⟩ := Result.map_eq_ok.mp h
        obtain ⟨t, hpasses, hchars⟩ := parseString_sound (begins_of_charFuncMap hb ▸ hhead) hs
        exact ⟨quote :: t, hpasses, .string hroom hchars⟩
      | number => exact parseNumber_sound hroom hhead hb h
      | literal => exact parseLiteral_sound hroom h
      | array =>
        obtain ⟨values, t, rfl, hpasses, hvalues⟩ := parseArrayLoop_sound (ih _) h
        exact ⟨_, .trans (.head (begins_of_charFuncMap hb ▸ hhead)) hpasses, .array hroom hvalues⟩
      | object =>
        obtain ⟨members, t, rfl, hpasses, hmembers⟩ := parseObjectLoop_sound (ih _) h
        exact ⟨_, .trans (.head (begins_of_charFuncMap hb ▸ hhead)) hpasses,
          .object hroom hmembers⟩
    next => cases h

theorem stops_delim (hw : Spaces w) (hb : delimChars.contains b = true) :
    Stops delimChars.contains (w ++ b :: rest) := by
  intro b' hb'
  cases w with
  | nil =>
    cases hb'
    exact hb
  | cons b w =>
    cases hb'
    exact contains_delimChars_of_space (hw _ List.mem_cons_self)

theorem not_space_of_charFuncMap {f : ParseFunction} (hb : charFuncMap b = some f) :
    spaceChars.contains b = false := by
  cases hspace : spaceChars.contains b with
  | false => rfl
  | true =>
    have hdelim := List.contains_iff_mem.mp (contains_delimChars_of_space hspace)
    rw [charFuncMap_delimChars b hdelim] at hb
    cases hb

theorem skipSpaces_cons {i : Nat} (hw : Spaces w) (hb : spaceChars.contains b = false) :
    skipSpaces ⟨i, w ++ b :: rest⟩ = ⟨i + w.length, b :: rest⟩ := by
  refine skipSpaces_append hw fun b' hb' => ?_
  cases hb'
  exact (Bool.not_eq_true' _).mpr hb

section Loops

variable {parse : Cursor UInt8 → Result Bytes UInt8 (Value x.Num)} {res : List (Key × Value x.Num)}
  {n i fuel : Nat}

theorem parseArrayLoop_close (hw : Spaces w) :
    parseArrayLoop str parse (fuel + 1) res n ⟨i, w ++ ']'.toUInt8 :: rest⟩ =
      .ok (.table res) ⟨i + w.length + 1, rest⟩ := by
  rw [parseArrayLoop, skipSpaces_cons hw (by decide)]
  rfl

theorem parseArrayLoop_value {chr : UInt8} (hw : Spaces w) (ht : Writes x calls (.value v) t)
    (hw' : Spaces w') (hchr : spaceChars.contains chr = false)
    (hparse : parse ⟨i + w.length, t ++ (w' ++ chr :: rest)⟩ =
      .ok v ⟨i + w.length + t.length, w' ++ chr :: rest⟩) :
    parseArrayLoop str parse (fuel + 1) res n ⟨i, w ++ (t ++ (w' ++ chr :: rest))⟩ =
      let c : Cursor UInt8 := ⟨i + w.length + t.length + w'.length + 1, rest⟩
      if chr = ']'.toUInt8 then .ok (.table (setEntry res (.index n) v)) c
      else if chr = ','.toUInt8 then
        parseArrayLoop str parse fuel (setEntry res (.index n) v) (n + 1) c
      else .error (decodeError str c.idx (ascii "expected ']' or ','")) := by
  obtain ⟨b, u, f, rfl, hb⟩ := ht.exists_cons
  have hclose : (b :: (u ++ (w' ++ chr :: rest))).head? ≠ some ']'.toUInt8 := by
    rintro ⟨⟩
    cases hb
  rw [parseArrayLoop, List.cons_append, skipSpaces_cons hw (not_space_of_charFuncMap hb)]
  dsimp only
  rw [if_neg hclose, ← List.cons_append, hparse, Result.bind_ok, skipSpaces_cons hw' hchr]
  simp only [List.head?_cons, Option.some.injEq]
  rfl

theorem parseObjectLoop_close (hw : Spaces w) :
    parseObjectLoop str calls parse (fuel + 1) res ⟨i, w ++ closeBrace :: rest⟩ =
      .ok (.table res) ⟨i + w.length + 1, rest⟩ := by
  rw [parseObjectLoop, skipSpaces_cons hw (by decide)]
  rfl

theorem parseObjectLoop_member {chr : UInt8} {k key w₁ w₂ w₃ : Bytes}
    (hroom : x.hasRoom (.string :: calls) = true) (hw : Spaces w)
    (hk : Chars k key) (hw₁ : Spaces w₁) (hw₂ : Spaces w₂) (ht : Writes x calls (.value v) t)
    (hw₃ : Spaces w₃) (hchr : spaceChars.contains chr = false) (hfuel : k.length ≤ fuel)
    (hparse : ∀ j, parse ⟨j, t ++ (w₃ ++ chr :: rest)⟩ = .ok v ⟨j + t.length, w₃ ++ chr :: rest⟩) :
    parseObjectLoop str calls parse (fuel + 1) res
        ⟨i, w ++ quote :: (k ++ (w₁ ++ ':'.toUInt8 :: (w₂ ++ (t ++ (w₃ ++ chr :: rest)))))⟩ =
      let c : Cursor UInt8 := ⟨i + w.length + (quote :: k).length + w₁.length + 1 + w₂.length +
        t.length + w₃.length + 1, rest⟩
      if chr = closeBrace then .ok (.table (setEntry res (.string key) v)) c
      else if chr = ','.toUInt8 then
        parseObjectLoop str calls parse fuel (setEntry res (.string key) v) c
      else .error (decodeError str c.idx (ascii "expected '\x7d' or ','")) := by
  have hclose (rest : Bytes) : (quote :: rest).head? ≠ some closeBrace := by
    rw [List.head?_cons]
    decide
  have hcolon (j : Nat) (rest : Bytes) :
      advance ⟨j, ':'.toUInt8 :: rest⟩ 1 = ⟨j + 1, rest⟩ := rfl
  obtain ⟨b, u, f, hbu, hb⟩ := ht.exists_cons
  rw [parseObjectLoop, skipSpaces_cons hw (by decide)]
  dsimp only
  rw [if_neg (hclose _), if_pos List.head?_cons, ← List.cons_append,
    call_eq_ok.mpr ⟨hroom, parseString_complete hk hfuel⟩, Result.bind_ok,
    skipSpaces_cons hw₁ (by decide)]
  dsimp only
  rw [if_pos List.head?_cons, hcolon, hbu, List.cons_append,
    skipSpaces_cons hw₂ (not_space_of_charFuncMap hb), ← List.cons_append, ← hbu, hparse,
    Result.bind_ok, skipSpaces_cons hw₃ hchr]
  simp only [List.head?_cons, Option.some.injEq]
  rfl

end Loops

theorem parseNumber_complete {s : Bytes} {n : x.Num} {i : Nat}
    (hs : ∀ b ∈ s, delimChars.contains b = false) (hn : x.tonumber s = some n)
    (hrest : Stops delimChars.contains rest) :
    parseNumber x str ⟨i, s ++ rest⟩ = .ok (.number n) ⟨i + s.length, rest⟩ := by
  rw [parseNumber, upTo_append hs hrest, nextDelim, seek_append hs hrest]
  dsimp only
  rw [hn]

theorem parseLiteral_complete {word : Bytes} {i : Nat} (hword : (word, v) ∈ literalMap x)
    (hrest : Stops delimChars.contains rest) :
    parseLiteral x str ⟨i, word ++ rest⟩ = .ok v ⟨i + word.length, rest⟩ := by
  obtain ⟨hdelim, -⟩ := literalMap_words _ hword
  rw [parseLiteral, upTo_append hdelim hrest, nextDelim, seek_append hdelim hrest]
  dsimp only
  rw [lookup_literalMap.mpr hword]

def Reads (x : Interpreter) (str : Bytes) (calls : List ParseFunction) : Form x → Bytes → Prop
  | .value v, t => ∀ fuel i rest, 2 * t.length < fuel → Stops delimChars.contains rest →
    parse x str fuel calls ⟨i, t ++ rest⟩ = .ok v ⟨i + t.length, rest⟩
  | .elements values, t => ∀ limit fuel res n i rest, 2 * t.length ≤ limit → t.length ≤ fuel →
    parseArrayLoop str (parse x str limit calls) fuel res n ⟨i, t ++ rest⟩ =
      .ok (.table (arrayEntries res n values)) ⟨i + t.length, rest⟩
  | .members members, t => ∀ limit fuel res i rest, 2 * t.length ≤ limit → t.length ≤ fuel →
    parseObjectLoop str calls (parse x str limit calls) fuel res ⟨i, t ++ rest⟩ =
      .ok (.table (objectEntries res members)) ⟨i + t.length, rest⟩

section Reading

variable {k key w₁ w₂ w₃ rest' : Bytes} {values : List (Value x.Num)}
  {members : List (Bytes × Value x.Num)}

theorem reads_value (h : ∀ fuel i rest, 2 * t.length ≤ fuel → Stops delimChars.contains rest →
    parse x str (fuel + 1) calls ⟨i, t ++ rest⟩ = .ok v ⟨i + t.length, rest⟩) :
    Reads x str calls (.value v) t := by
  intro fuel i rest hfuel hrest
  obtain ⟨fuel, rfl⟩ := Nat.exists_eq_add_one.mpr (Nat.zero_lt_of_lt hfuel)
  exact h fuel i rest (Nat.lt_succ_iff.mp hfuel) hrest

theorem reads_lastElement (hw : Spaces w) (ht : Writes x calls (.value v) t) (hw' : Spaces w')
    (hreads : Reads x str calls (.value v) t) :
    Reads x str calls (.elements [v]) (w ++ t ++ w' ++ [']'.toUInt8]) := by
  intro limit fuel res n i rest hlimit hfuel
  simp only [List.length_append, List.length_singleton] at hlimit hfuel ⊢
  obtain ⟨fuel, rfl⟩ := Nat.exists_eq_add_one.mpr (Nat.zero_lt_of_lt hfuel)
  have hparse := hreads limit (i + w.length) (w' ++ ']'.toUInt8 :: rest) (by omega)
    (stops_delim hw' (by decide))
  simp only [List.append_assoc, List.singleton_append]
  rw [parseArrayLoop_value hw ht hw' (by decide) hparse]
  rw [if_pos rfl]
  exact Result.ok_idx (by omega)

theorem reads_element (hw : Spaces w) (ht : Writes x calls (.value v) t) (hw' : Spaces w')
    (hreads : Reads x str calls (.value v) t) (hrest : Reads x str calls (.elements values) rest') :
    Reads x str calls (.elements (v :: values)) (w ++ t ++ w' ++ [','.toUInt8] ++ rest') := by
  intro limit fuel res n i rest hlimit hfuel
  simp only [List.length_append, List.length_singleton] at hlimit hfuel ⊢
  obtain ⟨fuel, rfl⟩ := Nat.exists_eq_add_one.mpr (show 0 < fuel by omega)
  have hparse := hreads limit (i + w.length) (w' ++ ','.toUInt8 :: (rest' ++ rest)) (by omega)
    (stops_delim hw' (by decide))
  have hcomma : ','.toUInt8 ≠ ']'.toUInt8 := by decide
  simp only [List.append_assoc, List.cons_append, List.nil_append]
  rw [parseArrayLoop_value hw ht hw' (by decide) hparse]
  rw [if_neg hcomma, if_pos rfl, hrest _ _ _ _ _ _ (by omega) (by omega)]
  exact Result.ok_idx (by omega)

theorem reads_lastMember (hroom : x.hasRoom (.string :: calls) = true) (hw : Spaces w)
    (hk : Chars k key) (hw₁ : Spaces w₁) (hw₂ : Spaces w₂)
    (ht : Writes x calls (.value v) t) (hw₃ : Spaces w₃) (hreads : Reads x str calls (.value v) t) :
    Reads x str calls (.members [(key, v)])
      (w ++ quote :: k ++ w₁ ++ ':'.toUInt8 :: w₂ ++ t ++ w₃ ++ [closeBrace]) := by
  intro limit fuel res i rest hlimit hfuel
  simp only [List.length_append, List.length_cons, List.length_nil] at hlimit hfuel ⊢
  obtain ⟨fuel, rfl⟩ := Nat.exists_eq_add_one.mpr (Nat.zero_lt_of_lt hfuel)
  have hparse (j : Nat) := hreads limit j (w₃ ++ closeBrace :: rest) (by omega)
    (stops_delim hw₃ (by decide))
  simp only [List.append_assoc, List.cons_append, List.nil_append]
  rw [parseObjectLoop_member hroom hw hk hw₁ hw₂ ht hw₃ (by decide) (by omega) hparse]
  rw [if_pos rfl]
  exact Result.ok_idx (by rw [List.length_cons]; omega)

theorem reads_member (hroom : x.hasRoom (.string :: calls) = true) (hw : Spaces w)
    (hk : Chars k key) (hw₁ : Spaces w₁) (hw₂ : Spaces w₂)
    (ht : Writes x calls (.value v) t) (hw₃ : Spaces w₃) (hreads : Reads x str calls (.value v) t)
    (hrest : Reads x str calls (.members members) rest') :
    Reads x str calls (.members ((key, v) :: members))
      (w ++ quote :: k ++ w₁ ++ ':'.toUInt8 :: w₂ ++ t ++ w₃ ++ [','.toUInt8] ++ rest') := by
  intro limit fuel res i rest hlimit hfuel
  simp only [List.length_append, List.length_cons, List.length_nil] at hlimit hfuel ⊢
  obtain ⟨fuel, rfl⟩ := Nat.exists_eq_add_one.mpr (show 0 < fuel by omega)
  have hparse (j : Nat) := hreads limit j (w₃ ++ ','.toUInt8 :: (rest' ++ rest)) (by omega)
    (stops_delim hw₃ (by decide))
  have hcomma : ','.toUInt8 ≠ closeBrace := by decide
  simp only [List.append_assoc, List.cons_append, List.nil_append]
  rw [parseObjectLoop_member hroom hw hk hw₁ hw₂ ht hw₃ (by decide) (by omega) hparse]
  rw [if_neg hcomma, if_pos rfl, hrest _ _ _ _ _ (by omega) (by omega)]
  exact Result.ok_idx (by rw [List.length_cons]; omega)

end Reading

theorem parse_cons {f : ParseFunction} {u : Bytes} {i fuel : Nat} :
    charFuncMap b = some f → x.hasRoom (f :: calls) = true →
    parse x str (fuel + 1) calls ⟨i, b :: u⟩ =
      match f with
      | .string => (parseString str fuel ⟨i, b :: u⟩).map .string
      | .number => parseNumber x str ⟨i, b :: u⟩
      | .literal => parseLiteral x str ⟨i, b :: u⟩
      | .array => parseArrayLoop str (parse x str fuel (.array :: calls)) fuel [] 1 ⟨i + 1, u⟩
      | .object =>
        parseObjectLoop str (.object :: calls) (parse x str fuel (.object :: calls)) fuel []
          ⟨i + 1, u⟩ := by
  intro hb hroom
  rw [parse, List.head?_cons, Option.bind_some, hb]
  dsimp only
  rw [call, if_pos hroom]
  rfl

theorem Writes.reads {form : Form x} (h : Writes x calls form t) : Reads x str calls form t := by
  induction h with
  | literal hroom hword =>
    refine reads_value fun fuel i rest _ hrest => ?_
    obtain ⟨-, b, u, rfl, hb⟩ := literalMap_words _ hword
    rw [List.cons_append, parse_cons hb hroom]
    exact parseLiteral_complete hword hrest
  | number hroom hb hs hn =>
    refine reads_value fun fuel i rest _ hrest => ?_
    rw [List.cons_append, parse_cons (charFuncMap_number hb) hroom]
    exact parseNumber_complete hs hn hrest
  | string hroom hchars =>
    refine reads_value fun fuel i rest hfuel _ => ?_
    rw [List.length_cons] at hfuel
    rw [List.cons_append, parse_cons (f := .string) rfl hroom]
    exact congrArg (Result.map Value.string) (parseString_complete hchars (by omega))
  | array hroom hvalues ih =>
    refine reads_value fun fuel i rest hfuel _ => ?_
    rw [List.length_cons] at hfuel
    have harray := ih fuel fuel [] 1 (i + 1) rest (by omega) (by omega)
    rw [Nat.add_assoc, Nat.add_comm 1] at harray
    rw [List.cons_append, parse_cons (f := .array) rfl hroom]
    exact harray
  | object hroom hmembers ih =>
    refine reads_value fun fuel i rest hfuel _ => ?_
    rw [List.length_cons] at hfuel
    have hobject := ih fuel fuel [] (i + 1) rest (by omega) (by omega)
    rw [Nat.add_assoc, Nat.add_comm 1] at hobject
    rw [List.cons_append, parse_cons (f := .object) rfl hroom]
    exact hobject
  | noElement hw =>
    intro limit fuel res n i rest hlimit hfuel
    rw [List.length_append, List.length_singleton] at hfuel ⊢
    obtain ⟨fuel, rfl⟩ := Nat.exists_eq_add_one.mpr (Nat.zero_lt_of_lt hfuel)
    rw [List.append_assoc, List.singleton_append, parseArrayLoop_close hw]
    rfl
  | lastElement hw ht hw' ih => exact reads_lastElement hw ht hw' ih
  | element hw ht hw' _ ih ihrest => exact reads_element hw ht hw' ih ihrest
  | noMember hw =>
    intro limit fuel res i rest hlimit hfuel
    rw [List.length_append, List.length_singleton] at hfuel ⊢
    obtain ⟨fuel, rfl⟩ := Nat.exists_eq_add_one.mpr (Nat.zero_lt_of_lt hfuel)
    rw [List.append_assoc, List.singleton_append, parseObjectLoop_close hw]
    rfl
  | lastMember hroom hw hk hw₁ hw₂ ht hw₃ ih =>
    exact reads_lastMember hroom hw hk hw₁ hw₂ ht hw₃ ih
  | member hroom hw hk hw₁ hw₂ ht hw₃ _ ih ihrest =>
    exact reads_member hroom hw hk hw₁ hw₂ ht hw₃ ih ihrest

theorem parseArrayLoop_ne_outOfFuel {parse : Cursor UInt8 → Result Bytes UInt8 (Value x.Num)}
    {res : List (Key × Value x.Num)} {n m fuel : Nat} (hsound : Sound calls parse)
    (hparse : ∀ c : Cursor UInt8, c.rest.length ≤ m → parse c ≠ .outOfFuel)
    (hm : c.rest.length ≤ m) (hfuel : c.rest.length < fuel) :
    parseArrayLoop str parse fuel res n c ≠ .outOfFuel := by
  induction fuel generalizing res n c with
  | zero => exact absurd hfuel (Nat.not_lt_zero _)
  | succ fuel ih =>
    obtain ⟨w, -, hc⟩ := passes_skipSpaces c
    have hlength := hc.length_rest
    rw [parseArrayLoop]
    split_ifs with hclose
    · nofun
    refine Result.bind_ne_outOfFuel (hparse _ (by omega)) fun value c' hvalue => ?_
    obtain ⟨t, ht, -⟩ := hsound _ _ _ hvalue
    obtain ⟨w', -, hc'⟩ := passes_skipSpaces c'
    have hlength' := (ht.trans hc').length_rest
    dsimp only
    split_ifs with hlast hcomma
    · nofun
    · have hnext := (Passes.head hcomma).length_rest
      rw [List.length_singleton] at hnext
      exact ih (by omega) (by omega)
    · nofun

theorem parseObjectLoop_ne_outOfFuel {parse : Cursor UInt8 → Result Bytes UInt8 (Value x.Num)}
    {res : List (Key × Value x.Num)} {m fuel : Nat} (hsound : Sound calls parse)
    (hparse : ∀ c : Cursor UInt8, c.rest.length ≤ m → parse c ≠ .outOfFuel)
    (hm : c.rest.length ≤ m) (hfuel : c.rest.length < fuel) :
    parseObjectLoop str calls parse fuel res c ≠ .outOfFuel := by
  induction fuel generalizing res c with
  | zero => exact absurd hfuel (Nat.not_lt_zero _)
  | succ fuel ih =>
    obtain ⟨w, -, hc⟩ := passes_skipSpaces c
    have hlength := hc.length_rest
    rw [parseObjectLoop]
    split_ifs with hclose hquote
    · nofun
    · refine Result.bind_ne_outOfFuel
        (call_ne_outOfFuel (parseString_ne_outOfFuel (by omega) hquote)) fun key c₁ hkey => ?_
      obtain ⟨k, hk, -⟩ := parseString_sound hquote (call_eq_ok.mp hkey).2
      obtain ⟨w₁, -, hc₁⟩ := passes_skipSpaces c₁
      dsimp only
      split_ifs with hcolon
      · obtain ⟨w₂, -, hc₂⟩ := passes_skipSpaces ((skipSpaces c₁).advance 1)
        have hlength₂ := (((hk.trans hc₁).trans (.head hcolon)).trans hc₂).length_rest
        refine Result.bind_ne_outOfFuel (hparse _ (by omega)) fun value c₃ hvalue => ?_
        obtain ⟨t, ht, -⟩ := hsound _ _ _ hvalue
        obtain ⟨w₃, -, hc₃⟩ := passes_skipSpaces c₃
        have hlength₃ := (ht.trans hc₃).length_rest
        split_ifs with hlast hcomma
        · nofun
        · have hnext := (Passes.head hcomma).length_rest
          rw [List.length_singleton] at hnext
          exact ih (by omega) (by omega)
        · nofun
      · nofun
    · nofun

theorem parse_ne_outOfFuel {fuel : Nat} (hfuel : 2 * c.rest.length < fuel) :
    parse x str fuel calls c ≠ .outOfFuel := by
  induction fuel generalizing c calls with
  | zero => exact absurd hfuel (Nat.not_lt_zero _)
  | succ fuel ih =>
    rw [parse]
    split
    next f hf =>
      obtain ⟨b, hhead, hb⟩ := Option.bind_eq_some_iff.mp hf
      have hlength : c.rest.length = 1 + (c.advance 1).rest.length :=
        (Passes.head hhead).length_rest
      have hparse (calls : List ParseFunction) (c' : Cursor UInt8)
          (hc' : c'.rest.length ≤ (c.advance 1).rest.length) :
          parse x str fuel calls c' ≠ .outOfFuel := ih (by omega)
      refine call_ne_outOfFuel ?_
      cases f with
      | string =>
        exact Result.bind_ne_outOfFuel
          (parseString_ne_outOfFuel (by omega) (begins_of_charFuncMap hb ▸ hhead)) (by nofun)
      | number =>
        unfold parseNumber
        dsimp only
        split <;> nofun
      | literal =>
        unfold parseLiteral
        dsimp only
        split <;> nofun
      | array =>
        exact parseArrayLoop_ne_outOfFuel (parse_sound fuel _) (hparse _) Nat.le.refl (by omega)
      | object =>
        exact parseObjectLoop_ne_outOfFuel (parse_sound fuel _) (hparse _) Nat.le.refl (by omega)
    next => nofun

/-- A value with spaces around it, nested no deeper than the stack has room for. -/
def Document (x : Interpreter) (v : Value x.Num) (str : Bytes) : Prop :=
  ∃ w t w', str = w ++ t ++ w' ∧ Spaces w ∧ Writes x [] (.value v) t ∧ Spaces w'

theorem decode_sound (h : decode x str = .ok v c) : Document x v str := by
  obtain ⟨value, c', hparse, h⟩ := Result.bind_eq_ok.mp h
  obtain ⟨w, hw, hc⟩ := passes_skipSpaces ⟨1, str⟩
  obtain ⟨t, ht, hwrites⟩ := parse_sound _ _ _ _ _ hparse
  obtain ⟨w', hw', hc'⟩ := passes_skipSpaces c'
  dsimp only at h
  split_ifs at h with hend
  cases h
  have hrest := ((hc.trans ht).trans hc').rest
  rw [hend, List.append_nil] at hrest
  exact ⟨w, t, w', hrest, hw, hwrites, hw'⟩

theorem skipSpaces_end {i : Nat} (hw : Spaces w) : skipSpaces ⟨i, w⟩ = ⟨i + w.length, []⟩ := by
  have hskip : skipSpaces ⟨i, w ++ []⟩ = _ := skipSpaces_append hw nofun
  rwa [List.append_nil] at hskip

theorem decode_complete (h : Document x v str) : decode x str = .ok v ⟨1 + str.length, []⟩ := by
  obtain ⟨w, t, w', rfl, hw, hwrites, hw'⟩ := h
  obtain ⟨b, u, f, hbu, hb⟩ := hwrites.exists_cons
  have hskip : skipSpaces ⟨1, w ++ t ++ w'⟩ = ⟨1 + w.length, t ++ w'⟩ := by
    rw [hbu, List.append_assoc, List.cons_append]
    exact skipSpaces_cons hw (not_space_of_charFuncMap hb)
  have hstops : Stops delimChars.contains w' := fun b hb =>
    contains_delimChars_of_space (hw' b (List.mem_of_mem_head? hb))
  rw [decode, hskip, hwrites.reads _ _ _ _ hstops, Result.bind_ok, skipSpaces_end hw']
  · rw [if_pos rfl]
    exact Result.ok_idx (by simp only [List.length_append]; omega)
  · simp only [List.length_append]
    omega

theorem decode_ne_outOfFuel (x : Interpreter) (str : Bytes) : decode x str ≠ .outOfFuel := by
  obtain ⟨w, -, hc⟩ := passes_skipSpaces ⟨1, str⟩
  have hlength := hc.length_rest
  dsimp only at hlength
  refine Result.bind_ne_outOfFuel (parse_ne_outOfFuel (by omega)) fun value c' _ => ?_
  dsimp only
  split_ifs <;> nofun

/-- `json.decode` always comes back, and with a value exactly from a document of it. -/
theorem decode_reads_documents (x : Interpreter) (str : Bytes) :
    decode x str ≠ .outOfFuel ∧
      ∀ v, (∃ c, decode x str = .ok v c) ↔ Document x v str := by
  refine ⟨decode_ne_outOfFuel x str, fun v => ⟨?_, fun h => ⟨_, decode_complete h⟩⟩⟩
  rintro ⟨c, h⟩
  exact decode_sound h

end Overload.Lua.Json
