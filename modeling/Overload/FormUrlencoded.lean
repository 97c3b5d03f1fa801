import Mathlib.Data.Char

namespace Overload.FormUrlencoded

def following (b : UInt8) : Option (List (Nat × Nat)) :=
  let n := b.toNat
  if n < 0x80 then some []
  else if n < 0xc2 then none
  else if n < 0xe0 then some [(0x80, 0xbf)]
  else if n < 0xf0 then
    some [(if n = 0xe0 then 0xa0 else 0x80, if n = 0xed then 0x9f else 0xbf), (0x80, 0xbf)]
  else if n < 0xf5 then
    some [(if n = 0xf0 then 0x90 else 0x80, if n = 0xf4 then 0x8f else 0xbf), (0x80, 0xbf),
      (0x80, 0xbf)]
  else none

def consume : List (Nat × Nat) → List UInt8 → List UInt8 × Bool × List UInt8
  | [], bytes => ([], true, bytes)
  | _ :: _, [] => ([], false, [])
  | (least, greatest) :: ranges, b :: bytes =>
    if least ≤ b.toNat ∧ b.toNat ≤ greatest then
      let (taken, complete, rest) := consume ranges bytes
      (b :: taken, complete, rest)
    else ([], false, b :: bytes)

def firstBits (b : UInt8) : Nat :=
  let n := b.toNat
  if n < 0x80 then n else if n < 0xe0 then n % 32 else if n < 0xf0 then n % 16 else n % 8

def scalar (b : UInt8) (taken : List UInt8) : Nat :=
  taken.foldl (fun n c => n * 64 + c.toNat % 64) (firstBits b)

def replacement : Char := Char.ofNat 0xfffd

def decodeFirst (b : UInt8) (bytes : List UInt8) : Char × List UInt8 :=
  match following b with
  | none => (replacement, bytes)
  | some ranges =>
    let (taken, complete, rest) := consume ranges bytes
    (if complete then Char.ofNat (scalar b taken) else replacement, rest)

theorem length_consume_le (ranges : List (Nat × Nat)) (bytes : List UInt8) :
    (consume ranges bytes).2.2.length ≤ bytes.length := by
  induction ranges generalizing bytes with
  | nil => exact Nat.le_refl _
  | cons range ranges ih =>
    cases bytes with
    | nil => exact Nat.le_refl _
    | cons b bytes =>
      simp only [consume]
      split
      · exact Nat.le_succ_of_le (ih bytes)
      · exact Nat.le_refl _

theorem length_decodeFirst_le (b : UInt8) (bytes : List UInt8) :
    (decodeFirst b bytes).2.length ≤ bytes.length := by
  rw [decodeFirst]
  split
  · exact Nat.le_refl _
  · exact length_consume_le _ _

def utf8Lossy : List UInt8 → List Char
  | [] => []
  | b :: bytes => (decodeFirst b bytes).1 :: utf8Lossy (decodeFirst b bytes).2
termination_by bytes => bytes.length
decreasing_by exact Nat.lt_succ_of_le (length_decodeFirst_le b bytes)

theorem length_utf8Lossy_le (bytes : List UInt8) : (utf8Lossy bytes).length ≤ bytes.length := by
  fun_induction utf8Lossy bytes with
  | case1 => exact Nat.le_refl _
  | case2 b bytes ih =>
    have := length_decodeFirst_le b bytes
    simp only [List.length_cons]
    omega

def Begins (bytes : List UInt8) : Prop :=
  ∀ b ∈ bytes.head?, b.toNat < 0x80 ∨ 0xbf < b.toNat

theorem consume_append {ranges : List (Nat × Nat)} {rest : List UInt8} (hrest : Begins rest)
    (hranges : ∀ r ∈ ranges, 0x80 ≤ r.1 ∧ r.2 ≤ 0xbf) (bytes : List UInt8) :
    consume ranges (bytes ++ rest) =
      ((consume ranges bytes).1, (consume ranges bytes).2.1,
        (consume ranges bytes).2.2 ++ rest) := by
  induction ranges generalizing bytes with
  | nil => rfl
  | cons range ranges ih =>
    obtain ⟨hrange, hranges⟩ := List.forall_mem_cons.mp hranges
    cases bytes with
    | nil =>
      cases rest with
      | nil => rfl
      | cons b rest =>
        have hb := hrest b rfl
        simp only [List.nil_append, consume]
        rw [if_neg (by omega)]
    | cons b bytes =>
      simp only [List.cons_append, consume, ih hranges]
      split <;> rfl

theorem second_range (p q : Prop) [Decidable p] [Decidable q] {least greatest : Nat}
    (hleast : 0x80 ≤ least) (hgreatest : greatest ≤ 0xbf) :
    0x80 ≤ (if p then least else 0x80) ∧ (if q then greatest else 0xbf) ≤ 0xbf := by
  constructor <;> split <;> omega

theorem following_ranges {b : UInt8} {ranges : List (Nat × Nat)} (h : following b = some ranges) :
    ∀ r ∈ ranges, 0x80 ≤ r.1 ∧ r.2 ≤ 0xbf := by
  have hlast : (0x80 : Nat) ≤ 0x80 ∧ 0xbf ≤ 0xbf := by decide
  rw [following] at h
  split at h
  · cases h
    exact List.forall_mem_nil _
  split at h
  · cases h
  split at h
  · cases h
    exact List.forall_mem_singleton.mpr hlast
  split at h
  · cases h
    refine List.forall_mem_cons.mpr ⟨second_range _ _ (by decide) (by decide), ?_⟩
    exact List.forall_mem_singleton.mpr hlast
  split at h
  · cases h
    refine List.forall_mem_cons.mpr ⟨second_range _ _ (by decide) (by decide), ?_⟩
    exact List.forall_mem_cons.mpr ⟨hlast, List.forall_mem_singleton.mpr hlast⟩
  · cases h

theorem utf8Lossy_append {rest : List UInt8} (hrest : Begins rest) (bytes : List UInt8) :
    utf8Lossy (bytes ++ rest) = utf8Lossy bytes ++ utf8Lossy rest := by
  fun_induction utf8Lossy bytes with
  | case1 => rfl
  | case2 b bytes ih =>
    have hfirst : decodeFirst b (bytes ++ rest) =
        ((decodeFirst b bytes).1, (decodeFirst b bytes).2 ++ rest) := by
      simp only [decodeFirst]
      split
      · rfl
      · rename_i ranges hranges
        rw [consume_append hrest (following_ranges hranges)]
    rw [List.cons_append, utf8Lossy, hfirst, ih, List.cons_append]

section Widths

variable {b c d e : UInt8} {rest : List UInt8}

theorem decodeFirst_one (hb : b.toNat < 0x80) :
    decodeFirst b rest = (Char.ofNat b.toNat, rest) := by
  simp [decodeFirst, following, consume, scalar, firstBits, hb]

theorem decodeFirst_two (hb : 0xc2 ≤ b.toNat ∧ b.toNat < 0xe0)
    (hc : 0x80 ≤ c.toNat ∧ c.toNat ≤ 0xbf) :
    decodeFirst b (c :: rest) = (Char.ofNat (b.toNat % 32 * 64 + c.toNat % 64), rest) := by
  have h1 : ¬ b.toNat < 0x80 := by omega
  have h2 : ¬ b.toNat < 0xc2 := by omega
  simp [decodeFirst, following, consume, scalar, firstBits, h1, h2, hb.2, hc]

theorem decodeFirst_three (hb : 0xe0 ≤ b.toNat ∧ b.toNat < 0xf0)
    (hc : (if b.toNat = 0xe0 then 0xa0 else 0x80) ≤ c.toNat ∧
      c.toNat ≤ if b.toNat = 0xed then 0x9f else 0xbf)
    (hd : 0x80 ≤ d.toNat ∧ d.toNat ≤ 0xbf) :
    decodeFirst b (c :: d :: rest) =
      (Char.ofNat ((b.toNat % 16 * 64 + c.toNat % 64) * 64 + d.toNat % 64), rest) := by
  have h1 : ¬ b.toNat < 0x80 := by omega
  have h2 : ¬ b.toNat < 0xc2 := by omega
  have h3 : ¬ b.toNat < 0xe0 := by omega
  simp [decodeFirst, following, consume, scalar, firstBits, h1, h2, h3, hb.2, hc, hd]

theorem decodeFirst_four (hb : 0xf0 ≤ b.toNat ∧ b.toNat < 0xf5)
    (hc : (if b.toNat = 0xf0 then 0x90 else 0x80) ≤ c.toNat ∧
      c.toNat ≤ if b.toNat = 0xf4 then 0x8f else 0xbf)
    (hd : 0x80 ≤ d.toNat ∧ d.toNat ≤ 0xbf) (he : 0x80 ≤ e.toNat ∧ e.toNat ≤ 0xbf) :
    decodeFirst b (c :: d :: e :: rest) =
      (Char.ofNat (((b.toNat % 8 * 64 + c.toNat % 64) * 64 + d.toNat % 64) * 64 + e.toNat % 64),
        rest) := by
  have h1 : ¬ b.toNat < 0x80 := by omega
  have h2 : ¬ b.toNat < 0xc2 := by omega
  have h3 : ¬ b.toNat < 0xe0 := by omega
  have h4 : ¬ b.toNat < 0xf0 := by omega
  simp [decodeFirst, following, consume, scalar, firstBits, h1, h2, h3, h4, hb.2, hc, hd, he]

end Widths

theorem sextets_four {v : Nat} (hv : v < 0x110000) :
    (((v / 262144 % 8 + 240) % 8 * 64 + (v / 4096 % 64 + 128) % 64) * 64 +
      (v / 64 % 64 + 128) % 64) * 64 + (v % 64 + 128) % 64 = v := by
  have h₁ : v / 262144 = v / 4096 / 64 := by rw [Nat.div_div_eq_div_mul]
  have h₂ : v / 4096 = v / 64 / 64 := by rw [Nat.div_div_eq_div_mul]
  rw [h₁, h₂]
  omega

theorem decodeFirst_utf8EncodeChar (c : Char) (rest : List UInt8) :
    ∃ b bytes, String.utf8EncodeChar c ++ rest = b :: bytes ∧ (b.toNat < 0x80 ∨ 0xbf < b.toNat) ∧
      decodeFirst b bytes = (c, rest) := by
  have hvalid : c.val.toNat < 0xd800 ∨ 0xdfff < c.val.toNat ∧ c.val.toNat < 0x110000 := c.valid
  have hc : ∀ n, n = c.val.toNat → Char.ofNat n = c := by
    rintro _ rfl
    exact Char.ofNat_toNat c
  have hbyte : ∀ n < 256, (UInt8.ofNat n).toNat = n := fun n hn => by
    rw [UInt8.toNat_ofNat']
    omega
  rw [String.utf8EncodeChar]
  generalize c.val.toNat = v at hvalid hc
  split_ifs with h1 h2 h3
  · have hb := hbyte v (by omega)
    refine ⟨_, rest, rfl, by omega, ?_⟩
    rw [decodeFirst_one (by omega), hc _ hb]
  · have hb := hbyte (v / 64 % 32 + 192) (by omega)
    have hb₁ := hbyte (v % 64 + 128) (by omega)
    refine ⟨_, _ :: rest, rfl, by omega, ?_⟩
    rw [decodeFirst_two (by omega) (by omega), hc _ (by omega)]
  · have hb := hbyte (v / 4096 % 16 + 224) (by omega)
    have hb₁ := hbyte (v / 64 % 64 + 128) (by omega)
    have hb₂ := hbyte (v % 64 + 128) (by omega)
    refine ⟨_, _ :: _ :: rest, rfl, by omega, ?_⟩
    rw [decodeFirst_three (by omega) ?_ (by omega), hc _ (by omega)]
    split_ifs <;> omega
  · have hb := hbyte (v / 262144 % 8 + 240) (by omega)
    have hb₁ := hbyte (v / 4096 % 64 + 128) (by omega)
    have hb₂ := hbyte (v / 64 % 64 + 128) (by omega)
    have hb₃ := hbyte (v % 64 + 128) (by omega)
    refine ⟨_, _ :: _ :: _ :: rest, rfl, by omega, ?_⟩
    rw [decodeFirst_four (by omega) ?_ (by omega) (by omega), hb, hb₁, hb₂, hb₃,
      hc _ (sextets_four (by omega))]
    split_ifs <;> omega

theorem begins_utf8EncodeChar (c : Char) (rest : List UInt8) :
    Begins (String.utf8EncodeChar c ++ rest) := by
  obtain ⟨b, bytes, heq, hb, -⟩ := decodeFirst_utf8EncodeChar c rest
  rw [heq]
  rintro _ ⟨⟩
  exact hb

theorem utf8Lossy_utf8EncodeChar (c : Char) (rest : List UInt8) :
    utf8Lossy (String.utf8EncodeChar c ++ rest) = c :: utf8Lossy rest := by
  obtain ⟨b, bytes, heq, -, hfirst⟩ := decodeFirst_utf8EncodeChar c rest
  rw [heq, utf8Lossy, hfirst]

def hexDigit (c : Char) : Option Nat :=
  if '0' ≤ c ∧ c ≤ '9' then some (c.toNat - '0'.toNat)
  else if 'a' ≤ c ∧ c ≤ 'f' then some (c.toNat - 'a'.toNat + 10)
  else if 'A' ≤ c ∧ c ≤ 'F' then some (c.toNat - 'A'.toNat + 10)
  else none

def escape? : List Char → Option (UInt8 × List Char)
  | c :: h :: l :: text =>
    if c = '%' then do
      let high ← hexDigit h
      let low ← hexDigit l
      some (UInt8.ofNat (high * 16 + low), text)
    else none
  | _ => none

theorem length_of_escape? {text rest : List Char} {b : UInt8} (h : escape? text = some (b, rest)) :
    text.length = rest.length + 3 := by
  unfold escape? at h
  split at h
  · split at h
    · simp only [Option.bind_eq_bind, Option.bind_eq_some_iff] at h
      obtain ⟨_, _, _, _, h⟩ := h
      cases h
      rfl
    · cases h
  · cases h

def percentDecode : List Char → List UInt8
  | [] => []
  | c :: text =>
    match _ : escape? (c :: text) with
    | some (b, rest) => b :: percentDecode rest
    | none => String.utf8EncodeChar c ++ percentDecode text
termination_by text => text.length
decreasing_by
  · rename_i h
    have := length_of_escape? h
    omega
  · exact Nat.lt_succ_self _

def plusToSpace (c : Char) : Char := if c = '+' then ' ' else c

def decode (text : List Char) : List Char := utf8Lossy (percentDecode (text.map plusToSpace))

def HasEscape (text : List Char) : Prop := ∃ tail, tail <:+ text ∧ (escape? tail).isSome

theorem hasEscape_cons {c : Char} {text : List Char} :
    HasEscape (c :: text) ↔ (escape? (c :: text)).isSome ∨ HasEscape text := by
  constructor
  · rintro ⟨tail, htail, hsome⟩
    rcases List.suffix_cons_iff.mp htail with rfl | htail
    · exact .inl hsome
    · exact .inr ⟨tail, htail, hsome⟩
  · rintro (hsome | ⟨tail, htail, hsome⟩)
    · exact ⟨_, List.suffix_refl _, hsome⟩
    · exact ⟨tail, htail.trans (List.suffix_cons _ _), hsome⟩

theorem percent_mem_of_hasEscape {text : List Char} (h : HasEscape text) : '%' ∈ text := by
  obtain ⟨tail, htail, hsome⟩ := h
  refine htail.subset ?_
  unfold escape? at hsome
  split at hsome
  · split at hsome
    · rename_i hpercent
      rw [hpercent]
      exact List.mem_cons_self
    · cases hsome
  · cases hsome

theorem length_utf8Lossy_percentDecode (bytes : List UInt8) (text : List Char) :
    (utf8Lossy (bytes ++ percentDecode text)).length ≤ bytes.length + text.length ∧
      (HasEscape text →
        (utf8Lossy (bytes ++ percentDecode text)).length < bytes.length + text.length) := by
  fun_induction percentDecode text generalizing bytes with
  | case1 =>
    rw [List.append_nil]
    refine ⟨length_utf8Lossy_le bytes, ?_⟩
    rintro ⟨tail, htail, hsome⟩
    rw [List.suffix_nil.mp htail] at hsome
    cases hsome
  | case2 c text b rest h ih =>
    have hlength := length_of_escape? h
    have := (ih (bytes ++ [b])).1
    rw [List.append_assoc, List.singleton_append, List.length_append, List.length_singleton] at this
    exact ⟨by omega, fun _ => by omega⟩
  | case3 c text h ih =>
    have := ih []
    rw [List.nil_append, List.length_nil] at this
    have hbytes := length_utf8Lossy_le bytes
    rw [utf8Lossy_append (begins_utf8EncodeChar c _), utf8Lossy_utf8EncodeChar, hasEscape_cons, h]
    simp only [List.length_append, List.length_cons, Option.isSome_none, Bool.false_eq_true,
      false_or]
    exact ⟨by omega, fun hescape => by have := this.2 hescape; omega⟩

theorem utf8Lossy_percentDecode {text : List Char} (h : ¬ HasEscape text) :
    utf8Lossy (percentDecode text) = text := by
  induction text with
  | nil => rw [percentDecode, utf8Lossy]
  | cons c text ih =>
    rw [hasEscape_cons, not_or, Bool.not_eq_true, Option.isSome_eq_false_iff,
      Option.isNone_iff_eq_none] at h
    rw [percentDecode]
    split
    · rename_i hsome
      rw [h.1] at hsome
      cases hsome
    · rw [utf8Lossy_utf8EncodeChar, ih h.2]

theorem length_decode_le (text : List Char) : (decode text).length ≤ text.length := by
  have := (length_utf8Lossy_percentDecode [] (text.map plusToSpace)).1
  rwa [List.length_nil, Nat.zero_add, List.nil_append, List.length_map] at this

theorem map_plusToSpace_eq {text : List Char} : text.map plusToSpace = text ↔ '+' ∉ text := by
  induction text with
  | nil => simp
  | cons c text ih =>
    rw [List.map_cons, List.cons.injEq, ih, List.mem_cons, not_or, plusToSpace]
    refine and_congr_left fun _ => ?_
    split
    · rename_i hc
      subst hc
      simp
    · rename_i hc
      simp [Ne.symm hc]

theorem decode_eq_self {text : List Char} :
    decode text = text ↔ '+' ∉ text ∧ ¬ HasEscape text := by
  constructor
  · intro h
    have hescape : ¬ HasEscape (text.map plusToSpace) := by
      intro hescape
      have := (length_utf8Lossy_percentDecode [] (text.map plusToSpace)).2 hescape
      rw [List.nil_append, List.length_nil, Nat.zero_add, List.length_map, ← decode, h] at this
      exact Nat.lt_irrefl _ this
    rw [decode, utf8Lossy_percentDecode hescape] at h
    rw [h] at hescape
    exact ⟨map_plusToSpace_eq.mp h, hescape⟩
  · rintro ⟨hplus, hescape⟩
    rw [decode, map_plusToSpace_eq.mpr hplus, utf8Lossy_percentDecode hescape]

def isWord (c : Char) : Bool := c.isAlphanum || c == '_'

theorem decode_eq_of_isWord {text : List Char} (h : text.all isWord = true) :
    decode text = text := by
  have hword := List.all_eq_true.mp h
  refine decode_eq_self.mpr ⟨fun hplus => ?_, fun hescape => ?_⟩
  · exact absurd (hword _ hplus) (by decide)
  · exact absurd (hword _ (percent_mem_of_hasEscape hescape)) (by decide)

def pair (segment : List Char) : List Char × List Char :=
  (decode (segment.takeWhile (· ≠ '=')), decode ((segment.dropWhile (· ≠ '=')).drop 1))

def parse (text : List Char) : List (List Char × List Char) :=
  ((text.splitOn '&').filter fun segment => !segment.isEmpty).map pair

theorem length_le_of_mem_splitOn {text segment : List Char} (h : segment ∈ text.splitOn '&') :
    segment.length ≤ text.length := by
  induction text generalizing segment with
  | nil =>
    rw [List.splitOn_nil, List.mem_singleton] at h
    rw [h]
  | cons c text ih =>
    obtain ⟨first, segments, hsegments⟩ :=
      List.exists_cons_of_ne_nil (List.splitOn_ne_nil '&' text)
    rw [hsegments] at ih
    rw [List.splitOn_cons_eq_if_modifyHead, hsegments] at h
    have hfirst := ih List.mem_cons_self
    split at h
    · rcases List.mem_cons.mp h with rfl | h
      · exact Nat.zero_le _
      · exact Nat.le_succ_of_le (ih h)
    · rw [List.modifyHead_cons] at h
      rcases List.mem_cons.mp h with rfl | h
      · exact Nat.succ_le_succ hfirst
      · exact Nat.le_succ_of_le (ih (List.mem_cons_of_mem first h))

theorem pair_append {name : List Char} (hname : '=' ∉ name) (value : List Char) :
    pair (name ++ '=' :: value) = (decode name, decode value) := by
  have hne : ∀ c ∈ name, decide (c ≠ '=') = true := by
    intro c hc
    exact decide_eq_true fun h => hname (h ▸ hc)
  rw [pair, List.takeWhile_append_of_pos hne, List.dropWhile_append_of_pos hne]
  simp

theorem parse_append {front : List Char} (hfront : '&' ∉ front) (hne : front ≠ [])
    (text : List Char) : parse (front ++ '&' :: text) = pair front :: parse text := by
  rw [parse, List.splitOn_append_cons_self_of_not_mem hfront, List.filter_cons_of_pos]
  · rfl
  · simpa using hne

theorem parse_segment {text : List Char} (h : '&' ∉ text) (hne : text ≠ []) :
    parse text = [pair text] := by
  rw [parse, List.splitOn_eq_singleton h, List.filter_cons_of_pos]
  · rfl
  · simpa using hne

theorem mem_parse_pair {name value v : List Char} {n : List Char} (hname : '=' ∉ name)
    (hamp : '&' ∉ name) (h : (n, v) ∈ parse (name ++ '=' :: value)) :
    ∃ w, v = decode w ∧ (w = value ∧ '&' ∉ value ∨ w.length < value.length) := by
  by_cases hvalue : '&' ∈ value
  · obtain ⟨front, rest, rfl, hfront⟩ := List.eq_append_cons_of_mem hvalue
    have hsplit : name ++ '=' :: (front ++ '&' :: rest) =
        (name ++ '=' :: front) ++ '&' :: rest := by simp
    rw [hsplit, parse_append (by simp [hamp, hfront]) (by simp), pair_append hname] at h
    rcases List.mem_cons.mp h with heq | h
    · cases heq
      exact ⟨front, rfl, .inr (by simp)⟩
    · obtain ⟨segment, hsegment, heq⟩ := List.mem_map.mp h
      cases heq
      refine ⟨_, rfl, .inr ?_⟩
      have hlength := length_le_of_mem_splitOn (List.mem_filter.mp hsegment).1
      have hdrop := (List.dropWhile_suffix (l := segment) (· ≠ '=')).length_le
      simp only [List.length_drop, List.length_append, List.length_cons]
      omega
  · rw [parse_segment (by simp [hamp, hvalue]) (by simp), pair_append hname] at h
    cases List.mem_singleton.mp h
    exact ⟨value, rfl, .inl ⟨rfl, hvalue⟩⟩

end Overload.FormUrlencoded
