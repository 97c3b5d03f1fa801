import Overload.Lua.Encode

namespace Overload.Lua.Json

variable {size : Nat} {x : Interpreter}

section Encode

variable {p : Printing x} {heap : Heap x.Num size} {fuel height : Nat} {stack : List (Fin size)}
  {val : Fin size} {v : Ref x.Num size} {tree : Value x.Num} {text : Bytes}

theorem StandsFor.ne_nil (h : StandsFor p heap height v tree) (hv : v ≠ .nil) : tree ≠ .nil := by
  cases v with
  | nil => exact absurd rfl hv
  | boolean | string =>
    rw [StandsFor] at h
    exact h ▸ nofun
  | number n =>
    rw [StandsFor] at h
    exact h.2 ▸ nofun
  | other type =>
    rw [StandsFor] at h
    exact h.elim
  | table val =>
    cases height with
    | zero => exact h.elim
    | succ height =>
      rw [StandsFor] at h
      rcases h with ⟨refs, values, -, -, rfl⟩ | ⟨members, -, rfl⟩ <;> nofun

theorem encodeMember_eq_ok {inner : Ref x.Num size → Except Failure Bytes}
    {entry : TableKey x.Num × Ref x.Num size} : encodeMember inner entry = .ok text ↔
      ∃ k v, entry.1 = .string k ∧ inner entry.2 = .ok v ∧
        text = encodeString k ++ ':'.toUInt8 :: v := by
  obtain ⟨key, ref⟩ := entry
  cases key with
  | string k =>
    rw [encodeMember, Calls.bind_eq_ok]
    constructor
    · rintro ⟨v, hv, ⟨⟩⟩
      exact ⟨k, v, rfl, hv, rfl⟩
    · rintro ⟨_, v, ⟨⟩, hv, rfl⟩
      exact ⟨v, hv, rfl⟩
  | index | number | other => simp [encodeMember]

theorem encodeTable_eq_ok {inner : Ref x.Num size → Except Failure Bytes} {t : Table x.Num size} :
    encodeTable inner t = .ok text ↔
      if t.isArray then
        (∀ entry ∈ t.entries, entry.1.isNumber = true) ∧ t.entries.length = t.length ∧
          ∃ res, List.Forall₂ (fun v t => inner v = .ok t) t.ipairs res ∧
            text = '['.toUInt8 :: concat res ++ [']'.toUInt8]
      else
        ∃ res, List.Forall₂ (fun entry t => encodeMember inner entry = .ok t) t.entries res ∧
          text = openBrace :: concat res ++ [closeBrace] := by
  rw [encodeTable]
  simp only [List.all_eq_true]
  split_ifs with harray hnumber hlength
  · rw [and_iff_right hnumber, and_iff_right hlength, Calls.bind_eq_ok]
    simp only [Calls.mapM_eq_ok, pure, Except.pure, Except.ok.injEq, @eq_comm _ text]
  · exact iff_of_false nofun fun h => hlength h.2.1
  · exact iff_of_false nofun fun h => hnumber h.1
  · rw [Calls.bind_eq_ok]
    simp only [Calls.mapM_eq_ok, pure, Except.pure, Except.ok.injEq, @eq_comm _ text]

theorem encodeTable_array {inner : Ref x.Num size → Except Failure Bytes} {t : Table x.Num size}
    {refs : List (Ref x.Num size)} (h : t.IsArrayOf refs) :
    encodeTable inner t = .ok text ↔
      ∃ res, List.Forall₂ (fun v t => inner v = .ok t) refs res ∧
        text = '['.toUInt8 :: concat res ++ [']'.toUInt8] := by
  rw [encodeTable_eq_ok, if_pos h.isArray, and_iff_right h.isNumber,
    and_iff_right (h.length_entries.trans h.length_eq.symm), h.ipairs_eq]

theorem encodeTable_object {inner : Ref x.Num size → Except Failure Bytes} {t : Table x.Num size}
    {P : Ref x.Num size → Value x.Num → Prop} {members : List (Bytes × Value x.Num)}
    (h : List.Forall₂ (fun entry member => entry.1 = .string member.1 ∧ P entry.2 member.2)
      t.entries members) (hmembers : members ≠ []) :
    encodeTable inner t = .ok text ↔
      ∃ res, List.Forall₂ (fun entry t => encodeMember inner entry = .ok t) t.entries res ∧
        text = openBrace :: concat res ++ [closeBrace] := by
  have hentries : t.entries.isEmpty = false := by
    rw [List.isEmpty_eq_false_iff]
    rintro hnil
    rw [hnil] at h
    cases h
    exact hmembers rfl
  rw [encodeTable_eq_ok, isArray_of_members h, hentries, if_neg Bool.false_ne_true]

theorem isArrayOf_nil {t : Table x.Num size} {P : Ref x.Num size → Value x.Num → Prop}
    (h : List.Forall₂ (fun entry (member : Bytes × Value x.Num) =>
      entry.1 = .string member.1 ∧ P entry.2 member.2) t.entries []) : t.IsArrayOf [] := by
  rw [Table.IsArrayOf, List.forall₂_nil_right_iff.mp h]
  exact .nil

section Writing

variable (hroom : ∀ f calls, calls.length ≤ p.levels → x.hasRoom (f :: calls) = true)
  {calls : List ParseFunction}

theorem writes_number {n : x.Num} (hn : p.Exact n) (hcalls : x.hasRoom (.number :: calls) = true) :
    Writes x calls (.value (.number n)) (p.format n) := by
  obtain ⟨b, s, hformat, hb⟩ := hn.begins
  have hdelim := hn.undelimited
  have hreads := hn.reads
  rw [hformat] at hdelim hreads ⊢
  exact .number hcalls hb hdelim hreads

include hroom

theorem encode_leaf_writes (hv : ∀ val, v ≠ .table val) (h : StandsFor p heap height v tree)
    (hcalls : calls.length ≤ p.levels) (hencode : encode p heap fuel stack v = .ok text) :
    Writes x calls (.value tree) text := by
  have hroom (f : ParseFunction) := hroom f calls hcalls
  cases v with
  | nil =>
    rw [StandsFor] at h
    rw [encode] at hencode
    cases hencode
    exact h ▸ .literal (hroom .literal) (by simp [literalMap])
  | boolean b =>
    rw [StandsFor] at h
    rw [encode] at hencode
    cases hencode
    refine h ▸ .literal (hroom .literal) ?_
    cases b <;> simp [literalMap]
  | number n =>
    rw [StandsFor] at h
    rw [encode, encodeNumber, h.1.finite, if_neg Bool.false_ne_true] at hencode
    cases hencode
    exact h.2 ▸ writes_number h.1 (hroom .number)
  | string s =>
    rw [StandsFor] at h
    rw [encode] at hencode
    cases hencode
    exact h ▸ .string (hroom .string) (chars_encodeString s)
  | other type =>
    rw [StandsFor] at h
    exact h.elim
  | table val => exact absurd rfl (hv val)

theorem encodeTable_writes_array {inner : Ref x.Num size → Except Failure Bytes}
    {t : Table x.Num size} {refs : List (Ref x.Num size)} {values : List (Value x.Num)}
    (hinner : ∀ v text tree, StandsFor p heap height v tree → inner v = .ok text →
      Writes x (.array :: calls) (.value tree) text)
    (hcalls : calls.length ≤ p.levels) (harray : t.IsArrayOf refs)
    (hvalues : List.Forall₂ (StandsFor p heap height) refs values)
    (hencode : encodeTable inner t = .ok text) :
    Writes x calls (.value (.table (indexed .index 1 values))) text := by
  obtain ⟨res, hres, rfl⟩ := (encodeTable_array harray).mp hencode
  have hwrites : List.Forall₂ (fun tree text => tree ≠ .nil ∧
      Writes x (.array :: calls) (.value tree) text) values res := by
    refine Calls.forall₂_of_common (fun v tree text hv htree htext => ?_) hvalues hres
    obtain ⟨k, hk⟩ := harray.exists_mem hv
    exact ⟨htree.ne_nil (t.present _ hk), hinner v text tree htree htext⟩
  obtain ⟨hpresent, hwrites⟩ := (List.forall₂_and_left _ _).mp hwrites
  have hentries : arrayEntries [] 1 values = indexed .index 1 values :=
    arrayEntries_eq nofun hpresent
  exact hentries ▸ .array (hroom _ _ hcalls) (writes_elements hwrites)

theorem encodeTable_writes_object {inner : Ref x.Num size → Except Failure Bytes}
    {t : Table x.Num size} {members : List (Bytes × Value x.Num)}
    (hinner : ∀ v text tree, StandsFor p heap height v tree → inner v = .ok text →
      Writes x (.object :: calls) (.value tree) text)
    (hcalls : calls.length < p.levels) (hmembers : List.Forall₂ (fun entry member =>
      entry.1 = .string member.1 ∧ StandsFor p heap height entry.2 member.2) t.entries members)
    (hne : members ≠ []) (hencode : encodeTable inner t = .ok text) :
    Writes x calls (.value (.table (named members))) text := by
  obtain ⟨res, hres, rfl⟩ := (encodeTable_object hmembers hne).mp hencode
  have hwrites : List.Forall₂ (fun member text => member.2 ≠ .nil ∧
      ∃ v, text = encodeString member.1 ++ ':'.toUInt8 :: v ∧
        Writes x (.object :: calls) (.value member.2) v) members res := by
    refine Calls.forall₂_of_common (fun entry member text hentry hmember htext => ?_) hmembers hres
    obtain ⟨k, v, hkey, hv, rfl⟩ := encodeMember_eq_ok.mp htext
    cases hmember.1.symm.trans hkey
    exact ⟨hmember.2.ne_nil (t.present entry hentry), v, rfl,
      hinner entry.2 v member.2 hmember.2 hv⟩
  obtain ⟨hpresent, hwrites⟩ := (List.forall₂_and_left _ _).mp hwrites
  have hdistinct := t.distinct
  rw [keys_of_members hmembers] at hdistinct
  have hentries : objectEntries [] members = named members :=
    objectEntries_eq nofun hdistinct.of_map hpresent
  refine hentries ▸ .object (hroom _ _ (Nat.le_of_lt hcalls)) (writes_members ?_ hwrites)
  exact hroom _ _ hcalls

theorem encode_writes (h : StandsFor p heap height v tree)
    (hencode : encode p heap fuel stack v = .ok text) (hcalls : calls.length = stack.length)
    (hstack : stack.length ≤ p.levels) : Writes x calls (.value tree) text := by
  induction fuel generalizing stack v text tree height calls with
  | zero =>
    refine encode_leaf_writes hroom ?_ h (hcalls ▸ hstack) hencode
    rintro val rfl
    cases hencode
  | succ fuel ih =>
    by_cases hv : ∃ val, v = .table val
    case neg =>
      exact encode_leaf_writes hroom (fun val hval => hv ⟨val, hval⟩) h (hcalls ▸ hstack) hencode
    obtain ⟨val, rfl⟩ := hv
    cases height with
    | zero => exact h.elim
    | succ height =>
      rw [encode] at hencode
      split_ifs at hencode with hlevels
      have hlt : calls.length < p.levels := hcalls ▸ Nat.lt_of_not_le hlevels
      have hinner (f : ParseFunction) : ∀ v text tree, StandsFor p heap height v tree →
          encode p heap fuel (val :: stack) v = .ok text →
          Writes x (f :: calls) (.value tree) text := fun v text tree htree htext =>
        ih htree htext (congrArg (· + 1) hcalls) (Nat.lt_of_not_le hlevels)
      rw [StandsFor] at h
      rcases h with ⟨refs, values, harray, hvalues, rfl⟩ | ⟨members, hmembers, rfl⟩
      · exact encodeTable_writes_array hroom (hinner .array) (Nat.le_of_lt hlt) harray hvalues
          hencode
      · by_cases hne : members = []
        · subst hne
          exact encodeTable_writes_array hroom (hinner .array) (Nat.le_of_lt hlt)
            (isArrayOf_nil hmembers) .nil hencode
        · exact encodeTable_writes_object hroom (hinner .object) hlt hmembers hne hencode

end Writing

theorem encode_leaf_sound (hplain : v.Plain p) (hv : ∀ val, v ≠ .table val)
    (hencode : encode p heap fuel stack v = .ok text) : ∃ tree, StandsFor p heap height v tree := by
  cases v with
  | nil | boolean | string => exact ⟨_, by rw [StandsFor]⟩
  | number n =>
    rw [encode, encodeNumber] at hencode
    split_ifs at hencode with hn
    exact ⟨.number n, by rw [StandsFor]; exact ⟨hplain (Bool.eq_false_iff.mpr hn), rfl⟩⟩
  | other type =>
    rw [encode] at hencode
    cases hencode
  | table val => exact absurd rfl (hv val)

theorem encodeTable_sound {inner : Ref x.Num size → Except Failure Bytes}
    (hplain : (heap val).Plain p)
    (hinner : ∀ v text, v.Plain p → inner v = .ok text → ∃ tree, StandsFor p heap height v tree)
    (hencode : encodeTable inner (heap val) = .ok text) :
    ∃ tree, StandsFor p heap (height + 1) (.table val) tree := by
  simp only [StandsFor]
  rw [encodeTable_eq_ok] at hencode
  split_ifs at hencode with harray
  · obtain ⟨-, hlength, res, hres, -⟩ := hencode
    obtain ⟨refs, hrefs⟩ := Table.IsArrayOf.of_gapless hplain.gapless hlength
    rw [hrefs.ipairs_eq] at hres
    obtain ⟨values, hvalues⟩ := Calls.exists_forall₂ (S := StandsFor p heap height)
      (fun v text hv htext => by
        obtain ⟨k, hk⟩ := hrefs.exists_mem hv
        exact hinner v text (hplain.values _ hk) htext) hres
    exact ⟨_, .inl ⟨refs, values, hrefs, hvalues, rfl⟩⟩
  · obtain ⟨res, hres, -⟩ := hencode
    obtain ⟨members, hmembers⟩ := Calls.exists_forall₂
      (S := fun entry (member : Bytes × Value x.Num) =>
        entry.1 = .string member.1 ∧ StandsFor p heap height entry.2 member.2)
      (fun entry text hentry htext => by
        obtain ⟨k, v, hkey, hv, -⟩ := encodeMember_eq_ok.mp htext
        obtain ⟨tree, htree⟩ := hinner entry.2 v (hplain.values entry hentry) hv
        exact ⟨(k, tree), hkey, htree⟩) hres
    exact ⟨_, .inr ⟨members, hmembers, rfl⟩⟩

theorem encode_sound (hheap : ∀ val, (heap val).Plain p) (hplain : v.Plain p)
    (hencode : encode p heap fuel stack v = .ok text) :
    ∃ tree, StandsFor p heap (p.levels - stack.length) v tree := by
  induction fuel generalizing stack v text with
  | zero =>
    refine encode_leaf_sound hplain ?_ hencode
    rintro val rfl
    cases hencode
  | succ fuel ih =>
    by_cases hv : ∃ val, v = .table val
    case neg => exact encode_leaf_sound hplain (fun val hval => hv ⟨val, hval⟩) hencode
    obtain ⟨val, rfl⟩ := hv
    rw [encode] at hencode
    split_ifs at hencode with hlevels
    have hheight : p.levels - stack.length = p.levels - (val :: stack).length + 1 := by
      rw [List.length_cons]
      omega
    rw [hheight]
    exact encodeTable_sound (hheap val) (fun v text hv => ih hv) hencode

theorem encodeTable_ne_outOfFuel {inner : Ref x.Num size → Except Failure Bytes}
    (hinner : ∀ v, inner v ≠ .error .outOfFuel) (t : Table x.Num size) :
    encodeTable inner t ≠ .error .outOfFuel := by
  intro h
  rw [encodeTable] at h
  split_ifs at h
  · rcases Calls.bind_eq_error h with h | ⟨res, -, h⟩
    · obtain ⟨v, -, hv⟩ := Calls.exists_of_mapM_eq_error h
      exact hinner v hv
    · cases h
  · cases h
  · cases h
  · rcases Calls.bind_eq_error h with h | ⟨res, -, h⟩
    · obtain ⟨⟨key, v⟩, -, hmember⟩ := Calls.exists_of_mapM_eq_error h
      cases key with
      | string k =>
        rcases Calls.bind_eq_error hmember with hv | ⟨text, -, h⟩
        · exact hinner v hv
        · cases h
      | index | number | other => cases hmember
    · cases h

theorem length_le_size (hstack : stack.Nodup) : stack.length ≤ size := by
  have hcard := hstack.length_le_card
  rwa [Fintype.card_fin] at hcard

theorem encode_ne_outOfFuel (hstack : stack.Nodup) (hfuel : size < fuel + stack.length) :
    encode p heap fuel stack v ≠ .error .outOfFuel := by
  induction fuel generalizing stack v with
  | zero =>
    have hlength := length_le_size hstack
    omega
  | succ fuel ih =>
    cases v with
    | nil | boolean | string | other => nofun
    | number n =>
      rw [encode, encodeNumber]
      split_ifs <;> nofun
    | table val =>
      rw [encode]
      split_ifs with hlevels hval
      · nofun
      · nofun
      · refine encodeTable_ne_outOfFuel (fun v => ih (hstack.cons hval) ?_) _
        rw [List.length_cons]
        omega

theorem encode_leaf_complete (hv : ∀ val, v ≠ .table val) (h : StandsFor p heap height v tree) :
    ∃ text, encode p heap fuel stack v = .ok text := by
  cases v with
  | nil | boolean | string => exact ⟨_, by rw [encode]⟩
  | number n =>
    rw [StandsFor] at h
    exact ⟨p.format n, by rw [encode, encodeNumber, h.1.finite, if_neg Bool.false_ne_true]⟩
  | other type =>
    rw [StandsFor] at h
    exact h.elim
  | table val => exact absurd rfl (hv val)

theorem encodeTable_complete {inner : Ref x.Num size → Except Failure Bytes}
    (hinner : ∀ v tree, StandsFor p heap height v tree → ∃ text, inner v = .ok text)
    (h : StandsFor p heap (height + 1) (.table val) tree) :
    ∃ text, encodeTable inner (heap val) = .ok text := by
  rw [StandsFor] at h
  rcases h with ⟨refs, values, harray, hvalues, -⟩ | ⟨members, hmembers, -⟩
  · simp only [encodeTable_array harray]
    obtain ⟨res, hres⟩ := Calls.exists_forall₂ (fun v tree _ => hinner v tree) hvalues
    exact ⟨_, res, hres, rfl⟩
  · by_cases hne : members = []
    · subst hne
      simp only [encodeTable_array (isArrayOf_nil hmembers)]
      exact ⟨_, [], .nil, rfl⟩
    · simp only [encodeTable_object hmembers hne]
      obtain ⟨res, hres⟩ := Calls.exists_forall₂
        (S := fun entry t => encodeMember inner entry = .ok t) (fun entry member _ hmember => by
          obtain ⟨v, hv⟩ := hinner entry.2 member.2 hmember.2
          exact ⟨_, encodeMember_eq_ok.mpr ⟨member.1, v, hmember.1, hv, rfl⟩⟩) hmembers
      exact ⟨_, res, hres, rfl⟩

theorem encode_complete (hstack : stack.Nodup) (hfuel : size < fuel + stack.length)
    (h : StandsFor p heap height v tree) (hheight : height + stack.length ≤ p.levels)
    (hbelow : ∀ val ∈ stack, ∀ m ≤ height, ∀ tree, ¬ StandsFor p heap m (.table val) tree) :
    ∃ text, encode p heap fuel stack v = .ok text := by
  induction height using Nat.strongRecOn generalizing v tree stack fuel with
  | ind height ih =>
    by_cases hv : ∃ val, v = .table val
    case neg => exact encode_leaf_complete (fun val hval => hv ⟨val, hval⟩) h
    obtain ⟨val, rfl⟩ := hv
    have hexists : ∃ m tree, StandsFor p heap m (.table val) tree := ⟨height, tree, h⟩
    classical
    obtain ⟨tree₀, hfirst⟩ := Nat.find_spec hexists
    have hle : Nat.find hexists ≤ height := Nat.find_min' hexists ⟨tree, h⟩
    have hmin {m : Nat} (hm : m < Nat.find hexists) (tree : Value x.Num) :
        ¬ StandsFor p heap m (.table val) tree := fun h => Nat.find_min hexists hm ⟨tree, h⟩
    generalize Nat.find hexists = first at hfirst hle hmin
    have hval : val ∉ stack := fun hval => hbelow val hval first hle tree₀ hfirst
    have hlength := length_le_size hstack
    obtain ⟨fuel, rfl⟩ := Nat.exists_eq_add_one.mpr (show 0 < fuel by omega)
    cases first with
    | zero => exact hfirst.elim
    | succ m =>
      rw [encode, if_neg (by omega), if_neg hval]
      refine encodeTable_complete (fun v tree hv => ?_) hfirst
      refine ih m hle (hstack.cons hval) (by rw [List.length_cons]; omega) hv
        (by rw [List.length_cons]; omega) ?_
      intro val' hval' m' hm'
      rcases List.mem_cons.mp hval' with rfl | hval'
      · exact hmin (Nat.lt_succ_of_le hm')
      · exact hbelow val' hval' m' (by omega)

end Encode

/-- `json.encode` always comes back.  For every value that stands for a tree, with no more tables
below each other than the stack has room for, it returns a text, and `json.decode` makes that
tree of the text if it has room too; and where tables have no holes and fourteen digits are
enough for all numbers, it returns a text for nothing else. -/
theorem encode_reads_back (p : Printing x) (heap : Heap x.Num size) (v : Ref x.Num size) :
    encodeValue p heap v ≠ .error .outOfFuel ∧
    (∀ tree, StandsFor p heap p.levels v tree → ∃ text, encodeValue p heap v = .ok text ∧
      ((∀ f calls, calls.length ≤ p.levels → x.hasRoom (f :: calls) = true) →
        ∃ c, decode x text = .ok tree c)) ∧
    (v.Plain p → (∀ val, (heap val).Plain p) → ∀ text, encodeValue p heap v = .ok text →
      ∃ tree, StandsFor p heap p.levels v tree) := by
  refine ⟨encode_ne_outOfFuel .nil (Nat.lt_succ_self size), fun tree htree => ?_,
    fun hplain hheap text htext => encode_sound hheap hplain htext⟩
  obtain ⟨text, htext⟩ :=
    encode_complete .nil (Nat.lt_succ_self size) htree (Nat.le_refl _) nofun
  refine ⟨text, htext, fun hroom => ?_⟩
  have hwrites : Writes x [] (.value tree) text :=
    encode_writes hroom htree htext rfl (Nat.zero_le _)
  have hdocument : Document x tree text := ⟨[], text, [], by simp, nofun, hwrites, nofun⟩
  exact ⟨_, decode_complete hdocument⟩

def digits : Interpreter where
  Num := Option (Fin 10)
  tonumber
    | [b] => if isDigit b then some (some (Fin.ofNat 10 (b.toNat - 48))) else none
    | _ => none
  hasRoom calls := calls.length ≤ 3

instance : DecidableEq digits.Num := inferInstanceAs (DecidableEq (Option (Fin 10)))

def digitsPrinting : Printing digits where
  isNaNOrInf := Option.isNone
  tostring _ := ascii "inf"
  format
    | none => ascii "inf"
    | some d => [UInt8.ofNat (48 + d)]
  levels := 2

theorem exact_digitsPrinting (d : Fin 10) : digitsPrinting.Exact (some d) := by
  have hdigit : ∀ d : Fin 10, isDigit (UInt8.ofNat (48 + d)) = true ∧
      delimChars.contains (UInt8.ofNat (48 + d)) = false ∧
      digits.tonumber [UInt8.ofNat (48 + d)] = (some (some d) : Option digits.Num) := by decide
  obtain ⟨hbegins, hdelim, hreads⟩ := hdigit d
  refine ⟨rfl, ⟨_, [], rfl, by rw [hbegins, Bool.true_or]⟩, fun b hb => ?_, hreads⟩
  cases List.mem_singleton.mp hb
  exact hdelim

def sharedMembers : List (TableKey digits.Num × Ref digits.Num 3) :=
  [(.string (ascii "a\n"), .table 1), (.string (ascii "b"), .table 1)]

def sharedItems : List (TableKey digits.Num × Ref digits.Num 3) :=
  [(.index 2, .boolean true), (.index 1, .number (some (7 : Fin 10)))]

def holedItems : List (TableKey digits.Num × Ref digits.Num 3) :=
  [(.index 1, .boolean true), (.index 3, .boolean false), (.number none, .boolean false)]

theorem sharedMembers_valid : (∀ entry ∈ sharedMembers, entry.2 ≠ .nil) ∧
    (sharedMembers.map Prod.fst).Nodup ∧ rawget sharedMembers (0 + 1) = none := by
  decide

theorem sharedItems_valid : (∀ entry ∈ sharedItems, entry.2 ≠ .nil) ∧
    (sharedItems.map Prod.fst).Nodup ∧ rawget sharedItems 2 ≠ none ∧
    rawget sharedItems (2 + 1) = none := by
  decide

theorem holedItems_valid : (∀ entry ∈ holedItems, entry.2 ≠ .nil) ∧
    (holedItems.map Prod.fst).Nodup ∧ rawget holedItems 3 ≠ none ∧
    rawget holedItems (3 + 1) = none := by
  decide

def shared : Heap digits.Num 3
  | 0 => ⟨sharedMembers, 0, sharedMembers_valid.1, sharedMembers_valid.2.1,
      .inl rfl, sharedMembers_valid.2.2⟩
  | 1 => ⟨sharedItems, 2, sharedItems_valid.1, sharedItems_valid.2.1,
      .inr sharedItems_valid.2.2.1, sharedItems_valid.2.2.2⟩
  | 2 => ⟨holedItems, 3, holedItems_valid.1, holedItems_valid.2.1,
      .inr holedItems_valid.2.2.1, holedItems_valid.2.2.2⟩

def sevenTrue : Value digits.Num :=
  .table [(.index 1, .number (some (7 : Fin 10))), (.index 2, .boolean true)]

def sharedTree : Value digits.Num :=
  .table [(.string (ascii "a\n"), sevenTrue), (.string (ascii "b"), sevenTrue)]

theorem standsFor_shared : StandsFor digitsPrinting shared 2 (.table 0) sharedTree := by
  have hitems : StandsFor digitsPrinting shared 1 (.table 1) sevenTrue :=
    .inl ⟨[.number (some (7 : Fin 10)), .boolean true], [_, _], List.Perm.swap _ _ [],
      .cons ⟨exact_digitsPrinting 7, rfl⟩ (.cons rfl .nil), rfl⟩
  exact .inr ⟨[(ascii "a\n", sevenTrue), (ascii "b", sevenTrue)],
    .cons ⟨rfl, hitems⟩ (.cons ⟨rfl, hitems⟩ .nil), rfl⟩

theorem hasRoom_digits : ∀ f calls, calls.length ≤ digitsPrinting.levels →
    digits.hasRoom (f :: calls) = true :=
  fun _ _ hcalls => decide_eq_true (Nat.succ_le_succ hcalls)

theorem encode_reads_back_shared :
    ∃ text c, encodeValue digitsPrinting shared (.table 0) = .ok text ∧
      decode digits text = .ok sharedTree c := by
  have hshared := (encode_reads_back digitsPrinting shared (.table 0)).2.1
  obtain ⟨text, hencode, hdecode⟩ := hshared sharedTree standsFor_shared
  obtain ⟨c, hc⟩ := hdecode hasRoom_digits
  exact ⟨text, c, hencode, hc⟩

-- what is behind the hole gets lost where `#` finds the border behind it
example : encodeValue digitsPrinting shared (.table 2) = .ok (ascii "[true]") := rfl

end Overload.Lua.Json
