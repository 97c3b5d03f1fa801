import Mathlib.Data.Fintype.Card
import Overload.Calls
import Overload.Lua.Documents

/-! The writing half of `lua-helper/src/json.lua`.  Its argument is not a tree: tables are
references, so that one can be met twice, or inside itself. -/

namespace Overload.Lua.Json

open Scanner

/-- A value as it stands in a variable or a table, in a heap of `size` tables. -/
inductive Ref (N : Type) (size : Nat)
  | nil
  | boolean (b : Bool)
  | number (n : N)
  | string (s : Bytes)
  | table (address : Fin size)
  | other (type : Bytes)
  deriving DecidableEq

inductive TableKey (N : Type)
  | index (i : Nat)
  | number (n : N)
  | string (s : Bytes)
  | other (id : Nat)
  deriving DecidableEq

variable {N : Type} {size : Nat}

def TableKey.isNumber : TableKey N → Bool
  | .index _ => true
  | .number _ => true
  | .string _ => false
  | .other _ => false

def TableKey.isIndex (i : Nat) : TableKey N → Bool
  | .index j => i = j
  | _ => false

def rawget (entries : List (TableKey N × Ref N size)) (i : Nat) : Option (Ref N size) :=
  (entries.find? fun entry => entry.1.isIndex i).map Prod.snd

/-- The entries in the order of `pairs`, and the border that `#` finds.  There may be more
borders than one. -/
structure Table (N : Type) (size : Nat) where
  entries : List (TableKey N × Ref N size)
  length : Nat
  present : ∀ entry ∈ entries, entry.2 ≠ .nil
  distinct : (entries.map Prod.fst).Nodup
  border : (length = 0 ∨ rawget entries length ≠ none) ∧ rawget entries (length + 1) = none

abbrev Heap (N : Type) (size : Nat) := Fin size → Table N size

def ipairsFrom (entries : List (TableKey N × Ref N size)) : Nat → Nat → List (Ref N size)
  | 0, _ => []
  | n + 1, i =>
    match rawget entries i with
    | none => []
    | some value => value :: ipairsFrom entries n (i + 1)

def Table.ipairs (t : Table N size) : List (Ref N size) := ipairsFrom t.entries t.entries.length 1

def Table.isArray (t : Table N size) : Bool := (rawget t.entries 1).isSome || t.entries.isEmpty

def isEscaped (c : UInt8) : Bool := c < 32 || c = backslash || c = quote

def hexChar (d : Nat) : UInt8 := UInt8.ofNat (if d < 10 then 48 + d else 87 + d)

def escapeChar (c : UInt8) : Bytes :=
  backslash ::
    match escapeCharMap.lookup c with
    | some e => [e]
    | none => ascii "u00" ++ [hexChar (c.toNat / 16), hexChar (c.toNat % 16)]

def encodeString (val : Bytes) : Bytes :=
  quote :: val.flatMap (fun c => if isEscaped c then escapeChar c else [c]) ++ [quote]

/-- How Lua prints numbers, by `tostring` and by `string.format` with `%.14g`, and for how many
calls of `encode_table` inside each other its stack has room. -/
structure Printing (x : Interpreter) where
  isNaNOrInf : x.Num → Bool
  tostring : x.Num → Bytes
  format : x.Num → Bytes
  levels : Nat

inductive Failure
  | error (message : Bytes)
  | outOfFuel
  deriving DecidableEq, Repr

variable {x : Interpreter} (p : Printing x)

def encodeNumber (val : x.Num) : Except Failure Bytes :=
  if p.isNaNOrInf val then
    .error (.error (ascii "unexpected number value '" ++ p.tostring val ++ ascii "'"))
  else .ok (p.format val)

def concat (res : List Bytes) : Bytes := [','.toUInt8].intercalate res

def mixedKeys : Failure := .error (ascii "invalid table: mixed or invalid key types")

def encodeMember (encode : Ref x.Num size → Except Failure Bytes)
    (entry : TableKey x.Num × Ref x.Num size) : Except Failure Bytes :=
  match entry.1 with
  | .string k => do
    let v ← encode entry.2
    return encodeString k ++ ':'.toUInt8 :: v
  | _ => .error mixedKeys

def encodeTable (encode : Ref x.Num size → Except Failure Bytes) (val : Table x.Num size) :
    Except Failure Bytes :=
  if val.isArray then
    if val.entries.all fun entry => entry.1.isNumber then
      if val.entries.length = val.length then do
        let res ← val.ipairs.mapM encode
        return '['.toUInt8 :: concat res ++ [']'.toUInt8]
      else .error (.error (ascii "invalid table: sparse array"))
    else .error mixedKeys
  else do
    let res ← val.entries.mapM (encodeMember encode)
    return openBrace :: concat res ++ [closeBrace]

/-- On the stack are the tables whose encoding has begun and not ended. -/
def encode (heap : Heap x.Num size) :
    Nat → List (Fin size) → Ref x.Num size → Except Failure Bytes
  | _, _, .nil => .ok (ascii "null")
  | _, _, .boolean b => .ok (if b then ascii "true" else ascii "false")
  | _, _, .number n => encodeNumber p n
  | _, _, .string s => .ok (encodeString s)
  | _, _, .other type => .error (.error (ascii "unexpected type '" ++ type ++ ascii "'"))
  | 0, _, .table _ => .error .outOfFuel
  | fuel + 1, stack, .table val =>
    if p.levels ≤ stack.length then .error (.error (ascii "stack overflow"))
    else if val ∈ stack then .error (.error (ascii "circular reference"))
    else encodeTable (encode heap fuel (val :: stack)) (heap val)

def encodeValue (heap : Heap x.Num size) (val : Ref x.Num size) : Except Failure Bytes :=
  encode p heap (size + 1) [] val

def indexed {K α : Type} (key : Nat → K) (n : Nat) : List α → List (K × α)
  | [] => []
  | a :: as => (key n, a) :: indexed key (n + 1) as

def named (members : List (Bytes × Value x.Num)) : List (Key × Value x.Num) :=
  members.map fun member => (.string member.1, member.2)

/-- A number for which fourteen digits are enough: its numeral is one of the grammar, and is
read as the number itself. -/
structure Printing.Exact (p : Printing x) (n : x.Num) : Prop where
  finite : p.isNaNOrInf n = false
  begins : ∃ b s, p.format n = b :: s ∧ (isDigit b || b = '-'.toUInt8) = true
  undelimited : ∀ b ∈ p.format n, delimChars.contains b = false
  reads : x.tonumber (p.format n) = some n

def Table.IsArrayOf (t : Table N size) (refs : List (Ref N size)) : Prop :=
  t.entries.Perm (indexed .index 1 refs)

/-- The tree that a value stands for, if JSON has it, with no more than `height` tables below
each other. -/
def StandsFor (heap : Heap x.Num size) : Nat → Ref x.Num size → Value x.Num → Prop
  | _, .nil, tree => tree = .nil
  | _, .boolean b, tree => tree = .boolean b
  | _, .number n, tree => p.Exact n ∧ tree = .number n
  | _, .string s, tree => tree = .string s
  | _, .other _, _ => False
  | 0, .table _, _ => False
  | height + 1, .table val, tree =>
    (∃ refs values, (heap val).IsArrayOf refs ∧ List.Forall₂ (StandsFor heap height) refs values ∧
      tree = .table (indexed .index 1 values)) ∨
    ∃ members, List.Forall₂ (fun entry member =>
        entry.1 = .string member.1 ∧ StandsFor heap height entry.2 member.2)
      (heap val).entries members ∧ tree = .table (named members)

/-- There is no hole below a whole number among the keys. -/
def Table.Gapless (t : Table N size) : Prop :=
  ∀ i j, rawget t.entries i ≠ none → 0 < j → j ≤ i → rawget t.entries j ≠ none

def Ref.Plain (p : Printing x) : Ref x.Num size → Prop
  | .number n => p.isNaNOrInf n = false → p.Exact n
  | _ => True

structure Table.Plain (p : Printing x) (t : Table x.Num size) : Prop where
  gapless : t.Gapless
  values : ∀ entry ∈ t.entries, entry.2.Plain p

section Arrays

variable {K α : Type} {key : Nat → K} {entries : List (TableKey N × Ref N size)}
  {t : Table N size} {refs : List (Ref N size)} {n : Nat}

theorem length_indexed (key : Nat → K) (n : Nat) (l : List α) :
    (indexed key n l).length = l.length := by
  induction l generalizing n with
  | nil => rfl
  | cons a l ih => rw [indexed, List.length_cons, List.length_cons, ih]

theorem mem_indexed {k : K} {a : α} {l : List α} :
    (k, a) ∈ indexed key n l ↔ ∃ j, l[j]? = some a ∧ k = key (n + j) := by
  induction l generalizing n with
  | nil => simp [indexed]
  | cons b l ih =>
    rw [indexed, List.mem_cons, ih]
    constructor
    · rintro (heq | ⟨j, hj, hk⟩)
      · cases heq
        exact ⟨0, rfl, rfl⟩
      · exact ⟨j + 1, hj, by rw [hk, Nat.add_assoc, Nat.add_comm 1]⟩
    · rintro ⟨_ | j, hj, hk⟩
      · cases hj
        exact .inl (by rw [hk, Nat.add_zero])
      · exact .inr ⟨j, hj, by rw [hk, Nat.add_assoc, Nat.add_comm 1]⟩

theorem nodup_indexed (hkey : Function.Injective key) (n : Nat) (l : List α) :
    (indexed key n l).Nodup := by
  induction l generalizing n with
  | nil => exact .nil
  | cons a l ih =>
    refine List.nodup_cons.mpr ⟨fun hmem => ?_, ih (n + 1)⟩
    obtain ⟨j, -, hj⟩ := mem_indexed.mp hmem
    have hn := hkey hj
    omega

theorem isIndex_iff {i : Nat} {k : TableKey N} : k.isIndex i = true ↔ k = .index i := by
  cases k <;> simp [TableKey.isIndex, eq_comm]

theorem find_isIndex {i : Nat} {entry : TableKey N × Ref N size}
    (h : (entries.find? fun entry => entry.1.isIndex i) = some entry) :
    entry.1 = .index i ∧ entry ∈ entries := by
  have hindex := List.find?_some h
  exact ⟨isIndex_iff.mp hindex, List.mem_of_find?_eq_some h⟩

theorem mem_of_rawget {i : Nat} {v : Ref N size} (h : rawget entries i = some v) :
    (.index i, v) ∈ entries := by
  obtain ⟨⟨k, v'⟩, hfind, rfl⟩ := Option.map_eq_some_iff.mp h
  obtain ⟨hkey, hmem⟩ := find_isIndex hfind
  exact hkey ▸ hmem

theorem rawget_eq_some (hdistinct : (entries.map Prod.fst).Nodup) {i : Nat} {v : Ref N size} :
    rawget entries i = some v ↔ (.index i, v) ∈ entries := by
  refine ⟨mem_of_rawget, fun hmem => ?_⟩
  have hsome : (entries.find? fun entry => entry.1.isIndex i).isSome = true :=
    List.find?_isSome.mpr ⟨_, hmem, isIndex_iff.mpr rfl⟩
  obtain ⟨entry, hentry⟩ := Option.isSome_iff_exists.mp hsome
  obtain ⟨hkey, hfound⟩ := find_isIndex hentry
  have hsame : entry = (.index i, v) := List.inj_on_of_nodup_map hdistinct hfound hmem hkey
  rw [rawget, hentry, hsame, Option.map_some]

theorem ipairsFrom_eq {i : Nat} (h : ∀ j, rawget entries (i + j) = refs[j]?) :
    ipairsFrom entries n i = refs.take n := by
  induction n generalizing i refs with
  | zero => rw [ipairsFrom, List.take_zero]
  | succ n ih =>
    have hfirst := h 0
    rw [Nat.add_zero] at hfirst
    cases refs with
    | nil =>
      rw [List.getElem?_nil] at hfirst
      rw [ipairsFrom, hfirst, List.take_nil]
    | cons v refs =>
      rw [List.getElem?_cons_zero] at hfirst
      have hrest : ∀ j, rawget entries (i + 1 + j) = refs[j]? := by
        intro j
        rw [Nat.add_assoc, Nat.add_comm 1, h, List.getElem?_cons_succ]
      rw [ipairsFrom, hfirst, List.take_succ_cons]
      dsimp only
      rw [ih hrest]

namespace Table.IsArrayOf

theorem rawget_eq (h : t.IsArrayOf refs) (j : Nat) : rawget t.entries (1 + j) = refs[j]? := by
  refine Option.ext fun v => ?_
  rw [rawget_eq_some t.distinct, h.mem_iff, mem_indexed]
  constructor
  · rintro ⟨j', hj', hkey⟩
    have hj : 1 + j = 1 + j' := TableKey.index.inj hkey
    rwa [Nat.add_left_cancel hj]
  · exact fun hj => ⟨j, hj, rfl⟩

theorem length_entries (h : t.IsArrayOf refs) : t.entries.length = refs.length := by
  rw [h.length_eq, length_indexed]

theorem ipairs_eq (h : t.IsArrayOf refs) : t.ipairs = refs := by
  rw [Table.ipairs, ipairsFrom_eq h.rawget_eq, h.length_entries, List.take_length]

theorem length_eq (h : t.IsArrayOf refs) : t.length = refs.length := by
  obtain ⟨hlast, hnext⟩ := t.border
  rw [Nat.add_comm, h.rawget_eq, List.getElem?_eq_none_iff] at hnext
  cases hlength : t.length with
  | zero => omega
  | succ n =>
    rw [hlength, Nat.add_comm n, h.rawget_eq, Ne, List.getElem?_eq_none_iff] at hlast
    omega

theorem isArray (h : t.IsArrayOf refs) : t.isArray = true := by
  rw [Table.isArray, Bool.or_eq_true]
  cases refs with
  | nil => exact .inr (List.isEmpty_iff_length_eq_zero.mpr h.length_entries)
  | cons v refs => exact .inl (by rw [h.rawget_eq 0]; rfl)

theorem isNumber (h : t.IsArrayOf refs) : ∀ entry ∈ t.entries, entry.1.isNumber = true := by
  rintro ⟨k, v⟩ hentry
  obtain ⟨j, -, rfl⟩ := mem_indexed.mp (h.mem_iff.mp hentry)
  rfl

theorem exists_mem {v : Ref N size} (h : t.IsArrayOf refs) (hv : v ∈ refs) :
    ∃ k, (k, v) ∈ t.entries := by
  obtain ⟨j, hj⟩ := List.mem_iff_getElem?.mp hv
  exact ⟨_, h.mem_iff.mpr (mem_indexed.mpr ⟨j, hj, rfl⟩)⟩

theorem of_gapless (hgapless : t.Gapless) (hlength : t.entries.length = t.length) :
    ∃ refs, t.IsArrayOf refs := by
  have hrawget : ∀ j < t.length, ∃ v, rawget t.entries (1 + j) = some v := by
    intro j hj
    have hlast := t.border.1.resolve_left (Nat.ne_zero_of_lt hj)
    exact Option.ne_none_iff_exists'.mp (hgapless _ (1 + j) hlast (by omega) (by omega))
  let refs := List.ofFn fun j : Fin t.length => (rawget t.entries (1 + j)).getD .nil
  have hsubset : indexed .index 1 refs ⊆ t.entries := by
    rintro ⟨k, v⟩ hentry
    obtain ⟨j, hj, rfl⟩ := mem_indexed.mp hentry
    obtain ⟨hlt, rfl⟩ := List.getElem?_eq_some_iff.mp hj
    obtain ⟨v, hv⟩ := hrawget j (by rwa [List.length_ofFn] at hlt)
    rw [List.getElem_ofFn, hv, Option.getD_some]
    exact mem_of_rawget hv
  have hnodup : (indexed .index 1 refs : List (TableKey N × Ref N size)).Nodup :=
    nodup_indexed (fun _ _ => TableKey.index.inj) 1 refs
  refine ⟨refs, ((hnodup.subperm hsubset).perm_of_length_le ?_).symm⟩
  rw [length_indexed, List.length_ofFn, hlength]

end Table.IsArrayOf

theorem keys_of_members {P : Ref N size → α → Prop} {members : List (Bytes × α)}
    (h : List.Forall₂ (fun entry member => entry.1 = .string member.1 ∧ P entry.2 member.2)
      entries members) : entries.map Prod.fst = (members.map Prod.fst).map .string := by
  rw [← List.forall₂_eq_eq_eq, List.map_map, List.forall₂_map_left_iff, List.forall₂_map_right_iff]
  exact h.imp fun entry member h => h.1

theorem isArray_of_members {P : Ref N size → α → Prop} {members : List (Bytes × α)}
    (h : List.Forall₂ (fun entry member => entry.1 = .string member.1 ∧ P entry.2 member.2)
      t.entries members) : t.isArray = t.entries.isEmpty := by
  have hnone : rawget t.entries 1 = none := by
    refine Option.eq_none_iff_forall_ne_some.mpr fun v hv => ?_
    have hkey : .index 1 ∈ t.entries.map Prod.fst := List.mem_map_of_mem (mem_of_rawget hv)
    rw [keys_of_members h] at hkey
    simp at hkey
  rw [Table.isArray, hnone, Option.isSome_none, Bool.false_or]

end Arrays

theorem escapeChar_of_lookup : ∀ entry ∈ escapeCharMap,
    escapeChar entry.1 = [backslash, entry.2] ∧ (entry.2, entry.1) ∈ escapeCharMapInv :=
  List.all_iff_forall_prop.mp (by decide)

theorem escape_control : ∀ n < 32, escapeCharMap.lookup (UInt8.ofNat n) = none →
    let hex := ascii "00" ++ [hexChar (n / 16), hexChar (n % 16)]
    strMatch codePattern hex = some hex ∧ parseUnicodeEscape hex = .ok [UInt8.ofNat n] := by
  decide

theorem escape_escapeChar {c : UInt8} (hc : isEscaped c = true) (t : Bytes) :
    Escape t (escapeChar c) [c] := by
  cases hlookup : escapeCharMap.lookup c with
  | some e =>
    obtain ⟨hescape, hmem⟩ := escapeChar_of_lookup _ (Overload.Json.mem_of_lookup hlookup)
    exact hescape ▸ .char hmem
  | none =>
    have hcontrol : c < 32 := by
      simp only [isEscaped, Bool.or_eq_true, decide_eq_true_eq] at hc
      rcases hc with (hc | rfl) | rfl
      · exact hc
      · cases hlookup
      · cases hlookup
    have hnat : UInt8.ofNat c.toNat = c := UInt8.ofNat_toNat
    obtain ⟨hhex, hbytes⟩ := escape_control c.toNat hcontrol (by rw [hnat, hlookup])
    rw [hnat] at hbytes
    have hchar : escapeChar c = backslash :: 'u'.toUInt8 ::
        (ascii "00" ++ [hexChar (c.toNat / 16), hexChar (c.toNat % 16)]) := by
      rw [escapeChar, hlookup]
      rfl
    rw [hchar]
    -- a pair begins with a d, so that nothing behind can make one of this
    exact .code (strMatch_eq_some.mp hhex).1 rfl hbytes

theorem chars_encodeString (val : Bytes) :
    Chars (val.flatMap (fun c => if isEscaped c then escapeChar c else [c]) ++ [quote]) val := by
  induction val with
  | nil => exact .close
  | cons c val ih =>
    rw [List.flatMap_cons, List.append_assoc]
    split_ifs with hc
    · exact .escape (escape_escapeChar hc _) ih
    · simp only [isEscaped, Bool.or_eq_true, decide_eq_true_eq, not_or] at hc
      exact .plain hc.1.1 hc.1.2 hc.2 ih

theorem setEntry_fresh {entries : List (Key × Value x.Num)} {key : Key} {value : Value x.Num}
    (hkey : ∀ entry ∈ entries, entry.1 ≠ key) (hvalue : value ≠ .nil) :
    setEntry entries key value = entries ++ [(key, value)] := by
  have hfilter : entries.filter (fun entry => entry.1 ≠ key) = entries :=
    List.filter_eq_self.mpr fun entry hentry => decide_eq_true (hkey entry hentry)
  cases value with
  | nil => exact absurd rfl hvalue
  | boolean | number | string | table => rw [setEntry, hfilter]; nofun

theorem arrayEntries_eq {res : List (Key × Value x.Num)} {n : Nat} {values : List (Value x.Num)}
    (hres : ∀ entry ∈ res, ∃ i < n, entry.1 = .index i) (hvalues : ∀ value ∈ values, value ≠ .nil) :
    arrayEntries res n values = res ++ indexed .index n values := by
  induction values generalizing res n with
  | nil => exact (List.append_nil res).symm
  | cons value values ih =>
    obtain ⟨hvalue, hvalues⟩ := List.forall_mem_cons.mp hvalues
    have hfresh : ∀ entry ∈ res, entry.1 ≠ .index n := by
      rintro entry hentry h
      obtain ⟨i, hi, hkey⟩ := hres entry hentry
      cases hkey.symm.trans h
      exact absurd hi (Nat.lt_irrefl n)
    rw [arrayEntries, setEntry_fresh hfresh hvalue, ih _ hvalues, List.append_assoc]
    · rfl
    · intro entry hentry
      rcases List.mem_append.mp hentry with hentry | hentry
      · obtain ⟨i, hi, hkey⟩ := hres entry hentry
        exact ⟨i, Nat.lt_succ_of_lt hi, hkey⟩
      · cases List.mem_singleton.mp hentry
        exact ⟨n, Nat.lt_succ_self n, rfl⟩

theorem objectEntries_eq {res : List (Key × Value x.Num)} {members : List (Bytes × Value x.Num)}
    (hres : ∀ entry ∈ res, ∀ member ∈ members, entry.1 ≠ .string member.1)
    (hdistinct : (members.map Prod.fst).Nodup) (hmembers : ∀ member ∈ members, member.2 ≠ .nil) :
    objectEntries res members = res ++ named members := by
  induction members generalizing res with
  | nil => exact (List.append_nil res).symm
  | cons member members ih =>
    obtain ⟨hmember, hmembers⟩ := List.forall_mem_cons.mp hmembers
    obtain ⟨hnot, hdistinct⟩ := List.nodup_cons.mp hdistinct
    have hfresh : ∀ entry ∈ res, entry.1 ≠ .string member.1 := fun entry hentry =>
      hres entry hentry member List.mem_cons_self
    rw [objectEntries, setEntry_fresh hfresh hmember, ih _ hdistinct hmembers, List.append_assoc]
    · rfl
    · intro entry hentry other hother
      rcases List.mem_append.mp hentry with hentry | hentry
      · exact hres entry hentry other (List.mem_cons_of_mem _ hother)
      · cases List.mem_singleton.mp hentry
        intro h
        exact hnot (Key.string.inj h ▸ List.mem_map_of_mem hother)

theorem writes_elements {calls : List ParseFunction} {values : List (Value x.Num)}
    {texts : List Bytes}
    (h : List.Forall₂ (fun value t => Writes x calls (.value value) t) values texts) :
    Writes x calls (.elements values) (concat texts ++ [']'.toUInt8]) := by
  have hnone : Spaces [] := nofun
  induction h with
  | nil => exact .noElement hnone
  | @cons value t values texts hvalue hvalues ih =>
    cases hvalues with
    | nil =>
      have hlast := Writes.lastElement hnone hvalue hnone
      simpa [concat, List.intercalate] using hlast
    | cons =>
      have helement := Writes.element hnone hvalue hnone ih
      simpa [concat, List.intercalate] using helement

theorem writes_members {calls : List ParseFunction} {members : List (Bytes × Value x.Num)}
    {texts : List Bytes} (hroom : x.hasRoom (.string :: calls) = true)
    (h : List.Forall₂ (fun member t => ∃ v, t = encodeString member.1 ++ ':'.toUInt8 :: v ∧
      Writes x calls (.value member.2) v) members texts) :
    Writes x calls (.members members) (concat texts ++ [closeBrace]) := by
  have hnone : Spaces [] := nofun
  induction h with
  | nil => exact .noMember hnone
  | @cons member t members texts hmember hmembers ih =>
    obtain ⟨v, rfl, hv⟩ := hmember
    have hkey := chars_encodeString member.1
    cases hmembers with
    | nil =>
      have hlast := Writes.lastMember hroom hnone hkey hnone hnone hv hnone
      simpa [concat, List.intercalate, encodeString] using hlast
    | cons =>
      have hnext := Writes.member hroom hnone hkey hnone hnone hv hnone ih
      simpa [concat, List.intercalate, encodeString] using hnext

end Overload.Lua.Json
