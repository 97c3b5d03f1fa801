import Overload.Lua.Documents

namespace Overload.Lua

open Overload.Lua.Json (Interpreter Form Writes arrayEntries decode objectEntries)

def stringFind (separator : Bytes) : Bytes → Option (Bytes × Bytes)
  | [] => none
  | b :: str =>
    if separator.isPrefixOf (b :: str) then some ([], (b :: str).drop separator.length)
    else (stringFind separator str).map fun (before, after) => (b :: before, after)

def stringSplitLoop (separator : Bytes) : Nat → List Bytes → Bytes → List Bytes
  | 0, ret, str => ret ++ [str]
  | turns + 1, ret, str =>
    match stringFind separator str with
    | none => ret ++ [str]
    | some (part, str) => stringSplitLoop separator turns (ret ++ [part]) str

def stringSplit (str separator : Bytes) : List Bytes :=
  if separator = [] then str.map fun b => [b]
  else stringSplitLoop separator str.length [] str

def slash : UInt8 := '/'.toUInt8

/-- What Lua has besides numbers: the positive whole number that one is as a key, and the names
in the table that strings are indexed with. -/
structure Library (x : Interpreter) where
  asIndex : x.Num → Option Nat
  methods : List Bytes

inductive Located (N : Type)
  | value (v : Value N)
  | method (name : Bytes)

variable {x : Interpreter}

def Value.isNil {N : Type} : Value N → Bool
  | .nil => true
  | _ => false

def Located.isNil {N : Type} : Located N → Bool
  | .value v => v.isNil
  | .method _ => false

def Located.typeName {N : Type} : Located N → Bytes
  | .value .nil => ascii "nil"
  | .value (.boolean _) => ascii "boolean"
  | .value (.number _) => ascii "number"
  | .value (.string _) => ascii "string"
  | .value (.table _) => ascii "table"
  | .method _ => ascii "function"

namespace Library

variable (lib : Library x)

def index : Located x.Num → Key → Except Bytes (Located x.Num)
  | .value (.table entries), key => .ok (.value (getEntry entries key))
  | .value (.string _), .string name =>
    .ok (if lib.methods.contains name then .method name else .value .nil)
  | .value (.string _), .index _ => .ok (.value .nil)
  | location, _ => .error (ascii "attempt to index a " ++ location.typeName ++
      ascii " value (local 'curLocation')")

def enter (curLocation : Located x.Num) (path : Bytes) :
    Except Bytes (Option (Located x.Num)) := do
  let location ← lib.index curLocation (.string path)
  if !location.isNil then return some location
  match (x.tonumber path).bind lib.asIndex with
  | none => return none
  | some i =>
    let location ← lib.index curLocation (.index i)
    return if location.isNil then none else some location

def follow (curLocation : Located x.Num) : List Bytes → Except Bytes (Located x.Num)
  | [] => .ok curLocation
  | path :: pathParts => do
    match ← lib.enter curLocation path with
    | none => return .value .nil
    | some location => follow location pathParts

def getValueByPath (tbl : Value x.Num) (path : Bytes) : Except Bytes (Located x.Num) :=
  lib.follow (.value tbl) (stringSplit path [slash]).tail

end Library

theorem stringFind_of_not_mem {b : UInt8} {str : Bytes} (h : b ∉ str) :
    stringFind [b] str = none := by
  induction str with
  | nil => rfl
  | cons c str ih =>
    obtain ⟨hc, hstr⟩ := List.ne_and_not_mem_of_not_mem_cons h
    simp [stringFind, hc, ih hstr]

theorem stringFind_append {b : UInt8} {part str : Bytes} (h : b ∉ part) :
    stringFind [b] (part ++ b :: str) = some (part, str) := by
  induction part with
  | nil => simp [stringFind]
  | cons c part ih =>
    obtain ⟨hc, hpart⟩ := List.ne_and_not_mem_of_not_mem_cons h
    simp [stringFind, hc, ih hpart]

theorem stringSplitLoop_eq {b : UInt8} {turns : Nat} {ret : List Bytes} {str : Bytes}
    (h : str.length ≤ turns) :
    stringSplitLoop [b] turns ret str = ret ++ str.splitOn b := by
  induction turns generalizing ret str with
  | zero =>
    obtain rfl := List.length_eq_zero_iff.mp (Nat.le_zero.mp h)
    rw [stringSplitLoop, List.splitOn_nil]
  | succ turns ih =>
    by_cases hb : b ∈ str
    · obtain ⟨part, rest, rfl, hpart⟩ := List.eq_append_cons_of_mem hb
      rw [List.length_append, List.length_cons] at h
      rw [stringSplitLoop, stringFind_append hpart, List.splitOn_append_cons_self_of_not_mem hpart]
      dsimp only
      rw [ih (by omega), List.append_assoc, List.singleton_append]
    · rw [stringSplitLoop, stringFind_of_not_mem hb, List.splitOn_eq_singleton hb]

theorem stringSplit_eq (str : Bytes) (b : UInt8) : stringSplit str [b] = str.splitOn b := by
  rw [stringSplit, if_neg (List.cons_ne_nil b []), stringSplitLoop_eq (Nat.le_refl _),
    List.nil_append]

section Trees

variable {N : Type} {entries : List (Key × Value N)} {key : Key} {v w : Value N} {array : Bool}

def Key.isIndex : Key → Bool
  | .index _ => true
  | .string _ => false

inductive Leads : Value N → List Key → Value N → Prop
  | here {v : Value N} : Leads v [] v
  | entry {entries : List (Key × Value N)} {key : Key} {v w : Value N} {keys : List Key} :
    (key, v) ∈ entries → Leads v keys w → Leads (.table entries) (key :: keys) w

structure Entries (array : Bool) (entries : List (Key × Value N)) : Prop where
  distinct : (entries.map Prod.fst).Nodup
  present : ∀ entry ∈ entries, entry.2 ≠ .nil
  kind : ∀ entry ∈ entries, entry.1.isIndex = array

def Value.Tidy (v : Value N) : Prop :=
  ∀ keys entries, Leads v keys (.table entries) → ∃ array, Entries array entries

theorem Value.tidy_of_leaf (hv : ∀ entries, v ≠ .table entries) : v.Tidy := by
  intro keys entries h
  cases h with
  | here => exact absurd rfl (hv entries)
  | entry _ _ => exact absurd rfl (hv _)

theorem Value.tidy_number (n : N) : (Value.number n).Tidy := tidy_of_leaf nofun

theorem Value.tidy_string (s : Bytes) : (Value.string s : Value N).Tidy := tidy_of_leaf nofun

theorem Value.tidy_table (h : Entries array entries) (hinner : ∀ entry ∈ entries, entry.2.Tidy) :
    (Value.table entries).Tidy := by
  intro keys entries' hleads
  cases hleads with
  | here => exact ⟨array, h⟩
  | entry hmem hleads => exact hinner _ hmem _ _ hleads

theorem Value.Tidy.entry (h : (Value.table entries).Tidy) (hmem : (key, v) ∈ entries) : v.Tidy :=
  fun keys entries' hleads => h (key :: keys) entries' (.entry hmem hleads)

theorem mem_setEntry {entry : Key × Value N} (h : entry ∈ setEntry entries key v) :
    entry ∈ entries ∨ entry = (key, v) := by
  cases v with
  | nil => exact .inl (List.mem_of_mem_filter h)
  | _ =>
    rcases List.mem_append.mp h with h | h
    · exact .inl (List.mem_of_mem_filter h)
    · exact .inr (List.mem_singleton.mp h)

theorem entries_nil : Entries array ([] : List (Key × Value N)) := ⟨.nil, nofun, nofun⟩

theorem Entries.filter (h : Entries array entries) (p : Key × Value N → Bool) :
    Entries array (entries.filter p) where
  distinct := h.distinct.sublist (List.filter_sublist.map Prod.fst)
  present entry hentry := h.present entry (List.mem_of_mem_filter hentry)
  kind entry hentry := h.kind entry (List.mem_of_mem_filter hentry)

theorem Entries.append (h : Entries array entries) (hnew : key ∉ entries.map Prod.fst)
    (hv : v ≠ .nil) (hkey : key.isIndex = array) : Entries array (entries ++ [(key, v)]) where
  distinct := by
    rw [List.map_append, List.map_singleton]
    exact List.nodup_append_comm.mp (List.nodup_cons.mpr ⟨hnew, h.distinct⟩)
  present := List.forall_mem_append.mpr ⟨h.present, List.forall_mem_singleton.mpr hv⟩
  kind := List.forall_mem_append.mpr ⟨h.kind, List.forall_mem_singleton.mpr hkey⟩

theorem Entries.setEntry (h : Entries array entries) (hkey : key.isIndex = array) (v : Value N) :
    Entries array (setEntry entries key v) := by
  have hnew : key ∉ (entries.filter fun entry => entry.1 ≠ key).map Prod.fst := by
    simp
  cases v with
  | nil => exact h.filter _
  | _ => exact (h.filter _).append hnew nofun hkey

theorem getEntry_of_mem (h : Entries array entries) (hmem : (key, v) ∈ entries) :
    getEntry entries key = v := by
  rw [getEntry, (Overload.Json.lookup_eq_some_iff h.distinct).mpr hmem, Option.getD_some]

theorem getEntry_mem (hv : getEntry entries key = v) (hnil : v ≠ .nil) : (key, v) ∈ entries := by
  rw [getEntry] at hv
  cases hlookup : entries.lookup key with
  | none => exact absurd (by rw [← hv, hlookup, Option.getD_none]) hnil
  | some v' =>
    rw [hlookup, Option.getD_some] at hv
    exact hv ▸ Overload.Json.mem_of_lookup hlookup

end Trees

section Documents

variable {res : List (Key × Value x.Num)} {n : Nat} {values : List (Value x.Num)}
  {members : List (Bytes × Value x.Num)}

theorem entries_arrayEntries (h : Entries true res) : Entries true (arrayEntries res n values) := by
  induction values generalizing res n with
  | nil => exact h
  | cons v values ih => exact ih (h.setEntry rfl v)

theorem mem_arrayEntries {entry : Key × Value x.Num} (h : entry ∈ arrayEntries res n values) :
    entry ∈ res ∨ entry.2 ∈ values := by
  induction values generalizing res n with
  | nil => exact .inl h
  | cons v values ih =>
    rcases ih h with h | h
    · refine (mem_setEntry h).imp id fun h => ?_
      rw [h]
      exact List.mem_cons_self
    · exact .inr (List.mem_cons_of_mem v h)

theorem entries_objectEntries (h : Entries false res) :
    Entries false (objectEntries res members) := by
  induction members generalizing res with
  | nil => exact h
  | cons member members ih => exact ih (h.setEntry rfl member.2)

theorem mem_objectEntries {entry : Key × Value x.Num} (h : entry ∈ objectEntries res members) :
    entry ∈ res ∨ entry.2 ∈ members.map Prod.snd := by
  induction members generalizing res with
  | nil => exact .inl h
  | cons member members ih =>
    rcases ih h with h | h
    · refine (mem_setEntry h).imp id fun h => ?_
      rw [h]
      exact List.mem_cons_self
    · exact .inr (List.mem_cons_of_mem member.2 h)

def formValues : Form x → List (Value x.Num)
  | .value v => [v]
  | .elements values => values
  | .members members => members.map Prod.snd

theorem tidy_of_writes {calls : List Json.ParseFunction} {form : Form x} {t : Bytes}
    (h : Writes x calls form t) :
    ∀ v ∈ formValues form, v.Tidy := by
  induction h with
  | literal _ hmem =>
    refine List.forall_mem_singleton.mpr (Value.tidy_of_leaf fun entries heq => ?_)
    rw [heq] at hmem
    simp [Json.literalMap] at hmem
  | number => exact List.forall_mem_singleton.mpr (Value.tidy_number _)
  | string => exact List.forall_mem_singleton.mpr (Value.tidy_string _)
  | array _ _ ih =>
    refine List.forall_mem_singleton.mpr (Value.tidy_table (entries_arrayEntries entries_nil) ?_)
    exact fun entry hentry => ih _ ((mem_arrayEntries hentry).resolve_left List.not_mem_nil)
  | object _ _ ih =>
    refine List.forall_mem_singleton.mpr (Value.tidy_table (entries_objectEntries entries_nil) ?_)
    exact fun entry hentry => ih _ ((mem_objectEntries hentry).resolve_left List.not_mem_nil)
  | noElement | noMember => exact List.forall_mem_nil _
  | lastElement _ _ _ ih | lastMember _ _ _ _ _ _ _ ih => exact ih
  | element _ _ _ _ ih ihrest | member _ _ _ _ _ _ _ _ ih ihrest =>
    exact List.forall_mem_cons.mpr ⟨ih _ List.mem_cons_self, ihrest⟩

end Documents

namespace Library

variable {lib : Library x} {entries : List (Key × Value x.Num)} {array : Bool} {path : Bytes}
  {tbl w : Value x.Num}

def Denotes (lib : Library x) (path : Bytes) : Key → Prop
  | .string s => s = path
  | .index i => (x.tonumber path).bind lib.asIndex = some i

/-- What the parts of a path lead to: a value, or behind a string a function on strings. -/
inductive Finds (lib : Library x) (tree : Value x.Num) : List Bytes → Located x.Num → Prop
  | value {parts : List Bytes} {keys : List Key} {w : Value x.Num} :
    List.Forall₂ lib.Denotes parts keys → Leads tree keys w → Finds lib tree parts (.value w)
  | method {parts : List Bytes} {keys : List Key} {s name : Bytes} :
    List.Forall₂ lib.Denotes parts keys → Leads tree keys (.string s) → name ∈ lib.methods →
    Finds lib tree (parts ++ [name]) (.method name)

theorem isNil_iff {N : Type} {v : Value N} : v.isNil = true ↔ v = .nil := by
  cases v <;> simp [Value.isNil]

theorem isNil_getEntry {key : Key} {v : Value x.Num} (h : Entries array entries)
    (hmem : (key, v) ∈ entries) : (getEntry entries key).isNil = false := by
  rw [getEntry_of_mem h hmem, Bool.eq_false_iff]
  exact fun hnil => h.present _ hmem (isNil_iff.mp hnil)

theorem mem_of_isNil {key : Key} (h : ¬ (getEntry entries key).isNil = true) :
    (key, getEntry entries key) ∈ entries :=
  getEntry_mem rfl fun hnil => h (isNil_iff.mpr hnil)

theorem enter_of_mem {key : Key} {v : Value x.Num} (h : Entries array entries)
    (hkey : lib.Denotes path key) (hmem : (key, v) ∈ entries) :
    lib.enter (.value (.table entries)) path = .ok (some (.value v)) := by
  have hv := getEntry_of_mem h hmem
  have hnil := isNil_getEntry h hmem
  cases key with
  | string s =>
    obtain rfl : s = path := hkey
    rw [hv] at hnil
    simp only [enter, index, bind, Except.bind, pure, Except.pure, Located.isNil, hv, hnil,
      Bool.not_false, if_true]
  | index i =>
    have hname : (getEntry entries (.string path)).isNil = true := by
      by_contra hname
      cases (h.kind _ hmem).trans (h.kind _ (mem_of_isNil hname)).symm
    have hi : (x.tonumber path).bind lib.asIndex = some i := hkey
    rw [hv] at hnil
    simp only [enter, index, bind, Except.bind, pure, Except.pure, Located.isNil, hname, hi, hv,
      hnil, Bool.not_true, Bool.false_eq_true, if_false]

theorem enter_table (lib : Library x) (entries : List (Key × Value x.Num)) (path : Bytes) :
    lib.enter (.value (.table entries)) path = .ok none ∨ ∃ key v,
      lib.enter (.value (.table entries)) path = .ok (some (.value v)) ∧
      lib.Denotes path key ∧ (key, v) ∈ entries := by
  simp only [enter, index, bind, Except.bind, pure, Except.pure, Located.isNil]
  by_cases hname : (getEntry entries (.string path)).isNil = true
  · simp only [hname, Bool.not_true, Bool.false_eq_true, if_false]
    cases hi : (x.tonumber path).bind lib.asIndex with
    | none => exact .inl rfl
    | some i =>
      by_cases hnumber : (getEntry entries (.index i)).isNil = true
      · exact .inl (by simp only [hnumber, if_true])
      · refine .inr ⟨.index i, _, ?_, hi, mem_of_isNil hnumber⟩
        simp only [hnumber, if_false, Bool.false_eq_true]
  · refine .inr ⟨.string path, _, ?_, rfl, mem_of_isNil hname⟩
    simp only [Bool.eq_false_iff.mpr hname, Bool.not_false, if_true]

section Follow

variable {curLocation location : Located x.Num} {pathParts : List Bytes}

theorem follow_none (h : lib.enter curLocation path = .ok none) :
    lib.follow curLocation (path :: pathParts) = .ok (.value .nil) := by
  simp only [follow, h, bind, Except.bind, pure, Except.pure]

theorem follow_some (h : lib.enter curLocation path = .ok (some location)) :
    lib.follow curLocation (path :: pathParts) = lib.follow location pathParts := by
  simp only [follow, h, bind, Except.bind]

end Follow

section Finds

variable {pathParts : List Bytes} {location : Located x.Num}

theorem finds_nil : lib.Finds tbl [] location ↔ location = .value tbl := by
  constructor
  · intro h
    generalize hparts : ([] : List Bytes) = parts at h
    cases h with
    | value hkeys hleads =>
      subst hparts
      cases hkeys
      cases hleads
      rfl
    | method => simp at hparts
  · rintro rfl
    exact .value .nil .here

theorem finds_table {entries : List (Key × Value x.Num)} :
    lib.Finds (.table entries) (path :: pathParts) location ↔
      ∃ key v, lib.Denotes path key ∧ (key, v) ∈ entries ∧ lib.Finds v pathParts location := by
  constructor
  · intro h
    generalize hparts : path :: pathParts = parts at h
    cases h with
    | value hkeys hleads =>
      subst hparts
      cases hkeys with
      | cons hkey hkeys =>
        cases hleads with
        | entry hmem hleads => exact ⟨_, _, hkey, hmem, .value hkeys hleads⟩
    | method hkeys hleads hname =>
      cases hkeys with
      | nil => cases hleads
      | cons hkey hkeys =>
        cases hparts
        cases hleads with
        | entry hmem hleads => exact ⟨_, _, hkey, hmem, .method hkeys hleads hname⟩
  · rintro ⟨key, v, hkey, hmem, hv⟩
    cases hv with
    | value hkeys hleads => exact .value (.cons hkey hkeys) (.entry hmem hleads)
    | method hkeys hleads hname =>
      exact List.cons_append ▸ .method (.cons hkey hkeys) (.entry hmem hleads) hname

theorem finds_leaf (htbl : ∀ entries, tbl ≠ .table entries) :
    lib.Finds tbl (path :: pathParts) location ↔
      (∃ s, tbl = .string s) ∧ pathParts = [] ∧ path ∈ lib.methods ∧ location = .method path := by
  constructor
  · intro h
    generalize hparts : path :: pathParts = parts at h
    cases h with
    | value hkeys hleads =>
      subst hparts
      cases hkeys
      cases hleads
      exact absurd rfl (htbl _)
    | method hkeys hleads hname =>
      cases hkeys with
      | nil =>
        cases hparts
        cases hleads
        exact ⟨⟨_, rfl⟩, rfl, hname, rfl⟩
      | cons =>
        cases hleads
        exact absurd rfl (htbl _)
  · rintro ⟨⟨s, rfl⟩, rfl, hname, rfl⟩
    exact .method .nil .here hname

theorem follow_leaf (htbl : ∀ entries, tbl ≠ .table entries) (hlocation : location.isNil = false) :
    lib.follow (.value tbl) (path :: pathParts) = .ok location ↔
      (∃ s, tbl = .string s) ∧ pathParts = [] ∧ path ∈ lib.methods ∧ location = .method path := by
  cases tbl with
  | table entries => exact absurd rfl (htbl entries)
  | string s =>
    rw [and_iff_right ⟨s, rfl⟩]
    by_cases hmethod : lib.methods.contains path = true
    · have henter : lib.enter (.value (.string s)) path = .ok (some (.method path)) := by
        simp only [enter, index, hmethod, bind, Except.bind, pure, Except.pure, if_true,
          Located.isNil, Bool.not_false]
      rw [follow_some henter]
      cases pathParts with
      | nil => simp [follow, List.contains_iff_mem.mp hmethod, eq_comm]
      | cons => exact iff_of_false nofun fun h => absurd h.1 (List.cons_ne_nil _ _)
    · have henter : lib.enter (.value (.string s)) path = .ok none := by
        simp only [enter, index, hmethod, bind, Except.bind, pure, Except.pure, if_false,
          Located.isNil, Value.isNil, Bool.not_true, Bool.false_eq_true]
        cases (x.tonumber path).bind lib.asIndex <;> rfl
      rw [follow_none henter]
      refine iff_of_false ?_ fun h => hmethod (List.contains_iff_mem.mpr h.2.1)
      rintro ⟨⟩
      cases hlocation
  | nil | boolean | number =>
    refine iff_of_false nofun ?_
    rintro ⟨⟨s, ⟨⟩⟩, -⟩

theorem follow_eq_ok (htbl : tbl.Tidy) (hlocation : location.isNil = false)
    (pathParts : List Bytes) :
    lib.follow (.value tbl) pathParts = .ok location ↔ lib.Finds tbl pathParts location := by
  induction pathParts generalizing tbl with
  | nil => rw [finds_nil, follow, Except.ok.injEq, eq_comm]
  | cons path pathParts ih =>
    by_cases htable : ∃ entries, tbl = .table entries
    case neg =>
      have hleaf : ∀ entries, tbl ≠ .table entries := fun entries h => htable ⟨entries, h⟩
      rw [follow_leaf hleaf hlocation, finds_leaf hleaf]
    obtain ⟨entries, rfl⟩ := htable
    rw [finds_table]
    constructor
    · intro h
      obtain henter | ⟨key, v, henter, hkey, hmem⟩ := enter_table lib entries path
      · rw [follow_none henter] at h
        cases h
        cases hlocation
      · rw [follow_some henter] at h
        exact ⟨key, v, hkey, hmem, (ih (htbl.entry hmem)).mp h⟩
    · rintro ⟨key, v, hkey, hmem, hfinds⟩
      obtain ⟨array, hentries⟩ := htbl [] _ .here
      rw [follow_some (enter_of_mem hentries hkey hmem)]
      exact (ih (htbl.entry hmem)).mpr hfinds

end Finds

end Library

def Key.text : Key → Bytes
  | .index i => ascii (toString i)
  | .string s => s

def pathOf (keys : List Key) : Bytes := [slash].intercalate ([] :: keys.map Key.text)

/-- `getValueByPath` finds in a document that `json.decode` has read exactly what the parts of a
path lead to, as names or as numbers: a value, or the function on strings that the last part
names.  Every value of the document has such a path if the names on the way have no slash and
Lua reads numerals. -/
theorem decoded_is_addressed (lib : Library x) {str : Bytes} {tree : Value x.Num}
    {c : Scanner.Cursor UInt8} (hdecode : decode x str = .ok tree c) :
    (∀ path location, location.isNil = false →
      (lib.getValueByPath tree path = .ok location ↔
        lib.Finds tree (path.splitOn slash).tail location)) ∧
    ∀ keys w, w.isNil = false → Leads tree keys w →
      (∀ key ∈ keys, slash ∉ key.text ∧ lib.Denotes key.text key) →
      lib.getValueByPath tree (pathOf keys) = .ok (.value w) := by
  obtain ⟨_, _, _, -, -, hwrites, -⟩ := Json.decode_sound hdecode
  have htidy : tree.Tidy := tidy_of_writes hwrites tree List.mem_cons_self
  have hpath : ∀ path location, location.isNil = false →
      (lib.getValueByPath tree path = .ok location ↔
        lib.Finds tree (path.splitOn slash).tail location) := by
    intro path location hlocation
    rw [Library.getValueByPath, stringSplit_eq, Library.follow_eq_ok htidy hlocation]
  refine ⟨hpath, fun keys w hw hleads hkeys => (hpath _ (.value w) hw).mpr (.value ?_ hleads)⟩
  have hslash : ∀ part ∈ [] :: keys.map Key.text, slash ∉ part := by
    refine List.forall_mem_cons.mpr ⟨List.not_mem_nil, ?_⟩
    exact List.forall_mem_map.mpr fun key hkey => (hkeys key hkey).1
  rw [pathOf, List.splitOn_intercalate slash hslash (List.cons_ne_nil _ _), List.tail_cons,
    List.forall₂_map_left_iff, List.forall₂_same]
  exact fun key hkey => (hkeys key hkey).2

def oneDigit : Interpreter where
  Num := Nat
  tonumber
    | [b] => if Json.isDigit b then some (b.toNat - 48) else none
    | _ => none
  hasRoom calls := calls.length ≤ 3

def oneDigitLibrary : Library oneDigit where
  asIndex := fun n : Nat => if n = 0 then none else some n
  methods := [ascii "len"]

def pairOfValues : Value oneDigit.Num :=
  .table [(.index 1, .boolean true), (.index 2, .string (ascii "x"))]

theorem decoded_is_addressed_second :
    oneDigitLibrary.getValueByPath (.table [(.string (ascii "a"), pairOfValues)]) (ascii "/a/2") =
      .ok (.value (.string (ascii "x"))) ∧
    oneDigitLibrary.getValueByPath (.table [(.string (ascii "a"), pairOfValues)])
      (ascii "/a/2/len") = .ok (.method (ascii "len")) := by
  have hdecode : ∃ c, decode oneDigit (ascii "\x7b\"a\":[true,\"x\"]\x7d") =
      .ok (.table [(.string (ascii "a"), pairOfValues)]) c := ⟨_, rfl⟩
  obtain ⟨c, hdecode⟩ := hdecode
  have haddressed := decoded_is_addressed oneDigitLibrary hdecode
  have hleads : Leads (.table [(.string (ascii "a"), pairOfValues)])
      [.string (ascii "a"), .index 2] (.string (ascii "x")) :=
    .entry List.mem_cons_self (.entry (List.mem_cons_of_mem _ List.mem_cons_self) .here)
  have hdenotes : List.Forall₂ oneDigitLibrary.Denotes [ascii "a", ascii "2"]
      [.string (ascii "a"), .index 2] := .cons rfl (.cons rfl .nil)
  refine ⟨haddressed.2 _ _ rfl hleads ?_, (haddressed.1 _ _ rfl).mpr ?_⟩
  · exact List.forall_mem_cons.mpr
      ⟨⟨by decide, rfl⟩, List.forall_mem_singleton.mpr ⟨by decide, rfl⟩⟩
  · exact .method hdenotes hleads List.mem_cons_self

end Overload.Lua
