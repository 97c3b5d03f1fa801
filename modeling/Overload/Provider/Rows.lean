import Mathlib.Data.Bool.AllAny
import Mathlib.Data.List.Perm.Subperm
import Overload.Request.Spec

namespace Overload.Provider

open Calls
open Request (Headers HttpReq Method)
open Split (SplitRequestFile splitRanges requestOf rounds)

inductive Cell
  | null
  | integer (value : Int)
  | text (value : String)
  | other
  deriving DecidableEq, Repr

/-- A row of `SELECT ROWID, *` with the `ROWID` that it is found by.  A column that the answer
does not have is `none`: so is the one called `rowid`, if the table has an integer primary key,
which then gives the column its own name. -/
structure Row where
  rowid : Int
  rowidColumn : Option Cell
  method : Option Cell
  url : Option Cell
  body : Option Cell
  headers : Option Cell
  deriving DecidableEq, Repr

structure Table where
  rows : List Row
  sorted : rows.Pairwise fun a b => a.rowid < b.rowid

def Table.size (table : Table) : Nat := table.rows.length

def Table.Gapless (table : Table) : Prop :=
  ∀ i : Nat, 1 ≤ i → i ≤ table.size → ∃ row ∈ table.rows, row.rowid = i

-- `row.get` panics on a column that is missing or has a value of another type

def getI64 : Option Cell → Option Int
  | some (.integer value) => some value
  | _ => none

def getString : Option Cell → Option String
  | some (.text value) => some value
  | _ => none

def getOptionString : Option Cell → Option (Option String)
  | some .null => some none
  | some (.text value) => some (some value)
  | _ => none

section Model

variable (parseHeaders : String → Option Headers)

/-- `none` is a panic. -/
def fromRow (row : Row) : Option HttpReq := do
  let id ← getI64 row.rowidColumn
  let method ← getString row.method
  let url ← getString row.url
  let body ← getOptionString row.body
  let headers ← getString row.headers
  let method ← Method.fromStr method
  some
    { id := toString id
      method
      url
      body
      headers := (parseHeaders headers).getD ∅ }

def Table.view (table : Table) : List (Int × Option HttpReq) :=
  table.rows.map fun row => (row.rowid, fromRow parseHeaders row)

/-- `none` is a call that panics or does not end in so many turns. -/
def fetchN (table : Table) (turns : Nat) (self : SplitRequestFile) (n : Nat) :
    Option (Except String (List HttpReq) × SplitRequestFile) :=
  (self.getN (table.view parseHeaders) turns n).value?

end Model

structure Numbered (parseHeaders : String → Option Headers) (table : Table) : Prop where
  nonempty : 1 ≤ table.size
  rowids : table.Gapless
  converts : ∀ row ∈ table.rows, (fromRow parseHeaders row).isSome

section View

variable {parseHeaders : String → Option Headers} {table : Table}

theorem length_view (parseHeaders : String → Option Headers) (table : Table) :
    (table.view parseHeaders).length = table.size := List.length_map _

theorem sorted_view (parseHeaders : String → Option Headers) (table : Table) :
    (table.view parseHeaders).Pairwise fun a b => a.1 < b.1 := by
  rw [Table.view, List.pairwise_map]
  exact table.sorted

theorem map_fst_view (parseHeaders : String → Option Headers) (table : Table) :
    (table.view parseHeaders).map Prod.fst = table.rows.map Row.rowid := by
  rw [Table.view, List.map_map]
  rfl

theorem Table.Gapless.map_rowid_eq (h : table.Gapless) :
    table.rows.map Row.rowid = (List.range' 1 table.size).map Nat.cast := by
  have hsubset : (List.range' 1 table.size).map Nat.cast ⊆ table.rows.map Row.rowid := by
    intro id hid
    obtain ⟨i, hi, rfl⟩ := List.mem_map.mp hid
    rw [List.mem_range'_1] at hi
    obtain ⟨row, hrow, hrowid⟩ := h i hi.1 (by omega)
    exact List.mem_map.mpr ⟨row, hrow, hrowid⟩
  have hascending : ((List.range' 1 table.size).map (Nat.cast : Nat → Int)).Pairwise (· ≤ ·) := by
    rw [List.pairwise_map]
    exact List.pairwise_le_range'.imp Int.ofNat_le.mpr
  have hnodup : ((List.range' 1 table.size).map (Nat.cast : Nat → Int)).Nodup :=
    (List.nodup_range' : (List.range' 1 table.size).Nodup).map fun _ _ => Int.ofNat.inj
  have hperm := (hnodup.subperm hsubset).perm_of_length_le (by simp [Table.size])
  have hsorted : (table.rows.map Row.rowid).Pairwise (· ≤ ·) := by
    rw [List.pairwise_map]
    exact table.sorted.imp Int.le_of_lt
  exact (hperm.eq_of_pairwise (fun _ _ _ _ => Int.le_antisymm) hascending hsorted).symm

theorem Table.Gapless.rowid_within (h : table.Gapless) {row : Row}
    (hrow : row ∈ table.rows) : ∃ i : Nat, 1 ≤ i ∧ i ≤ table.size ∧ row.rowid = i := by
  have hmem : row.rowid ∈ table.rows.map Row.rowid := List.mem_map_of_mem hrow
  rw [h.map_rowid_eq] at hmem
  obtain ⟨i, hi, hrowid⟩ := List.mem_map.mp hmem
  rw [List.mem_range'_1] at hi
  exact ⟨i, hi.1, by omega, hrowid.symm⟩

theorem row_of_requestOf {i : Nat} {req : HttpReq}
    (h : requestOf (table.view parseHeaders) i = some req) :
    ∃ row ∈ table.rows, row.rowid = i ∧ fromRow parseHeaders row = some req := by
  obtain ⟨before, after, hview, -⟩ := List.lookup_eq_some_iff.mp (Option.join_eq_some_iff.mp h)
  have hmem : ((i : Int), some req) ∈ table.view parseHeaders :=
    hview ▸ List.mem_append_right _ List.mem_cons_self
  obtain ⟨row, hrow, heq⟩ := List.mem_map.mp hmem
  obtain ⟨hrowid, hreq⟩ := Prod.mk.inj heq
  exact ⟨row, hrow, hrowid, hreq⟩

end View

section Calls

variable {parseHeaders : String → Option Headers} {table : Table} {a b j : Nat}
  (h : Numbered parseHeaders table) (ha : 1 ≤ a) (hab : a ≤ b) (hb : b ≤ table.size)

include h ha hab hb

theorem fetchN_spec {file : SplitRequestFile} (hfile : Split.Reads a b j file) {turns n : Nat}
    (hn : 1 ≤ n) (hturns : n ≤ turns) :
    ∃ data file', fetchN parseHeaders table turns file n = some (.ok data, file') ∧
      data.map some = (rounds a b j n).map (requestOf (table.view parseHeaders)) ∧
      Split.Reads a b (j + n) file' := by
  have hconverts : ∀ row ∈ table.view parseHeaders, row.2.isSome := by
    intro row hrow
    obtain ⟨row, hmem, rfl⟩ := List.mem_map.mp hrow
    exact h.converts row hmem
  obtain ⟨data, file', hgetN, hdata, hfile'⟩ := SplitRequestFile.getN_spec
    (sorted_view parseHeaders table) ((map_fst_view ..).trans h.rowids.map_rowid_eq) hconverts
    ha hab hb hfile hn hturns
  exact ⟨data, file', Outcome.value?_eq_some.mpr hgetN, hdata, hfile'⟩

theorem fetchEach_spec {file : SplitRequestFile} (hfile : Split.Reads a b j file) {turns : Nat}
    {ns : List Nat} (hns : ∀ n ∈ ns, 1 ≤ n ∧ n ≤ turns) :
    ∃ batches : List (List HttpReq),
      callEach (fetchN parseHeaders table turns) file ns = some (batches.map .ok) ∧
      batches.map List.length = ns ∧
      batches.flatten.map some =
        (rounds a b j ns.sum).map (requestOf (table.view parseHeaders)) := by
  induction ns generalizing file j with
  | nil => exact ⟨[], rfl, rfl, rfl⟩
  | cons n ns ih =>
    obtain ⟨⟨hn, hturns⟩, hns⟩ := List.forall_mem_cons.mp hns
    obtain ⟨data, file', hfetch, hdata, hfile'⟩ := fetchN_spec h ha hab hb hfile hn hturns
    obtain ⟨batches, hbatches, hlengths, hflatten⟩ := ih hfile' hns
    have hlength : data.length = n := by
      rw [← List.length_map (f := some), hdata, List.length_map, Split.length_rounds]
    refine ⟨data :: batches, ?_, ?_, ?_⟩
    · simp only [callEach, hfetch, hbatches, Option.bind_eq_bind, Option.bind_some,
        List.map_cons]
    · rw [List.map_cons, hlength, hlengths]
    · rw [List.flatten_cons, List.map_append, hdata, hflatten, ← List.map_append,
        Split.rounds_append, List.sum_cons]

theorem fetchEach_received (file : SplitRequestFile) {ns : List Nat} {turns : Nat}
    (hns : ∀ n ∈ ns, 1 ≤ n ∧ n ≤ turns) :
    ∃ batches : List (List HttpReq),
      callEach (fetchN parseHeaders table turns) (file.cloneWithNewRange (a, b)).received ns =
        some (batches.map .ok) ∧
      batches.map List.length = ns ∧
      batches.flatten.map some =
        (rounds a b 0 ns.sum).map (requestOf (table.view parseHeaders)) := by
  let received := (file.cloneWithNewRange (a, b)).received
  have hopen : Split.Reads a b 0 (received.connect table.size) :=
    Split.reads_connect ha (by omega) _ rfl rfl
  obtain ⟨batches, hbatches, hspec⟩ := fetchEach_spec h ha hab hb hopen hns
  refine ⟨batches, ?_, hspec⟩
  rw [← hbatches]
  cases ns with
  | nil => rfl
  | cons n ns =>
    have hrows : 1 ≤ (table.view parseHeaders).length := by
      rw [length_view]
      omega
    have hfirst : received.getN (table.view parseHeaders) turns n =
        (received.connect (table.view parseHeaders).length).getN (table.view parseHeaders) turns
          n :=
      SplitRequestFile.getN_connect rfl hrows
    rw [length_view] at hfirst
    rw [callEach, callEach, fetchN, fetchN, hfirst]

end Calls

/-- The ranges given to `k` secondaries cover the file, and each secondary goes round
its range for ever, in order and without a gap, however many rows it asks for. -/
theorem split_file_coverage {parseHeaders : String → Option Headers} {table : Table} {k : Nat}
    (h : Numbered parseHeaders table) (hk : 1 ≤ k) :
    (∃ ranges, splitRanges table.size k = some ranges ∧ Split.Splits table.size k ranges) ∧
    ∀ (request : SplitRequestFile) (a b : Nat), 1 ≤ a → a ≤ b → b ≤ table.size →
      ∀ (ns : List Nat) (turns : Nat), (∀ n ∈ ns, 1 ≤ n ∧ n ≤ turns) →
        ∃ batches : List (List HttpReq),
          callEach (fetchN parseHeaders table turns) (request.cloneWithNewRange (a, b)).received
            ns = some (batches.map .ok) ∧
          batches.map List.length = ns ∧
          List.Forall₂ (fun (i : Nat) req => ∃ row ∈ table.rows, row.rowid = i ∧
            fromRow parseHeaders row = some req) (rounds a b 0 ns.sum) batches.flatten := by
  refine ⟨Split.splitRanges_splits h.nonempty hk, ?_⟩
  intro request a b ha hab hb ns turns hns
  obtain ⟨batches, hbatches, hlengths, hflatten⟩ := fetchEach_received h ha hab hb request hns
  refine ⟨batches, hbatches, hlengths, ?_⟩
  exact (forall₂_of_map_eq hflatten.symm).imp fun _ _ => row_of_requestOf

def plainRow (rowid : Int) (url : String) : Row :=
  ⟨rowid, some (.integer rowid), some (.text "GET"), some (.text url), some .null,
    some (.text "")⟩

def threeRows : Table where
  rows := [plainRow 1 "/a", plainRow 2 "/b", plainRow 3 "/c"]
  sorted := by decide

theorem numbered_threeRows : Numbered (fun _ => none) threeRows where
  nonempty := by decide
  rowids := by
    intro i hi hle
    have hi' : i = 1 ∨ i = 2 ∨ i = 3 := by
      have hsize : threeRows.size = 3 := rfl
      omega
    rcases hi' with rfl | rfl | rfl
    · exact ⟨plainRow 1 "/a", by simp [threeRows], rfl⟩
    · exact ⟨plainRow 2 "/b", by simp [threeRows], rfl⟩
    · exact ⟨plainRow 3 "/c", by simp [threeRows], rfl⟩
  converts := List.all_iff_forall_prop.mp (by decide)

theorem split_file_coverage_threeRows :
    (∃ ranges, splitRanges 3 2 = some ranges ∧ Split.Splits 3 2 ranges) ∧
    ∃ batches : List (List HttpReq),
      callEach (fetchN (fun _ => none) threeRows 2)
        ((⟨"data.sqlite", true, 3, 1, 3, 2⟩ : SplitRequestFile).cloneWithNewRange (1, 2)).received
        [1, 2, 2] = some (batches.map .ok) ∧
      batches.map List.length = [1, 2, 2] := by
  have h := split_file_coverage (k := 2) numbered_threeRows (by decide)
  obtain ⟨batches, hbatches, hlengths, -⟩ :=
    h.2 ⟨"data.sqlite", true, 3, 1, 3, 2⟩ 1 2 (by decide) (by decide) (by decide) [1, 2, 2] 2
      (by decide)
  exact ⟨h.1, batches, hbatches, hlengths⟩

-- two tables that `valid_sqlite` accepts as well

def gapTable : Table where
  rows := [plainRow 5 "/a"]
  sorted := List.pairwise_singleton _ _

/-- A row that is found by its number, in a table whose integer primary key has a name of its
own. -/
def keyedTable : Table where
  rows := [{ plainRow 1 "/a" with rowidColumn := none }]
  sorted := List.pairwise_singleton _ _

end Overload.Provider
