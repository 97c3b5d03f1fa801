import Overload.Provider.Files

namespace Overload.Provider

open Calls
open Request (Headers HttpReq Method)
open Split (SplitRequestFile requestOf rounds splitRanges)

structure HttpReqCsvHelper where
  method : String
  url : String
  body : Option String
  headers : String
  deriving DecidableEq, Repr

/-- What other crates say of texts: whether one is a URI, and the map that a JSON text is,
with the text that is written for a map that has been read. -/
structure Texts where
  isUri : String → Bool
  parseHeaders : String → Option Headers
  writeHeaders : Headers → String
  parse_write : ∀ text headers, parseHeaders text = some headers →
    parseHeaders (writeHeaders headers) = some headers

variable (x : Texts)

def HttpReqCsvHelper.tryInto (csv : HttpReqCsvHelper) : Option HttpReq :=
  if x.isUri csv.url then do
    let method ← Method.fromStr csv.method
    let headers ← x.parseHeaders csv.headers
    some { id := "", method, url := csv.url, body := csv.body, headers }
  else none

def Table.nextRowid (table : Table) : Int := ((table.rows.getLast?).map (·.rowid + 1)).getD 1

def newRow (rowid : Int) (req : HttpReq) : Row where
  rowid := rowid
  rowidColumn := some (.integer rowid)
  url := some (.text req.url)
  method := some (.text req.method.text)
  body := some (match req.body with
    | some body => .text body
    | none => .null)
  headers := some (.text (x.writeHeaders req.headers))

theorem Table.rowid_lt_nextRowid (table : Table) {row : Row} (hrow : row ∈ table.rows) :
    row.rowid < table.nextRowid := by
  obtain ⟨rows, sorted⟩ := table
  cases rows using List.reverseRecOn with
  | nil => exact absurd hrow List.not_mem_nil
  | append_singleton rows last =>
    simp only [Table.nextRowid, List.getLast?_concat, Option.map_some, Option.getD_some]
    rcases List.mem_append.mp hrow with hrow | hrow
    · have hlt := (List.pairwise_append.mp sorted).2.2 row hrow last (by simp)
      omega
    · rw [List.mem_singleton.mp hrow]
      omega

def Table.insert (table : Table) (req : HttpReq) : Table where
  rows := table.rows ++ [newRow x table.nextRowid req]
  sorted := List.pairwise_append.mpr ⟨table.sorted, List.pairwise_singleton _ _, by
    intro row hrow new hnew
    rw [List.mem_singleton.mp hnew]
    exact table.rowid_lt_nextRowid hrow⟩

/-- The rows that are in the table stay there when an insert fails.  `inserts` is what becomes
of the first insert, the second and so on. -/
def readRecords (inserts : Nat → Except String Unit) (table : Table) (success : Nat) :
    List (Except String HttpReqCsvHelper) → Except String Nat × Table
  | [] => (.ok success, table)
  | .error _ :: records => readRecords inserts table success records
  | .ok csv :: records =>
    match csv.tryInto x with
    | none => readRecords inserts table success records
    | some req =>
      match inserts (success + 1) with
      | .error e => (.error e, table)
      | .ok _ => readRecords inserts (table.insert x req) (success + 1) records

def emptyTable : Table := ⟨[], List.Pairwise.nil⟩

/-- `opened` is what becomes of the connection and of `CREATE TABLE`. -/
def csvReaderToSqlite (opened : Except String Unit) (inserts : Nat → Except String Unit)
    (records : List (Except String HttpReqCsvHelper)) : Except String Nat × Table :=
  match opened with
  | .error e => (.error e, emptyTable)
  | .ok _ => readRecords x inserts emptyTable 0 records

def uploaded (records : List (Except String HttpReqCsvHelper)) : List HttpReq :=
  records.filterMap fun record => record.toOption.bind (·.tryInto x)

def stored (reqs : List HttpReq) : List HttpReq :=
  reqs.zipIdx.map fun (req, i) => { req with id := toString (i + 1) }

def storedAt (reqs : List HttpReq) (rowids : List Nat) : List HttpReq :=
  rowids.filterMap fun i => (stored reqs)[i - 1]?

theorem storedAt_append (reqs : List HttpReq) (rowids rowids' : List Nat) :
    storedAt reqs (rowids ++ rowids') = storedAt reqs rowids ++ storedAt reqs rowids' :=
  List.filterMap_append

variable {x}

def Legible (x : Texts) (req : HttpReq) : Prop :=
  x.parseHeaders (x.writeHeaders req.headers) = some req.headers

theorem legible_of_tryInto {csv : HttpReqCsvHelper} {req : HttpReq}
    (h : csv.tryInto x = some req) : Legible x req := by
  unfold HttpReqCsvHelper.tryInto at h
  split at h
  · obtain ⟨method, _, h⟩ := Option.bind_eq_some_iff.mp h
    obtain ⟨headers, hheaders, h⟩ := Option.bind_eq_some_iff.mp h
    cases h
    exact x.parse_write _ headers hheaders
  · cases h

theorem fromRow_newRow (i : Nat) {req : HttpReq} (hreq : Legible x req) :
    fromRow x.parseHeaders (newRow x i req) = some { req with id := toString i } := by
  obtain ⟨id, method, url, body, headers⟩ := req
  rw [Legible] at hreq
  have hmethod : Method.fromStr method.text = some method := dif_pos method.valid
  have hid : toString (i : Int) = toString i := rfl
  cases body <;>
    simp only [fromRow, newRow, getI64, getString, getOptionString, hmethod, hreq, hid,
      Option.bind_eq_bind, Option.bind_some, Option.getD_some]

structure Holds (x : Texts) (reqs : List HttpReq) (table : Table) : Prop where
  rows : table.rows = reqs.zipIdx.map fun (req, i) => newRow x ((i + 1 : Nat) : Int) req
  legible : ∀ req ∈ reqs, Legible x req

theorem holds_emptyTable : Holds x [] emptyTable := ⟨rfl, List.forall_mem_nil _⟩

theorem Holds.nextRowid {reqs : List HttpReq} {table : Table} (h : Holds x reqs table) :
    table.nextRowid = ((reqs.length + 1 : Nat) : Int) := by
  rw [Table.nextRowid, h.rows]
  cases reqs using List.reverseRecOn with
  | nil => rfl
  | append_singleton reqs req => simp [List.zipIdx_append, newRow]

theorem Holds.insert {reqs : List HttpReq} {table : Table} (h : Holds x reqs table)
    {req : HttpReq} (hreq : Legible x req) : Holds x (reqs ++ [req]) (table.insert x req) where
  rows := by
    have hrows : (table.insert x req).rows = table.rows ++ [newRow x table.nextRowid req] := rfl
    rw [hrows, h.nextRowid, h.rows, List.zipIdx_append, List.map_append]
    simp
  legible := List.forall_mem_append.mpr ⟨h.legible, List.forall_mem_singleton.mpr hreq⟩

theorem readRecords_ok {inserts : Nat → Except String Unit}
    {records : List (Except String HttpReqCsvHelper)} {reqs : List HttpReq} {table table' : Table}
    {n : Nat} (htable : Holds x reqs table)
    (h : readRecords x inserts table reqs.length records = (.ok n, table')) :
    n = (reqs ++ uploaded x records).length ∧ Holds x (reqs ++ uploaded x records) table' := by
  induction records generalizing reqs table with
  | nil =>
    cases h
    rw [uploaded, List.filterMap_nil, List.append_nil]
    exact ⟨rfl, htable⟩
  | cons record records ih =>
    cases record with
    | error e => exact ih htable h
    | ok csv =>
      simp only [readRecords] at h
      have hrecord : uploaded x (.ok csv :: records) =
          (csv.tryInto x).toList ++ uploaded x records := by
        cases hcsv : csv.tryInto x <;> simp [uploaded, Except.toOption, hcsv]
      rw [hrecord]
      split at h
      · rename_i hnone
        rw [hnone]
        exact ih htable h
      · rename_i req hsome
        split at h
        · cases h
        · rw [hsome, Option.toList_some, ← List.append_assoc]
          refine ih (htable.insert (legible_of_tryInto hsome)) ?_
          rwa [List.length_append, List.length_singleton]

theorem csvReaderToSqlite_ok {opened : Except String Unit} {inserts : Nat → Except String Unit}
    {records : List (Except String HttpReqCsvHelper)} {n : Nat} {table : Table}
    (h : csvReaderToSqlite x opened inserts records = (.ok n, table)) :
    opened = .ok () ∧ n = (uploaded x records).length ∧ Holds x (uploaded x records) table := by
  unfold csvReaderToSqlite at h
  split at h
  · cases h
  · exact ⟨rfl, readRecords_ok holds_emptyTable h⟩

section Read

variable {reqs : List HttpReq} {table : Table} (h : Holds x reqs table)

include h

theorem Holds.size : table.size = reqs.length := by
  rw [Table.size, h.rows, List.length_map, List.length_zipIdx]

theorem Holds.row {i : Nat} (hi : 1 ≤ i) (hle : i ≤ reqs.length) :
    ∃ req, newRow x i req ∈ table.rows ∧ Legible x req ∧
      (stored reqs)[i - 1]? = some { req with id := toString i } := by
  obtain ⟨i, rfl⟩ := Nat.exists_eq_add_of_le' hi
  obtain ⟨req, hreq⟩ : ∃ req, reqs[i]? = some req := ⟨_, List.getElem?_eq_getElem hle⟩
  refine ⟨req, ?_, h.legible req (List.mem_of_getElem? hreq), ?_⟩
  · rw [h.rows]
    exact List.mem_map.mpr ⟨(req, i), List.mk_mem_zipIdx_iff_getElem?.mpr hreq, rfl⟩
  · rw [stored, List.getElem?_map, Nat.add_sub_cancel, List.getElem?_zipIdx, hreq]
    simp

theorem Holds.requestOf_view {i : Nat} (hi : 1 ≤ i) (hle : i ≤ reqs.length) :
    requestOf (table.view x.parseHeaders) i = (stored reqs)[i - 1]? := by
  obtain ⟨req, hrow, hlegible, hstored⟩ := h.row hi hle
  have hview : ((i : Int), fromRow x.parseHeaders (newRow x i req)) ∈ table.view x.parseHeaders :=
    List.mem_map.mpr ⟨newRow x i req, hrow, rfl⟩
  rw [requestOf, Split.lookup_of_mem (sorted_view x.parseHeaders table) hview, hstored,
    Option.join_some, fromRow_newRow i hlegible]

theorem Holds.numbered (hreqs : 1 ≤ reqs.length) : Numbered x.parseHeaders table where
  nonempty := by rwa [h.size]
  rowids := by
    intro i hi hle
    obtain ⟨req, hrow, -, -⟩ := h.row hi (h.size ▸ hle)
    exact ⟨_, hrow, rfl⟩
  converts := by
    intro row hrow
    rw [h.rows] at hrow
    obtain ⟨⟨req, i⟩, hmem, rfl⟩ := List.mem_map.mp hrow
    have hreq := List.mem_of_getElem? (List.mk_mem_zipIdx_iff_getElem?.mp hmem)
    rw [fromRow_newRow (i + 1) (h.legible req hreq)]
    rfl

theorem Holds.oneRound (file : SplitRequestFile) {range : Nat × Nat} (ha : 1 ≤ range.1)
    (hab : range.1 ≤ range.2) (hb : range.2 ≤ reqs.length) {ns : List Nat} {turns : Nat}
    (hns : ∀ n ∈ ns, 1 ≤ n ∧ n ≤ turns) (hsum : ns.sum = range.2 + 1 - range.1) :
    ∃ batches : List (List HttpReq),
      callEach (fetchN x.parseHeaders table turns)
        (file.cloneWithNewRange range).received ns = some (batches.map .ok) ∧
      batches.flatten = storedAt reqs (List.range' range.1 (range.2 + 1 - range.1)) := by
  obtain ⟨batches, hbatches, -, hflatten⟩ := fetchEach_received (h.numbered (by omega)) ha hab
    (h.size.symm ▸ hb) file hns
  have hround : rounds range.1 range.2 0 ns.sum =
      List.range' range.1 (range.2 + 1 - range.1) := by
    rw [hsum, Split.rounds_stretch (by simp)]
    simp
  have hstored : (rounds range.1 range.2 0 ns.sum).map (requestOf (table.view x.parseHeaders)) =
      (List.range' range.1 (range.2 + 1 - range.1)).map fun i => (stored reqs)[i - 1]? := by
    rw [hround]
    refine List.map_congr_left fun i hi => ?_
    rw [List.mem_range'_1] at hi
    exact h.requestOf_view (by omega) (by omega)
  refine ⟨batches, hbatches, ?_⟩
  have hfilter := congrArg (List.filterMap id) (hflatten.trans hstored)
  rw [List.filterMap_map, List.filterMap_map, Function.id_comp, Function.id_comp,
    List.filterMap_some] at hfilter
  exact hfilter

end Read

theorem storedAt_all (reqs : List HttpReq) :
    storedAt reqs (List.range' 1 reqs.length) = stored reqs := by
  have hlength : (stored reqs).length = reqs.length := by simp [stored]
  rw [storedAt, ← hlength]
  generalize stored reqs = l
  induction l using List.reverseRecOn with
  | nil => rfl
  | append_singleton l req ih =>
    have hbefore : (List.range' 1 l.length).filterMap (fun i => (l ++ [req])[i - 1]?) =
        (List.range' 1 l.length).filterMap fun i => l[i - 1]? := by
      refine List.filterMap_congr fun i hi => ?_
      rw [List.mem_range'_1] at hi
      rw [List.getElem?_append_left (by omega)]
    rw [List.length_append, List.length_singleton, List.range'_concat, List.filterMap_append,
      hbefore, ih]
    simp

theorem blocks_flatMap {s k : Nat} (hk : 0 < k) (hks : k ≤ s) {i : Nat} (hi : i ≤ k) :
    (((List.range i).map (Split.block s k)).flatMap fun range =>
      List.range' range.1 (range.2 + 1 - range.1)) = List.range' 1 (Share.offset s k i) := by
  induction i with
  | zero => simp
  | succ i ih =>
    have hpos : 0 < Share.share s k i := Share.share_of_le hk hks
    rw [List.range_succ, List.map_append, List.flatMap_append, ih (by omega), List.map_singleton,
      List.flatMap_singleton, Split.block_of_le hk hks (by omega), Share.offset_succ,
      show Share.offset s k i + Share.share s k i + 1 - (Share.offset s k i + 1) =
        Share.share s k i by omega, Nat.add_comm (Share.offset s k i) 1, List.range'_append_1]

def replay (x : Texts) (table : Table) (turns : Nat) (file : SplitRequestFile)
    (part : (Nat × Nat) × List Nat) : Option (List (Except String (List HttpReq))) :=
  callEach (fetchN x.parseHeaders table turns) (file.cloneWithNewRange part.1).received part.2

def OneRound (range : Nat × Nat) (ns : List Nat) : Prop :=
  (∀ n ∈ ns, 1 ≤ n) ∧ ns.sum = range.2 + 1 - range.1

theorem Holds.allRounds {reqs : List HttpReq} {table : Table} (h : Holds x reqs table)
    (file : SplitRequestFile) {ranges : List (Nat × Nat)} {asks : List (List Nat)}
    (hranges : ∀ range ∈ ranges, 1 ≤ range.1 ∧ range.1 ≤ range.2 ∧ range.2 ≤ reqs.length)
    (hasks : List.Forall₂ OneRound ranges asks) :
    ∃ batches : List (List (List HttpReq)),
      (ranges.zip asks).mapM (replay x table reqs.length file) =
        some (batches.map (List.map .ok)) ∧
      batches.flatten.flatten = storedAt reqs
        (ranges.flatMap fun range => List.range' range.1 (range.2 + 1 - range.1)) := by
  induction hasks with
  | nil => exact ⟨[], rfl, rfl⟩
  | @cons range ns ranges asks hround _ ih =>
    obtain ⟨⟨ha, hab, hb⟩, hranges⟩ := List.forall_mem_cons.mp hranges
    obtain ⟨hns, hsum⟩ := hround
    have hturns : ∀ n ∈ ns, 1 ≤ n ∧ n ≤ reqs.length := by
      intro n hn
      have hle := List.le_sum_of_mem hn
      exact ⟨hns n hn, by omega⟩
    obtain ⟨batch, hbatch, hflatten⟩ := h.oneRound file ha hab hb hturns hsum
    obtain ⟨batches, hbatches, hrest⟩ := ih hranges
    refine ⟨batch :: batches, ?_, ?_⟩
    · rw [List.zip_cons_cons, List.mapM_cons, replay, hbatch, hbatches]
      rfl
    · rw [List.flatten_cons, List.flatten_append, hflatten, hrest, List.flatMap_cons,
        storedAt_append]

/-- A file whose upload is answered with a count of rows, not fewer than there are secondaries:
the count is that of the valid records, and one round of all secondaries through their ranges,
in calls of any size, sends each of their requests once, in the order of the file. -/
theorem uploaded_is_replayed (x : Texts) (opened : Except String Unit)
    (inserts : Nat → Except String Unit) (records : List (Except String HttpReqCsvHelper))
    (n : Nat) (table : Table)
    (hupload : csvReaderToSqlite x opened inserts records = (.ok n, table))
    (k : Nat) (hk : 1 ≤ k) (hkn : k ≤ n) (file : SplitRequestFile) :
    n = (uploaded x records).length ∧
    ∃ ranges, splitRanges n k = some ranges ∧
      ∀ asks, List.Forall₂ OneRound ranges asks →
        ∃ batches : List (List (List HttpReq)),
          (ranges.zip asks).mapM (replay x table n file) = some (batches.map (List.map .ok)) ∧
          batches.flatten.flatten = stored (uploaded x records) := by
  obtain ⟨-, hn, hholds⟩ := csvReaderToSqlite_ok hupload
  refine ⟨hn, _, Split.splitRanges_eq hk, ?_⟩
  intro asks hasks
  have hinside : ∀ range ∈ (List.range k).map (Split.block n k),
      1 ≤ range.1 ∧ range.1 ≤ range.2 ∧ range.2 ≤ n := by
    intro range hrange
    obtain ⟨i, hi, rfl⟩ := List.mem_map.mp hrange
    exact Split.block_inside (by omega) hk (List.mem_range.mp hi)
  have hrows := blocks_flatMap hk hkn (Nat.le_refl k)
  rw [Share.offset_self hk] at hrows
  subst hn
  obtain ⟨batches, hbatches, hflatten⟩ := hholds.allRounds file hinside hasks
  exact ⟨batches, hbatches, by rw [hflatten, hrows, storedAt_all]⟩

theorem plain_parse_write (text : String) (headers : Headers)
    (h : (if text = "\x7b\x7d" then some ∅ else none) = some headers) :
    (if "\x7b\x7d" = "\x7b\x7d" then some ∅ else none) = some headers := by
  split at h
  · exact h
  · cases h

def plain : Texts where
  isUri := fun url => !url.isEmpty
  parseHeaders := fun text => if text = "\x7b\x7d" then some ∅ else none
  writeHeaders := fun _ => "\x7b\x7d"
  parse_write := plain_parse_write

def fiveLines : List (Except String HttpReqCsvHelper) :=
  [.ok ⟨"GET", "/a", none, "\x7b\x7d"⟩, .error "unequal lengths",
    .ok ⟨"POST", "/b", some "b", "\x7b\x7d"⟩, .ok ⟨"G T", "/c", none, "\x7b\x7d"⟩,
    .ok ⟨"GET", "/d", none, "\x7b\x7d"⟩]

theorem uploaded_is_replayed_fiveLines :
    (csvReaderToSqlite plain (.ok ()) (fun _ => .ok ()) fiveLines).1.toOption = some 3 ∧
    ∀ file : SplitRequestFile, ∃ batches : List (List (List HttpReq)),
      [((1, 2), [1, 1]), ((3, 3), [1])].mapM
        (replay plain (csvReaderToSqlite plain (.ok ()) (fun _ => .ok ()) fiveLines).2 3 file) =
        some (batches.map (List.map .ok)) ∧
      batches.flatten.flatten = stored (uploaded plain fiveLines) := by
  refine ⟨rfl, fun file => ?_⟩
  obtain ⟨_, ranges, hranges, hreplay⟩ := uploaded_is_replayed plain (.ok ()) (fun _ => .ok ())
    fiveLines 3 _ rfl 2 (by decide) (by decide) file
  obtain rfl : [(1, 2), (3, 3)] = ranges := Option.some.inj hranges
  exact hreplay [[1, 1], [1]] (.cons (by simp [OneRound]) (.cons (by simp [OneRound]) .nil))

end Overload.Provider
