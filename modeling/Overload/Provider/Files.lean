import Overload.Provider.Rows

namespace Overload.Provider

open Calls
open Request (Headers HttpReq RequestFile)
open Split (SplitRequestFile splitRanges)

/-- `random` chooses the `ROWID`s.  `none` is a call that panics: when asked for nothing,
when there is nothing to choose from, and when a row cannot be converted. -/
def getN (parseHeaders : String → Option Headers) (table : Table) (self : RequestFile)
    (random : Nat → Nat) (n : Nat) :
    Option (Except String (List HttpReq) × RequestFile) :=
  if n = 0 then none
  else
    let self := if self.inner then self else { self with inner := true, size := table.size }
    if self.size = 0 then none
    else
      let randomIds := (List.range n).map fun i => 1 + random i % self.size
      let randomData := table.rows.filter fun row => randomIds.any fun id => (id : Int) == row.rowid
      (randomData.mapM (fromRow parseHeaders)).map fun requests => (.ok requests, self)

def Serves (parseHeaders : String → Option Headers) (table : Table) (n : Nat) :
    Except String (List HttpReq) → Prop
  | .error _ => True
  | .ok requests => requests ≠ [] ∧ requests.length ≤ n ∧
      ∀ req ∈ requests, ∃ row ∈ table.rows, fromRow parseHeaders row = some req

/-- Whatever is drawn, and for whatever range of the primary's, call after call is answered. -/
structure BothServe (parseHeaders : String → Option Headers) (table : Table) : Prop where
  requestFile : ∀ file : RequestFile, file.inner = false →
    ∀ calls : List ((Nat → Nat) × Nat), (∀ call ∈ calls, 1 ≤ call.2) →
      ∃ answers, callEach (fun file call => getN parseHeaders table file call.1 call.2) file calls =
          some answers ∧
        List.Forall₂ (fun call => Serves parseHeaders table call.2) calls answers
  splitRequestFile : ∀ (file : SplitRequestFile) (k : Nat) (ranges : List (Nat × Nat)),
    splitRanges table.size k = some ranges → ∀ range ∈ ranges,
      ∀ ns : List Nat, (∀ n ∈ ns, 1 ≤ n) → ∃ turns answers,
        callEach (fetchN parseHeaders table turns) (file.cloneWithNewRange range).received ns =
            some answers ∧
          List.Forall₂ (Serves parseHeaders table) ns answers

section Numbers

variable {parseHeaders : String → Option Headers} {table : Table} {n : Nat}

def drawn (table : Table) (random : Nat → Nat) (n : Nat) : List Row :=
  table.rows.filter fun row =>
    ((List.range n).map fun i => 1 + random i % table.size).any fun id => (id : Int) == row.rowid

theorem getN_eq (parseHeaders : String → Option Headers) {file : RequestFile}
    (hfile : file.inner = true → file.size = table.size) (random : Nat → Nat) (hn : 1 ≤ n) :
    ∃ file', file'.inner = true ∧ file'.size = table.size ∧
      getN parseHeaders table file random n =
        if table.size = 0 then none
        else ((drawn table random n).mapM (fromRow parseHeaders)).map fun requests =>
          (.ok requests, file') := by
  cases hinner : file.inner with
  | true =>
    refine ⟨file, hinner, hfile hinner, ?_⟩
    simp only [getN, Nat.ne_of_gt hn, hinner, if_true, if_false, hfile hinner, drawn]
  | false =>
    refine ⟨{ file with inner := true, size := table.size }, rfl, rfl, ?_⟩
    simp only [getN, Nat.ne_of_gt hn, hinner, Bool.false_eq_true, if_false, drawn]

theorem mem_drawn {random : Nat → Nat} {row : Row} :
    row ∈ drawn table random n ↔
      row ∈ table.rows ∧ ∃ i < n, row.rowid = (1 + random i % table.size : Nat) := by
  simp only [drawn, List.mem_filter, List.any_map, List.any_eq_true, List.mem_range,
    Function.comp_apply, beq_iff_eq]
  exact and_congr_right fun _ => exists_congr fun i => and_congr_right fun _ => eq_comm

theorem drawn_ne_nil (h : Numbered parseHeaders table) (random : Nat → Nat) (hn : 1 ≤ n) :
    drawn table random n ≠ [] := by
  have hlt : random 0 % table.size < table.size := Nat.mod_lt _ h.nonempty
  obtain ⟨row, hrow, hrowid⟩ := h.rowids (1 + random 0 % table.size) (by omega) (by omega)
  exact List.ne_nil_of_mem (mem_drawn.mpr ⟨hrow, 0, hn, hrowid⟩)

theorem length_drawn_le (random : Nat → Nat) : (drawn table random n).length ≤ n := by
  have hnodup : ((drawn table random n).map Row.rowid).Nodup := by
    rw [List.nodup_iff_pairwise_ne, List.pairwise_map]
    exact (table.sorted.filter _).imp Int.ne_of_lt
  have hsubset : (drawn table random n).map Row.rowid ⊆
      (List.range n).map fun i => ((1 + random i % table.size : Nat) : Int) := by
    intro id hid
    obtain ⟨row, hrow, rfl⟩ := List.mem_map.mp hid
    obtain ⟨_, i, hi, hrowid⟩ := mem_drawn.mp hrow
    exact List.mem_map.mpr ⟨i, List.mem_range.mpr hi, hrowid.symm⟩
  have hle := (hnodup.subperm hsubset).length_le
  simpa using hle

theorem getN_serves (h : Numbered parseHeaders table) {file : RequestFile}
    (hfile : file.inner = true → file.size = table.size) (random : Nat → Nat) (hn : 1 ≤ n) :
    ∃ answer file', getN parseHeaders table file random n = some (answer, file') ∧
      Serves parseHeaders table n answer ∧ (file'.inner = true → file'.size = table.size) := by
  obtain ⟨file', _, hsize, hget⟩ := getN_eq parseHeaders hfile random hn
  obtain ⟨requests, hrequests, hlength, hmem⟩ := mapM_of_forall fun row hrow =>
    h.converts row (mem_drawn.mp hrow).1
  rw [hrequests, Option.map_some, if_neg (Nat.ne_of_gt h.nonempty)] at hget
  refine ⟨_, file', hget, ⟨?_, ?_, ?_⟩, fun _ => hsize⟩
  · intro hnil
    rw [hnil, List.length_nil, eq_comm, List.length_eq_zero_iff] at hlength
    exact drawn_ne_nil h random hn hlength
  · exact hlength ▸ length_drawn_le random
  · intro req hreq
    obtain ⟨row, hrow, hreq⟩ := hmem req hreq
    exact ⟨row, (mem_drawn.mp hrow).1, hreq⟩

theorem fetchEach_serves (h : Numbered parseHeaders table) {a b : Nat} (ha : 1 ≤ a) (hab : a ≤ b)
    (hb : b ≤ table.size) (file : SplitRequestFile) {ns : List Nat} {turns : Nat}
    (hns : ∀ n ∈ ns, 1 ≤ n ∧ n ≤ turns) :
    ∃ answers, callEach (fetchN parseHeaders table turns)
        (file.cloneWithNewRange (a, b)).received ns = some answers ∧
      List.Forall₂ (Serves parseHeaders table) ns answers := by
  obtain ⟨batches, hbatches, hlengths, hflatten⟩ := fetchEach_received h ha hab hb file hns
  refine ⟨_, hbatches, ?_⟩
  rw [← hlengths, List.forall₂_map_left_iff, List.forall₂_map_right_iff, List.forall₂_same]
  intro batch hbatch
  refine ⟨?_, Nat.le_refl _, ?_⟩
  · have hlength := (hns batch.length (hlengths ▸ List.mem_map_of_mem hbatch)).1
    rwa [← List.length_pos_iff]
  · intro req hreq
    have hmem : some req ∈ batches.flatten.map some :=
      List.mem_map_of_mem (List.mem_flatten.mpr ⟨batch, hbatch, hreq⟩)
    rw [hflatten] at hmem
    obtain ⟨i, -, hi⟩ := List.mem_map.mp hmem
    obtain ⟨row, hrow, -, hfrom⟩ := row_of_requestOf hi
    exact ⟨row, hrow, hfrom⟩

theorem bothServe_of_numbered (h : Numbered parseHeaders table) :
    BothServe parseHeaders table where
  requestFile := by
    intro file hinner calls hcalls
    refine callEach_forall₂ (I := fun file => file.inner = true → file.size = table.size)
      (fun file call hfile hn => getN_serves h hfile call.1 hn) ?_ hcalls
    rw [hinner]
    exact fun hopen => absurd hopen Bool.false_ne_true
  splitRequestFile := by
    intro file k ranges hranges range hrange ns hns
    have hk : 0 < k := by
      rw [Nat.pos_iff_ne_zero]
      rintro rfl
      cases hranges
    obtain ⟨ranges', hranges', hsplits⟩ := Split.splitRanges_splits h.nonempty hk
    cases hranges.symm.trans hranges'
    obtain ⟨ha, hab, hb⟩ := hsplits.inside range hrange
    exact ⟨ns.sum, fetchEach_serves h ha hab hb file
      fun n hn => ⟨hns n hn, List.le_sum_of_mem hn⟩⟩

theorem numbered_of_bothServe (h : BothServe parseHeaders table) :
    Numbered parseHeaders table := by
  have hcall (random : Nat → Nat) : ∃ answer file',
      getN parseHeaders table ⟨"", false, 0⟩ random 1 = some (answer, file') ∧
        Serves parseHeaders table 1 answer :=
    callEach_singleton (k := (random, 1)) (h.requestFile _ rfl [(random, 1)] (by simp))
  -- each draw finds rows, and all that it finds are converted
  have hdrawn (random : Nat → Nat) : table.size ≠ 0 ∧ drawn table random 1 ≠ [] ∧
      ∀ row ∈ drawn table random 1, (fromRow parseHeaders row).isSome := by
    obtain ⟨answer, file, hget, hserves⟩ := hcall random
    have hclosed : (⟨"", false, 0⟩ : RequestFile).inner = true → 0 = table.size :=
      fun h => absurd h Bool.false_ne_true
    obtain ⟨file', _, _, hget'⟩ := getN_eq parseHeaders hclosed random (Nat.le_refl 1)
    rw [hget] at hget'
    split at hget'
    · cases hget'
    · rename_i hsize
      obtain ⟨requests, hrequests, heq⟩ := Option.map_eq_some_iff.mp hget'.symm
      cases heq
      refine ⟨hsize, ?_, fun row hrow => isSome_of_mapM hrequests hrow⟩
      intro hnil
      rw [hnil] at hrequests
      cases hrequests
      exact hserves.1 rfl
  have hrowids : table.Gapless := by
    intro i hi hle
    obtain ⟨row, hrow⟩ := List.exists_mem_of_ne_nil _ (hdrawn fun _ => i - 1).2.1
    obtain ⟨hmem, _, _, hrowid⟩ := mem_drawn.mp hrow
    rw [Nat.mod_eq_of_lt (by omega)] at hrowid
    exact ⟨row, hmem, by omega⟩
  refine ⟨Nat.pos_of_ne_zero (hdrawn fun _ => 0).1, hrowids, fun row hrow => ?_⟩
  obtain ⟨i, hi, hle, hrowid⟩ := hrowids.rowid_within hrow
  refine (hdrawn fun _ => i - 1).2.2 row (mem_drawn.mpr ⟨hrow, 0, Nat.one_pos, ?_⟩)
  rw [Nat.mod_eq_of_lt (by omega)]
  omega

theorem fetchN_gapTable (file : SplitRequestFile) (turns : Nat) :
    fetchN parseHeaders gapTable turns (file.cloneWithNewRange (1, 1)).received 1 = none := by
  have hempty : ∀ row ∈ gapTable.view parseHeaders,
      row.1 < ((1 : Nat) : Int) ∨ ((1 : Nat) : Int) < row.1 := by
    intro row hrow
    obtain rfl := List.mem_singleton.mp hrow
    exact .inr (by decide : (1 : Int) < 5)
  have hloop := Split.Reading.Barren.loop_eq_endless (Nat.le_refl 1) hempty
    (r := ⟨(file.cloneWithNewRange (1, 1)).received.connect 1, 1, []⟩)
    ⟨rfl, rfl, Nat.le_refl 1, rfl⟩ turns
  have hget : (file.cloneWithNewRange (1, 1)).received.getN (gapTable.view parseHeaders) turns 1 =
      (Split.Reading.loop (gapTable.view parseHeaders) 1 turns
        ⟨(file.cloneWithNewRange (1, 1)).received.connect 1, 1, []⟩).map
          fun r => (.ok r.requestData, r.file) := rfl
  rw [fetchN, hget, hloop]
  rfl

theorem gapTable_unserved :
    (∀ random, ∃ file, getN (fun _ => none) gapTable ⟨"/data/gap.sqlite", false, 0⟩ random 1 =
      some (.ok [], file)) ∧
    splitRanges gapTable.size 1 = some [(1, 1)] ∧
    (∀ file turns, fetchN (fun _ => none) gapTable turns
      (SplitRequestFile.cloneWithNewRange file (1, 1)).received 1 = none) ∧
    (∀ random, getN (fun _ => none) keyedTable ⟨"/data/keyed.sqlite", false, 0⟩ random 1 = none) ∧
    SplitRequestFile.getN (keyedTable.view fun _ => none) 1 ⟨"", false, 0, 1, 1, 1⟩ 1 =
      .panicked := by
  refine ⟨fun random => ?_, rfl, fetchN_gapTable, ?_, rfl⟩
  · exact ⟨⟨"/data/gap.sqlite", true, 1⟩,
      by simp [getN, gapTable, plainRow, Table.size, Nat.mod_one]⟩
  · intro random
    simp [getN, keyedTable, plainRow, Table.size, Nat.mod_one, fromRow, getI64]

/-- Both providers go on answering for the tables that they were made for, and for no
other. -/
theorem bothServe_iff (parseHeaders : String → Option Headers) (table : Table) :
    BothServe parseHeaders table ↔ Numbered parseHeaders table :=
  ⟨numbered_of_bothServe, bothServe_of_numbered⟩

end Numbers

end Overload.Provider
