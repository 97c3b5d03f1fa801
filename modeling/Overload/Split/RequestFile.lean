import Overload.Calls
import Overload.Split.Ranges

namespace Overload.Split

open Calls (Outcome)

/-- `inner` tells whether the sqlite connection is open. -/
structure SplitRequestFile where
  fileName : String
  inner : Bool
  size : Nat
  rangeStartInclusive : Nat
  rangeEndInclusive : Nat
  nextReadCursor : Nat
  deriving DecidableEq, Repr

def defaultUsizeMax : Nat := 2147483647

namespace SplitRequestFile

variable (self : SplitRequestFile)

def cloneWithNewRange (range : Nat × Nat) : SplitRequestFile where
  fileName := self.fileName
  inner := false
  size := self.size
  rangeStartInclusive := range.1
  rangeEndInclusive := range.2
  nextReadCursor := range.1

def clone : SplitRequestFile := { self with inner := false }

def sizeHint : Nat := self.size

/-- What arrives at a secondary: serde skips the connection and the size. -/
def received : SplitRequestFile := { self with inner := false, size := defaultUsizeMax }

def connect (size : Nat) : SplitRequestFile :=
  let rangeStartInclusive :=
    if self.rangeStartInclusive = 0 then 1 else self.rangeStartInclusive
  { self with
    inner := true
    size
    rangeStartInclusive
    nextReadCursor := rangeStartInclusive
    rangeEndInclusive := if self.rangeEndInclusive = 0 then size else self.rangeEndInclusive }

end SplitRequestFile

variable {Req : Type}

def select (table : List (Int × Option Req)) (start stop : Nat) : List (Int × Option Req) :=
  table.filter fun row => (start : Int) ≤ row.1 ∧ row.1 < stop

structure Reading (Req : Type) where
  file : SplitRequestFile
  dataNeed : Nat
  requestData : List Req

namespace Reading

def advance (r : Reading Req) (stop : Nat) (data : List Req) : Reading Req where
  file := { r.file with
    nextReadCursor :=
      if stop > r.file.rangeEndInclusive then r.file.rangeStartInclusive else stop }
  dataNeed := r.dataNeed - data.length
  requestData := r.requestData ++ data

/-- `none` is a row that cannot be converted. -/
def turn (table : List (Int × Option Req)) (r : Reading Req) : Option (Reading Req) :=
  let start := r.file.nextReadCursor
  let stop := min (r.file.rangeEndInclusive + 1) (r.file.nextReadCursor + r.dataNeed)
  ((select table start stop).mapM Prod.snd).map (r.advance stop)

def loop (table : List (Int × Option Req)) (n : Nat) : Nat → Reading Req → Outcome (Reading Req)
  | 0, r => if r.requestData.length ≥ n then .returned r else .endless
  | turns + 1, r =>
    if r.requestData.length ≥ n then .returned r
    else
      match r.turn table with
      | none => .panicked
      | some r => loop table n turns r

end Reading

namespace SplitRequestFile

/-- It panics when asked for nothing, and turns for ever in a range without rows. -/
def getN (table : List (Int × Option Req)) (turns : Nat) (self : SplitRequestFile) (n : Nat) :
    Outcome (Except String (List Req) × SplitRequestFile) :=
  if n = 0 then .panicked
  else if self.inner = false ∧ table.length < 1 then
    .returned (.error "Empty request file", { self with size := table.length })
  else
    let self := if self.inner then self else self.connect table.length
    (Reading.loop table n turns ⟨self, n, []⟩).map fun r => (.ok r.requestData, r.file)

end SplitRequestFile

def rounds (a b j n : Nat) : List Nat := (List.range' j n).map fun i => a + i % (b + 1 - a)

variable {a b j s : Nat} {table : List (Int × Option Req)}

@[simp] theorem length_rounds (n : Nat) : (rounds a b j n).length = n := by simp [rounds]

theorem rounds_append (m n : Nat) :
    rounds a b j m ++ rounds a b (j + m) n = rounds a b j (m + n) := by
  rw [rounds, rounds, rounds, ← List.map_append]
  congr 1
  simp

theorem rounds_stretch {n : Nat} (hn : j % (b + 1 - a) + n ≤ b + 1 - a) :
    rounds a b j n = List.range' (a + j % (b + 1 - a)) n := by
  apply List.ext_getElem
  · simp
  · intro i hi _
    rw [length_rounds] at hi
    have hlt : j % (b + 1 - a) + i < b + 1 - a := by omega
    have hmod : (j + i) % (b + 1 - a) = j % (b + 1 - a) + i := by
      rw [Nat.add_mod, Nat.mod_eq_of_lt (a := i) (by omega), Nat.mod_eq_of_lt hlt]
    simp only [rounds, List.getElem_map, List.getElem_range', Nat.one_mul, hmod]
    omega

theorem filter_range'_eq_nil {lo n start stop : Nat} (h : lo + n ≤ start ∨ stop ≤ lo) :
    (List.range' lo n).filter (fun x => decide (start ≤ x ∧ x < stop)) = [] := by
  rw [List.filter_eq_nil_iff]
  intro x hx
  simp only [List.mem_range'_1] at hx
  simp only [decide_eq_true_eq]
  omega

theorem filter_range' {start stop : Nat} (hstart : 1 ≤ start) (hle : start ≤ stop)
    (hstop : stop ≤ s + 1) :
    (List.range' 1 s).filter (fun x => decide (start ≤ x ∧ x < stop)) =
      List.range' start (stop - start) := by
  -- the rows before, between and after
  have hsplit : List.range' 1 s = List.range' 1 (start - 1) ++
      (List.range' start (stop - start) ++ List.range' stop (s + 1 - stop)) := by
    have hafter := List.range'_append_1 (s := start) (m := stop - start) (n := s + 1 - stop)
    have hall := List.range'_append_1 (s := 1) (m := start - 1) (n := s + 1 - start)
    rw [Nat.add_sub_cancel' hle, show stop - start + (s + 1 - stop) = s + 1 - start by omega]
      at hafter
    rw [Nat.add_sub_cancel' hstart, show start - 1 + (s + 1 - start) = s by omega] at hall
    rw [hafter, hall]
  rw [hsplit, List.filter_append, List.filter_append]
  have hbetween : (List.range' start (stop - start)).filter
      (fun x => decide (start ≤ x ∧ x < stop)) = List.range' start (stop - start) := by
    rw [List.filter_eq_self]
    intro x hx
    simp only [List.mem_range'_1] at hx
    simp only [decide_eq_true_eq]
    omega
  rw [filter_range'_eq_nil (.inl (by omega)), hbetween, filter_range'_eq_nil (.inr (Nat.le_refl _)),
    List.nil_append, List.append_nil]

def requestOf (table : List (Int × Option Req)) (rowid : Nat) : Option Req :=
  (table.lookup (rowid : Int)).join

theorem lookup_of_mem (hsorted : table.Pairwise fun a b => a.1 < b.1) {row : Int × Option Req}
    (hrow : row ∈ table) : table.lookup row.1 = some row.2 := by
  obtain ⟨before, after, rfl⟩ := List.append_of_mem hrow
  refine List.lookup_eq_some_iff.mpr ⟨before, after, rfl, fun other hother => ?_⟩
  have hlt := (List.pairwise_append.mp hsorted).2.2 other hother row List.mem_cons_self
  rw [bne_iff_ne]
  omega

theorem map_fst_select (htable : table.map Prod.fst = (List.range' 1 s).map Nat.cast)
    (start stop : Nat) (hstart : 1 ≤ start) (hle : start ≤ stop) (hstop : stop ≤ s + 1) :
    (select table start stop).map Prod.fst = (List.range' start (stop - start)).map Nat.cast := by
  have hselect : (select table start stop).map Prod.fst =
      (table.map Prod.fst).filter fun id => decide ((start : Int) ≤ id ∧ id < stop) := by
    rw [List.filter_map]
    rfl
  rw [hselect, htable, List.filter_map, ← filter_range' hstart hle hstop]
  congr 2
  funext id
  simp

theorem map_snd_select (hsorted : table.Pairwise fun a b => a.1 < b.1)
    (htable : table.map Prod.fst = (List.range' 1 s).map Nat.cast) (start stop : Nat)
    (hstart : 1 ≤ start) (hle : start ≤ stop) (hstop : stop ≤ s + 1) :
    (select table start stop).map Prod.snd =
      (List.range' start (stop - start)).map (requestOf table) := by
  have hrows := map_fst_select htable start stop hstart hle hstop
  have hlookup : (select table start stop).map Prod.snd =
      ((select table start stop).map Prod.fst).map fun id => (table.lookup id).join := by
    rw [List.map_map]
    refine List.map_congr_left fun row hrow => ?_
    rw [Function.comp_apply, lookup_of_mem hsorted (List.mem_filter.mp hrow).1, Option.join_some]
  rw [hlookup, hrows, List.map_map]
  rfl

theorem Reading.turn_eq (table : List (Int × Option Req)) {r : Reading Req} {stop : Nat}
    (hstop : min (r.file.rangeEndInclusive + 1) (r.file.nextReadCursor + r.dataNeed) = stop) :
    r.turn table =
      ((select table r.file.nextReadCursor stop).mapM Prod.snd).map (r.advance stop) := by
  rw [Reading.turn, hstop]

theorem Reading.loop_done {r : Reading Req} {n : Nat} (h : r.requestData.length ≥ n)
    (turns : Nat) : Reading.loop table n turns r = .returned r := by
  cases turns <;> simp [Reading.loop, h]

structure Reads (a b j : Nat) (file : SplitRequestFile) : Prop where
  inner : file.inner = true
  start : file.rangeStartInclusive = a
  stop : file.rangeEndInclusive = b
  cursor : file.nextReadCursor = a + j % (b + 1 - a)

theorem reads_connect {file : SplitRequestFile} (ha : 1 ≤ a) (hb : 1 ≤ b) (size : Nat)
    (hstart : file.rangeStartInclusive = a) (hstop : file.rangeEndInclusive = b) :
    Reads a b 0 (file.connect size) where
  inner := rfl
  start := by simp [SplitRequestFile.connect, hstart, Nat.ne_of_gt ha]
  stop := by simp [SplitRequestFile.connect, hstop, Nat.ne_of_gt hb]
  cursor := by simp [SplitRequestFile.connect, hstart, Nat.ne_of_gt ha]

theorem cursor_next {e : Nat} (hab : a ≤ b) (he : j % (b + 1 - a) + e ≤ b + 1 - a) :
    (if a + j % (b + 1 - a) + e > b then a else a + j % (b + 1 - a) + e) =
      a + (j + e) % (b + 1 - a) := by
  have hmod : (j + e) % (b + 1 - a) = (j % (b + 1 - a) + e) % (b + 1 - a) :=
    (Nat.mod_add_mod j (b + 1 - a) e).symm
  split
  · rename_i hend
    rw [hmod, show j % (b + 1 - a) + e = b + 1 - a by omega, Nat.mod_self, Nat.add_zero]
  · rename_i hend
    rw [hmod, Nat.mod_eq_of_lt (a := j % (b + 1 - a) + e) (by omega), Nat.add_assoc]

section Range

variable (hsorted : table.Pairwise fun a b => a.1 < b.1)
  (htable : table.map Prod.fst = (List.range' 1 s).map Nat.cast)
  (hconverts : ∀ row ∈ table, row.2.isSome) (ha : 1 ≤ a) (hab : a ≤ b) (hb : b ≤ s)

include hsorted htable hconverts ha hab hb

theorem Reading.turn_spec {r : Reading Req} (hr : Reads a b j r.file) (hneed : 0 < r.dataNeed) :
    ∃ e data r', r.turn table = some r' ∧ 0 < e ∧ e ≤ r.dataNeed ∧
      data.map some = (rounds a b j e).map (requestOf table) ∧
      r'.dataNeed = r.dataNeed - e ∧ r'.requestData = r.requestData ++ data ∧
      Reads a b (j + e) r'.file := by
  have hmod : j % (b + 1 - a) < b + 1 - a := Nat.mod_lt _ (by omega)
  let e := min (b + 1 - a - j % (b + 1 - a)) r.dataNeed
  have hstop : min (r.file.rangeEndInclusive + 1) (r.file.nextReadCursor + r.dataNeed) =
      a + j % (b + 1 - a) + e := by
    rw [hr.stop, hr.cursor]
    omega
  have hround : j % (b + 1 - a) + e ≤ b + 1 - a := by omega
  let rows := select table (a + j % (b + 1 - a)) (a + j % (b + 1 - a) + e)
  have hrows : rows.map Prod.snd = (rounds a b j e).map (requestOf table) := by
    rw [rounds_stretch hround, map_snd_select hsorted htable _ _ (by omega) (by omega) (by omega),
      Nat.add_sub_cancel_left]
  have hrowsConvert : ∀ row ∈ rows, row.2.isSome :=
    fun row hrow => hconverts row (List.mem_filter.mp hrow).1
  obtain ⟨data, hmapM, hlength, -⟩ := Calls.mapM_of_forall (f := Prod.snd) hrowsConvert
  have hdata : data.map some = (rounds a b j e).map (requestOf table) :=
    (Calls.mapM_eq_some_iff.mp hmapM).symm.trans hrows
  have he : data.length = e := by
    rw [← List.length_map (f := some), hdata, List.length_map, length_rounds]
  have hturn := Reading.turn_eq table hstop
  rw [hr.cursor, hmapM, Option.map_some] at hturn
  refine ⟨e, data, _, hturn, by omega, Nat.min_le_right _ _, hdata, ?_, rfl, ?_⟩
  · rw [Reading.advance, he]
  · refine ⟨hr.inner, hr.start, hr.stop, ?_⟩
    simp only [Reading.advance, hr.start, hr.stop]
    exact cursor_next hab hround

theorem Reading.loop_spec {n turns : Nat} {r : Reading Req} (hr : Reads a b j r.file)
    (hn : r.requestData.length + r.dataNeed = n) (hturns : r.dataNeed ≤ turns) :
    ∃ r' data, Reading.loop table n turns r = .returned r' ∧
      r'.requestData = r.requestData ++ data ∧
      data.map some = (rounds a b j r.dataNeed).map (requestOf table) ∧
      Reads a b (j + r.dataNeed) r'.file := by
  induction turns generalizing r j with
  | zero =>
    have hzero : r.dataNeed = 0 := by omega
    exact ⟨r, [], Reading.loop_done (by omega) 0, by simp, by simp [hzero, rounds],
      by simpa [hzero] using hr⟩
  | succ turns ih =>
    by_cases hzero : r.dataNeed = 0
    · exact ⟨r, [], Reading.loop_done (by omega) _, by simp, by simp [hzero, rounds],
        by simpa [hzero] using hr⟩
    · obtain ⟨e, data, next, hturn, he, hle, hdata, hneed, hmore, hr'⟩ :=
        Reading.turn_spec hsorted htable hconverts ha hab hb hr (by omega)
      have hlength : data.length = e := by
        rw [← List.length_map (f := some), hdata, List.length_map, length_rounds]
      obtain ⟨r', data', hloop, hdata', hrows', hr''⟩ := ih hr'
        (by rw [hmore, hneed, List.length_append, hlength]; omega) (by omega)
      rw [hneed] at hrows' hr''
      have hall : e + (r.dataNeed - e) = r.dataNeed := by omega
      refine ⟨r', data ++ data', ?_, ?_, ?_, ?_⟩
      · simp only [Reading.loop, hturn]
        rw [if_neg (by omega), hloop]
      · rw [hdata', hmore, List.append_assoc]
      · rw [List.map_append, hdata, hrows', ← List.map_append, rounds_append, hall]
      · rwa [Nat.add_assoc, hall] at hr''

namespace SplitRequestFile

theorem getN_spec {file : SplitRequestFile} (hr : Reads a b j file) {n turns : Nat} (hn : 1 ≤ n)
    (hturns : n ≤ turns) :
    ∃ data file', file.getN table turns n = .returned (.ok data, file') ∧
      data.map some = (rounds a b j n).map (requestOf table) ∧ Reads a b (j + n) file' := by
  obtain ⟨r, data, hloop, hdata, hrows, hr'⟩ := Reading.loop_spec hsorted htable hconverts ha hab
    hb (n := n) (r := ⟨file, n, []⟩) hr (by simp) hturns
  refine ⟨data, r.file, ?_, hrows, hr'⟩
  simp only [List.nil_append] at hdata
  simp [getN, Nat.ne_of_gt hn, hr.inner, hloop, hdata, Outcome.map]

end SplitRequestFile

end Range

theorem SplitRequestFile.getN_connect {file : SplitRequestFile} (hclosed : file.inner = false)
    (hrows : 1 ≤ table.length) {turns n : Nat} :
    file.getN table turns n = (file.connect table.length).getN table turns n := by
  have hempty : ¬ table.length < 1 := by omega
  have hopen : (file.connect table.length).inner = true := rfl
  simp only [getN, hclosed, hopen, hempty, and_false, if_false, if_true, Bool.false_eq_true]

namespace SplitRequestFile

def overflows (self : SplitRequestFile) : Bool :=
  2 ^ 64 ≤ max self.rangeStartInclusive self.rangeEndInclusive + 1

def width (rows : Nat) (self : SplitRequestFile) : Nat :=
  (self.connect rows).rangeEndInclusive + 1 - (self.connect rows).rangeStartInclusive

def firstRow (table : List (Int × Option Req)) (self : SplitRequestFile) :
    Option (Int × Option Req) :=
  table.find? fun row => ((self.connect table.length).rangeStartInclusive : Int) ≤ row.1 ∧
    row.1 ≤ (self.connect table.length).rangeEndInclusive

end SplitRequestFile

structure Reading.Barren (a b : Nat) (r : Reading Req) : Prop where
  start : r.file.rangeStartInclusive = a
  stop : r.file.rangeEndInclusive = b
  cursor : a ≤ r.file.nextReadCursor
  unread : r.requestData = []

theorem Reading.Barren.turn {r : Reading Req}
    (hempty : ∀ row ∈ table, row.1 < (a : Int) ∨ (b : Int) < row.1) (hr : r.Barren a b) :
    ∃ r', r.turn table = some r' ∧ r'.Barren a b := by
  have hcursor := hr.cursor
  have hselect : select table r.file.nextReadCursor
      (min (b + 1) (r.file.nextReadCursor + r.dataNeed)) = [] := by
    rw [select, List.filter_eq_nil_iff]
    intro row hrow
    have hrow := hempty row hrow
    simp only [decide_eq_true_eq]
    omega
  have hturn := Reading.turn_eq table (r := r) rfl
  rw [hr.stop, hselect] at hturn
  refine ⟨_, hturn, hr.start, hr.stop, ?_, by simp [Reading.advance, hr.unread]⟩
  simp only [Reading.advance, hr.start, hr.stop]
  split <;> omega

theorem Reading.Barren.loop_eq_endless {r : Reading Req} {n : Nat} (hn : 1 ≤ n)
    (hempty : ∀ row ∈ table, row.1 < (a : Int) ∨ (b : Int) < row.1) (hr : r.Barren a b)
    (turns : Nat) : Reading.loop table n turns r = .endless := by
  induction turns generalizing r with
  | zero =>
    have hunread : ¬ r.requestData.length ≥ n := by
      rw [hr.unread, List.length_nil]
      omega
    simp only [Reading.loop, if_neg hunread]
  | succ turns ih =>
    have hunread : ¬ r.requestData.length ≥ n := by
      rw [hr.unread, List.length_nil]
      omega
    obtain ⟨r', hturn, hr'⟩ := hr.turn hempty
    simp only [Reading.loop, if_neg hunread, hturn]
    exact ih hr'

theorem select_row (hsorted : table.Pairwise fun a b => a.1 < b.1) {row : Int × Option Req}
    {x : Nat} (hrow : row ∈ table) (hx : row.1 = x) : select table x (x + 1) = [row] := by
  obtain ⟨before, after, rfl⟩ := List.append_of_mem hrow
  obtain ⟨-, hafter, hbefore⟩ := List.pairwise_append.mp hsorted
  rw [select, List.filter_append, List.filter_cons_of_pos (by
    simp only [hx, decide_eq_true_eq]
    omega)]
  have hnone : before.filter (fun row => decide (((x : Nat) : Int) ≤ row.1 ∧
      row.1 < ((x + 1 : Nat) : Int))) = [] := by
    rw [List.filter_eq_nil_iff]
    intro other hother
    have hlt := hbefore other hother row List.mem_cons_self
    simp only [decide_eq_true_eq]
    omega
  have hnone' : after.filter (fun row => decide (((x : Nat) : Int) ≤ row.1 ∧
      row.1 < ((x + 1 : Nat) : Int))) = [] := by
    rw [List.filter_eq_nil_iff]
    intro other hother
    have hlt := List.rel_of_pairwise_cons hafter hother
    simp only [decide_eq_true_eq]
    omega
  rw [hnone, hnone', List.nil_append]

def Found (size : Nat) (found : Option Req) (o : Outcome (Reading Req)) : Prop :=
  match found with
  | none => o = .panicked
  | some req => ∃ r, o = .returned r ∧ r.requestData = [req] ∧ r.file.size = size

theorem Reading.loop_first (hsorted : table.Pairwise fun a b => a.1 < b.1)
    {row : Int × Option Req} {x : Nat} (turns : Nat) {r : Reading Req} (hrow : row ∈ table)
    (hx : row.1 = x) (hxb : x ≤ b) (hfirst : ∀ other ∈ table, (a : Int) ≤ other.1 → row.1 ≤ other.1)
    (hr : r.Barren a b) (hneed : r.dataNeed = 1) (hcursor : r.file.nextReadCursor ≤ x)
    (hturns : x < r.file.nextReadCursor + turns) :
    Found r.file.size row.2 (Reading.loop table 1 turns r) := by
  induction turns generalizing r with
  | zero => omega
  | succ turns ih =>
    have hunread : ¬ r.requestData.length ≥ 1 := by simp [hr.unread]
    have hcursor' := hr.cursor
    have hstop : min (r.file.rangeEndInclusive + 1) (r.file.nextReadCursor + r.dataNeed) =
        r.file.nextReadCursor + 1 := by
      rw [hr.stop, hneed]
      omega
    simp only [Reading.loop, if_neg hunread, Reading.turn_eq table hstop]
    by_cases hhere : r.file.nextReadCursor = x
    · rw [hhere, select_row hsorted hrow hx, List.mapM_cons, List.mapM_nil]
      cases hreq : row.2 with
      | none => rfl
      | some req =>
        have hread : (r.advance (x + 1) [req]).requestData = [req] := by
          simp [Reading.advance, hr.unread]
        exact ⟨_, Reading.loop_done (by rw [hread]; rfl) turns, hread, rfl⟩
    · have hselect : select table r.file.nextReadCursor (r.file.nextReadCursor + 1) = [] := by
        rw [select, List.filter_eq_nil_iff]
        intro other hother
        have hle := hfirst other hother
        simp only [decide_eq_true_eq]
        omega
      have hnext : (r.advance (r.file.nextReadCursor + 1) []).file.nextReadCursor =
          r.file.nextReadCursor + 1 := if_neg (by rw [hr.stop]; omega)
      rw [hselect]
      refine ih (r := r.advance (r.file.nextReadCursor + 1) []) ⟨hr.start, hr.stop, ?_, ?_⟩ hneed
        ?_ ?_
      · omega
      · simp [Reading.advance, hr.unread]
      · omega
      · omega

namespace SplitRequestFile

variable {file : SplitRequestFile}

theorem getN_clone (file : SplitRequestFile) (hrows : 1 ≤ table.length) {n : Nat} (hn : 1 ≤ n)
    (turns : Nat) :
    file.clone.getN table turns n =
      (Reading.loop table n turns ⟨file.clone.connect table.length, n, []⟩).map
        fun r => (.ok r.requestData, r.file) := by
  rw [getN_connect rfl hrows]
  simp only [getN, Nat.ne_of_gt hn, if_false, connect, Bool.true_eq_false, false_and, if_true]

theorem getN_endless (hrows : 1 ≤ table.length) (hfirst : file.firstRow table = none) {n : Nat}
    (hn : 1 ≤ n) (turns : Nat) : file.clone.getN table turns n = .endless := by
  have hempty : ∀ row ∈ table, row.1 < ((file.connect table.length).rangeStartInclusive : Int) ∨
      ((file.connect table.length).rangeEndInclusive : Int) < row.1 := by
    intro row hrow
    have hnot := List.find?_eq_none.mp hfirst row hrow
    simp only [decide_eq_true_eq] at hnot
    omega
  rw [file.getN_clone hrows hn, Reading.Barren.loop_eq_endless hn hempty
    ⟨rfl, rfl, Nat.le_refl _, rfl⟩ turns]
  rfl

theorem getN_first (hsorted : table.Pairwise fun a b => a.1 < b.1) {row : Int × Option Req}
    (hfirst : file.firstRow table = some row) :
    match row.2 with
    | none => file.clone.getN table (file.width table.length) 1 = .panicked
    | some req => ∃ file', file.clone.getN table (file.width table.length) 1 =
        .returned (.ok [req], file') ∧ file'.size = table.length := by
  obtain ⟨hrange, before, after, htable, hbefore⟩ := List.find?_eq_some_iff_append.mp hfirst
  simp only [decide_eq_true_eq] at hrange
  have hrow : row ∈ table := htable ▸ List.mem_append_right _ List.mem_cons_self
  obtain ⟨x, hx⟩ := Int.eq_ofNat_of_zero_le
    (Int.le_trans (Int.natCast_nonneg _) hrange.1)
  have hleast : ∀ other ∈ table,
      ((file.connect table.length).rangeStartInclusive : Int) ≤ other.1 → row.1 ≤ other.1 := by
    intro other hother hstart
    rw [htable] at hother hsorted
    obtain ⟨-, hafter, hbefore'⟩ := List.pairwise_append.mp hsorted
    rcases List.mem_append.mp hother with hother | hother
    · have hnot := hbefore other hother
      have hlt := hbefore' other hother row List.mem_cons_self
      simp only [Bool.not_eq_true', decide_eq_false_iff_not] at hnot
      omega
    · rcases List.mem_cons.mp hother with rfl | hother
      · exact Int.le_refl _
      · exact Int.le_of_lt (List.rel_of_pairwise_cons hafter hother)
  have hstart : (file.clone.connect table.length).nextReadCursor =
      (file.connect table.length).rangeStartInclusive := rfl
  have hfound := Reading.loop_first (a := (file.connect table.length).rangeStartInclusive)
    (b := (file.connect table.length).rangeEndInclusive)
    (r := ⟨file.clone.connect table.length, 1, []⟩) hsorted (file.width table.length) hrow hx
    (by omega) hleast ⟨rfl, rfl, Nat.le_refl _, rfl⟩ rfl (by rw [hstart]; omega)
    (by rw [hstart, width]; omega)
  have hgetN := file.getN_clone (List.length_pos_of_mem hrow) (Nat.le_refl 1)
    (file.width table.length)
  cases hreq : row.2 with
  | none =>
    rw [hreq] at hfound
    rw [hgetN, show Reading.loop _ _ _ _ = _ from hfound]
    rfl
  | some req =>
    rw [hreq] at hfound
    obtain ⟨r, hloop, hdata, hsize⟩ := hfound
    refine ⟨r.file, ?_, hsize⟩
    rw [hgetN, hloop, ← hdata]
    rfl

end SplitRequestFile

end Overload.Split
