import Mathlib.Data.List.Dedup
import Overload.BinaryHeap
import Overload.Json
import Overload.Regex
import Overload.Utf8

namespace Overload.Request

open Json (Value)
open Regex (Match)
open Utf8

/-- `start` and `stop` are offsets in bytes; `Ord` compares the starts. -/
structure UrlParam where
  name : String
  start : Nat
  stop : Nat
  deriving DecidableEq, Repr

def isParamChar (c : Char) : Bool := c.isAlphanum || c == '_' || c == '-'

def paramRegex : Regex :=
  .append (.just '{') (.append (.plus true (.char isParamChar)) (.just '}'))

def paramMatches (url : List Char) : List (List Char × Match) × List Char :=
  paramRegex.pieces url.length url

def urlParams (url : List Char) : Nat → List (List Char × Match) → Option (List UrlParam)
  | _, [] => some []
  | offset, (before, m) :: found => do
    let start := offset + utf8Len before
    let stop := start + utf8Len m.text
    let name ← slice url (start + 1) (stop - 1)
    let params ← urlParams url stop found
    return ⟨.ofList name, start, stop⟩ :: params

/-- The array of the heap, in the order in which its `iter` walks through it. -/
def findParamPositions (url : List Char) : Option (List UrlParam) :=
  (urlParams url 0 (paramMatches url).1).map (BinaryHeap.pushAll UrlParam.start)

def paramText (value : Value) : String :=
  match value.asStr with
  | some s => s
  | none =>
    match value.asI64 with
    | some n => toString n.toInt
    | none => "unknown"

def substituteParam (data : Value) (url : List Char) (param : UrlParam) : Option (List Char) :=
  match data.get param.name with
  | some value => replaceRange url param.start param.stop (paramText value).toList
  | none => some url

def substituteParamWithData (url : List Char) (positions : List UrlParam) (data : Value) :
    Option (List Char) :=
  positions.foldlM (substituteParam data) url

def paramName (m : Match) : String := .ofList m.text.tail.dropLast

def replacement (data : Value) (m : Match) : List Char :=
  match data.get (paramName m) with
  | some value => (paramText value).toList
  | none => m.text

def substituted (data : Value) (found : List (List Char × Match)) (last : List Char) : List Char :=
  found.flatMap (fun piece => piece.1 ++ replacement data piece.2) ++ last

def Substitutes (url : List Char) (data : Value) : Prop :=
  ((findParamPositions url).bind fun positions => substituteParamWithData url positions data) =
    some (substituted data (paramMatches url).1 (paramMatches url).2)

def UrlParam.width (param : UrlParam) : Nat := param.stop - param.start

def written (data : Value) (param : UrlParam) : Nat :=
  match data.get param.name with
  | some value => utf8Len (paramText value).toList
  | none => param.width

def Unmoved (data : Value) (done : List UrlParam) (param : UrlParam) : Prop :=
  ((done.filter (·.start < param.start)).map (written data)).sum =
    ((done.filter (·.start < param.start)).map UrlParam.width).sum

/-- Every parameter that is replaced is still where it was found when its turn comes. -/
def InPlace (url : List Char) (data : Value) : Prop :=
  ∀ done param rest, findParamPositions url = some (done ++ param :: rest) →
    (data.get param.name).isSome → Unmoved data done param

/-- The parameters with these names have their turns from right to left. -/
def RightToLeft (url : List Char) (keys : List String) : Prop :=
  ∀ positions, findParamPositions url = some positions →
    BinaryHeap.Descending UrlParam.start (positions.filter (·.name ∈ keys))

variable {url front last : List Char} {data : Value} {found : List (List Char × Match)}
  {offset : Nat} {m : Match}

def Named (m : Match) : Prop :=
  ∃ name, m.text = '{' :: (name ++ ['}']) ∧ ∀ c ∈ name, isParamChar c = true

theorem named_of_mem_paramMatches {piece : List Char × Match}
    (h : piece ∈ (paramMatches url).1) : Named piece.2 := by
  have hword := Regex.mem_language_of_mem_pieces (by simp [paramRegex, Regex.Plain, Regex.just,
    Regex.plus]) h
  obtain ⟨_, ⟨c, hc, rfl⟩, rest, hrest, htext⟩ := Language.mem_mul.mp hword
  obtain ⟨name, hname, _, ⟨d, hd, rfl⟩, rfl⟩ := Language.mem_mul.mp hrest
  obtain rfl : c = '{' := beq_iff_eq.mp hc
  obtain rfl : d = '}' := beq_iff_eq.mp hd
  exact ⟨name, htext.symm, (Regex.mem_language_plus_char.mp hname).2⟩

def paramAt (offset : Nat) (piece : List Char × Match) : UrlParam :=
  ⟨paramName piece.2, offset + utf8Len piece.1,
    offset + utf8Len piece.1 + utf8Len piece.2.text⟩

def paramsOf : Nat → List (List Char × Match) → List UrlParam
  | _, [] => []
  | offset, piece :: found => paramAt offset piece :: paramsOf (paramAt offset piece).stop found

theorem utf8Len_pos_of_named (hm : Named m) : 0 < utf8Len m.text := by
  obtain ⟨name, htext, _⟩ := hm
  rw [htext, utf8Len_cons]
  exact Nat.add_pos_left (Char.utf8Size_pos _) _

theorem slice_name (hm : Named m) {before rest : List Char} {start : Nat}
    (hurl : url = before ++ (m.text ++ rest)) (hstart : utf8Len before = start) :
    ∃ name, slice url (start + 1) (start + utf8Len m.text - 1) = some name ∧
      String.ofList name = paramName m := by
  obtain ⟨name, htext, _⟩ := hm
  have hopen : '{'.utf8Size = 1 := rfl
  have hclose : '}'.utf8Size = 1 := rfl
  have hlen : utf8Len m.text = utf8Len name + 2 := by
    simp only [htext, utf8Len_cons, utf8Len_append, utf8Len_nil, hopen, hclose]
    omega
  have htotal : url = (before ++ ['{']) ++ (name ++ ('}' :: rest)) := by
    simp [hurl, htext]
  refine ⟨name, ?_, ?_⟩
  · rw [htotal]
    exact slice_append (by simp [hopen, hstart]) (by omega)
  · rw [paramName, htext, List.tail_cons, List.dropLast_concat]

theorem urlParams_eq (hfound : ∀ piece ∈ found, Named piece.2)
    (hurl : url = front ++ (found.flatMap (fun piece => piece.1 ++ piece.2.text) ++ last))
    (hfront : utf8Len front = offset) :
    urlParams url offset found = some (paramsOf offset found) := by
  induction found generalizing front offset with
  | nil => rfl
  | cons piece found ih =>
    obtain ⟨before, m⟩ := piece
    obtain ⟨hm, hfound⟩ := List.forall_mem_cons.mp hfound
    have hurl' : url = (front ++ before) ++ (m.text ++
        (found.flatMap (fun piece => piece.1 ++ piece.2.text) ++ last)) := by
      simp [hurl]
    obtain ⟨name, hslice, hname⟩ := slice_name hm hurl' (by rw [utf8Len_append, hfront])
    have hrest := ih hfound (hurl'.trans (List.append_assoc ..).symm) rfl
    rw [utf8Len_append, utf8Len_append, hfront] at hrest
    rw [urlParams, hslice, hrest, paramsOf, paramAt, ← hname]
    rfl

theorem paramMatches_text (url : List Char) :
    url = [] ++ ((paramMatches url).1.flatMap (fun piece => piece.1 ++ piece.2.text) ++
      (paramMatches url).2) :=
  (Regex.flatMap_pieces url.length url).symm

theorem findParamPositions_eq (url : List Char) :
    findParamPositions url =
      some (BinaryHeap.pushAll UrlParam.start (paramsOf 0 (paramMatches url).1)) := by
  have hparams : urlParams url 0 (paramMatches url).1 = some (paramsOf 0 (paramMatches url).1) :=
    urlParams_eq (fun _ => named_of_mem_paramMatches) (paramMatches_text url) rfl
  rw [findParamPositions, hparams, Option.map_some]

theorem offset_le_of_mem_paramsOf {param : UrlParam} (h : param ∈ paramsOf offset found) :
    offset ≤ param.start := by
  induction found generalizing offset with
  | nil => cases h
  | cons piece found ih =>
    rcases List.mem_cons.mp h with rfl | h
    · exact Nat.le_add_right _ _
    · refine Nat.le_trans ?_ (ih h)
      simp only [paramAt]
      omega

theorem ascending_paramsOf (hfound : ∀ piece ∈ found, Named piece.2) :
    BinaryHeap.Ascending UrlParam.start (paramsOf offset found) := by
  induction found generalizing offset with
  | nil => exact .nil
  | cons piece found ih =>
    obtain ⟨hm, hfound⟩ := List.forall_mem_cons.mp hfound
    refine List.pairwise_cons.mpr ⟨fun param hparam => ?_, ih hfound⟩
    have hle := offset_le_of_mem_paramsOf hparam
    have hpos := utf8Len_pos_of_named hm
    simp only [paramAt] at hle ⊢
    omega

theorem length_paramsOf (offset : Nat) (found : List (List Char × Match)) :
    (paramsOf offset found).length = found.length := by
  induction found generalizing offset with
  | nil => rfl
  | cons piece found ih => simp [paramsOf, ih]

def partlySubstituted (data : Value) (done : List UrlParam) :
    Nat → List (List Char × Match) → List Char → List Char
  | _, [], last => last
  | offset, piece :: found, last =>
    piece.1 ++ ((if paramAt offset piece ∈ done then replacement data piece.2 else piece.2.text) ++
      partlySubstituted data done (paramAt offset piece).stop found last)

variable {done rest : List UrlParam} {param : UrlParam}

theorem partlySubstituted_nil :
    partlySubstituted data [] offset found last =
      found.flatMap (fun piece => piece.1 ++ piece.2.text) ++ last := by
  induction found generalizing offset with
  | nil => rfl
  | cons piece found ih => simp [partlySubstituted, ih]

theorem partlySubstituted_all (h : ∀ param ∈ paramsOf offset found, param ∈ done) :
    partlySubstituted data done offset found last = substituted data found last := by
  induction found generalizing offset with
  | nil => rfl
  | cons piece found ih =>
    obtain ⟨hpiece, hfound⟩ := List.forall_mem_cons.mp h
    simp [partlySubstituted, hpiece, ih hfound, substituted]

theorem partlySubstituted_concat (h : param ∉ paramsOf offset found) :
    partlySubstituted data (done ++ [param]) offset found last =
      partlySubstituted data done offset found last := by
  induction found generalizing offset with
  | nil => rfl
  | cons piece found ih =>
    obtain ⟨hne, hfound⟩ := List.ne_and_not_mem_of_not_mem_cons h
    simp only [partlySubstituted, ih hfound, List.mem_append, List.mem_singleton, hne.symm,
      or_false]

def leftOf (done : List UrlParam) (param : UrlParam) (params : List UrlParam) : List UrlParam :=
  params.filter fun other => decide (other ∈ done) && decide (other.start < param.start)

theorem width_paramAt (offset : Nat) (piece : List Char × Match) :
    (paramAt offset piece).width = utf8Len piece.2.text :=
  Nat.add_sub_cancel_left ..

theorem written_paramAt (offset : Nat) (piece : List Char × Match) :
    written data (paramAt offset piece) = utf8Len (replacement data piece.2) := by
  have hname : (paramAt offset piece).name = paramName piece.2 := rfl
  rw [written, width_paramAt, replacement, hname]
  cases data.get (paramName piece.2) <;> rfl

theorem partlySubstituted_split (hfound : ∀ piece ∈ found, Named piece.2)
    (hparam : param ∈ paramsOf offset found) (hdone : param ∉ done) :
    ∃ front m back,
      partlySubstituted data done offset found last = front ++ (m.text ++ back) ∧
      partlySubstituted data (done ++ [param]) offset found last =
        front ++ (replacement data m ++ back) ∧
      paramName m = param.name ∧ param.start + utf8Len m.text = param.stop ∧
      offset + utf8Len front +
          ((leftOf done param (paramsOf offset found)).map UrlParam.width).sum =
        param.start + ((leftOf done param (paramsOf offset found)).map (written data)).sum := by
  induction found generalizing offset with
  | nil => cases hparam
  | cons piece found ih =>
    have hascending : BinaryHeap.Ascending UrlParam.start (paramsOf offset (piece :: found)) :=
      ascending_paramsOf hfound
    obtain ⟨hlt, -⟩ := List.pairwise_cons.mp hascending
    obtain ⟨-, hfound⟩ := List.forall_mem_cons.mp hfound
    rcases List.mem_cons.mp hparam with rfl | hparam
    · have hleft : leftOf done (paramAt offset piece) (paramsOf offset (piece :: found)) = [] := by
        refine List.filter_eq_nil_iff.mpr fun other hother => ?_
        have hle : (paramAt offset piece).start ≤ other.start := by
          rcases List.mem_cons.mp hother with rfl | hother
          · exact Nat.le_refl _
          · exact Nat.le_of_lt (hlt other hother)
        simp only [Bool.and_eq_true, decide_eq_true_eq, not_and, Nat.not_lt]
        exact fun _ => hle
      have hnot : paramAt offset piece ∉ paramsOf (paramAt offset piece).stop found :=
        fun hmem => Nat.lt_irrefl _ (hlt _ hmem)
      refine ⟨piece.1, piece.2, partlySubstituted data done (paramAt offset piece).stop found last,
        ?_, ?_, rfl, rfl, ?_⟩
      · simp only [partlySubstituted, hdone, if_false]
      · simp only [partlySubstituted, partlySubstituted_concat hnot, List.mem_append,
          List.mem_singleton, or_true, if_true]
      · rw [hleft]
        rfl
    · have hne : paramAt offset piece ≠ param := by
        rintro rfl
        exact Nat.lt_irrefl _ (hlt _ hparam)
      obtain ⟨front, m, back, hsplit, hsplit', hname, hstop, hlength⟩ := ih hfound hparam
      have hbefore := hlt param hparam
      have hstart : (paramAt offset piece).stop =
        offset + utf8Len piece.1 + utf8Len piece.2.text := rfl
      by_cases hmem : paramAt offset piece ∈ done
      · refine ⟨piece.1 ++ (replacement data piece.2 ++ front), m, back, ?_, ?_, hname, hstop, ?_⟩
        · simp [partlySubstituted, hmem, hsplit]
        · simp [partlySubstituted, hmem, hsplit']
        · simp only [paramsOf, leftOf, List.filter_cons, hmem, hbefore, decide_true, Bool.and_self,
            if_true, List.map_cons, List.sum_cons, width_paramAt, written_paramAt,
            utf8Len_append] at hlength ⊢
          omega
      · refine ⟨piece.1 ++ (piece.2.text ++ front), m, back, ?_, ?_, hname, hstop, ?_⟩
        · simp [partlySubstituted, hmem, hsplit]
        · simp [partlySubstituted, hmem, hne, hsplit']
        · simp only [paramsOf, leftOf, List.filter_cons, hmem, decide_false, Bool.false_and,
            Bool.false_eq_true, if_false, utf8Len_append] at hlength ⊢
          omega

theorem leftOf_perm {params : List UrlParam} (hnodup : params.Nodup)
    (hperm : (done ++ rest).Perm params) (param : UrlParam) :
    (leftOf done param params).Perm (done.filter (·.start < param.start)) := by
  have hdone : done.Nodup := (List.nodup_append.mp (hperm.nodup_iff.mpr hnodup)).1
  refine (List.perm_ext_iff_of_nodup (hnodup.filter _) (hdone.filter _)).mpr fun other => ?_
  simp only [List.mem_filter, Bool.and_eq_true, decide_eq_true_eq]
  constructor
  · rintro ⟨-, hmem, hlt⟩
    exact ⟨hmem, hlt⟩
  · rintro ⟨hmem, hlt⟩
    exact ⟨hperm.mem_iff.mp (List.mem_append_left _ hmem), hmem, hlt⟩

theorem substituteParam_unmoved (hfound : ∀ piece ∈ found, Named piece.2)
    (hperm : (done ++ param :: rest).Perm (paramsOf 0 found))
    (hunmoved : (data.get param.name).isSome → Unmoved data done param) :
    substituteParam data (partlySubstituted data done 0 found last) param =
      some (partlySubstituted data (done ++ [param]) 0 found last) := by
  have hnodup : (paramsOf 0 found).Nodup :=
    (ascending_paramsOf hfound).imp fun hlt heq => Nat.ne_of_lt hlt (congrArg _ heq)
  have hmem : param ∈ paramsOf 0 found := hperm.mem_iff.mp (by simp)
  have hdone : param ∉ done := fun h =>
    (List.nodup_append.mp (hperm.nodup_iff.mpr hnodup)).2.2 param h param List.mem_cons_self rfl
  obtain ⟨front, m, back, hsplit, hsplit', hname, hstop, hlength⟩ :=
    partlySubstituted_split hfound hmem hdone
  rw [hsplit, hsplit', substituteParam, replacement, hname]
  cases hget : data.get param.name with
  | none => rfl
  | some value =>
    have hleft := leftOf_perm hnodup hperm param
    rw [(hleft.map UrlParam.width).sum_eq, (hleft.map (written data)).sum_eq,
      hunmoved (by rw [hget]; rfl)] at hlength
    exact (replaceRange_append (by omega) hstop).trans (by rw [List.append_assoc])

theorem substitute_unmoved (hfound : ∀ piece ∈ found, Named piece.2) (last : List Char)
    {todo : List UrlParam}
    (hperm : (done ++ todo).Perm (paramsOf 0 found))
    (hunmoved : ∀ before param after, done ++ todo = before ++ param :: after →
      (data.get param.name).isSome → Unmoved data before param) :
    todo.foldlM (substituteParam data) (partlySubstituted data done 0 found last) =
      some (substituted data found last) := by
  induction todo generalizing done with
  | nil =>
    rw [List.append_nil] at hperm
    exact congrArg some (partlySubstituted_all fun param hparam => hperm.mem_iff.mpr hparam)
  | cons param todo ih =>
    have happend : done ++ param :: todo = (done ++ [param]) ++ todo := by simp
    rw [List.foldlM_cons, substituteParam_unmoved hfound hperm (hunmoved done param todo rfl)]
    exact ih (happend ▸ hperm) (happend ▸ hunmoved)

theorem substitutes_of_inPlace (h : InPlace url data) : Substitutes url data := by
  have hperm : ([] ++ BinaryHeap.pushAll UrlParam.start (paramsOf 0 (paramMatches url).1)).Perm
    (paramsOf 0 (paramMatches url).1) := BinaryHeap.pushAll_perm
  have hsubstitute := substitute_unmoved (fun _ => named_of_mem_paramMatches) (paramMatches url).2
    hperm fun before param after hsplit =>
      h before param after ((findParamPositions_eq url).trans (congrArg some hsplit))
  rw [partlySubstituted_nil, ← (paramMatches_text url).trans (List.nil_append _)] at hsubstitute
  rw [Substitutes, findParamPositions_eq]
  exact hsubstitute

theorem inPlace_of_descending
    (h : ∀ positions, findParamPositions url = some positions →
      BinaryHeap.Descending UrlParam.start
        (positions.filter fun param => (data.get param.name).isSome)) :
    InPlace url data := by
  intro done param rest hpositions hparam
  have hdescending := h _ hpositions
  rw [List.filter_append, BinaryHeap.Descending, List.pairwise_append] at hdescending
  have hwritten : ∀ other ∈ done.filter (·.start < param.start),
      written data other = other.width := by
    intro other hother
    obtain ⟨hmem, hlt⟩ := List.mem_filter.mp hother
    rw [written]
    cases hget : data.get other.name with
    | none => rfl
    | some value =>
      have hfirst := hdescending.2.2 other
        (List.mem_filter.mpr ⟨hmem, by rw [hget]; rfl⟩) param
        (List.mem_filter.mpr ⟨List.mem_cons_self, hparam⟩)
      exact absurd hfirst (Nat.lt_asymm (of_decide_eq_true hlt))
  exact congrArg List.sum (List.map_congr_left hwritten)

theorem inPlace_of_rightToLeft {members : List (String × Value)} {keys : List String}
    (hkeys : members.map Prod.fst = keys) (h : RightToLeft url keys) :
    InPlace url (.object members) := by
  refine inPlace_of_descending fun positions hpositions => (h positions hpositions).sublist ?_
  refine List.monotone_filter_right _ fun param hparam => ?_
  obtain ⟨value, hvalue⟩ := Option.isSome_iff_exists.mp hparam
  exact decide_eq_true (hkeys ▸ List.mem_map.mpr ⟨_, Json.mem_of_lookup hvalue, rfl⟩)

theorem inPlace_of_few (h : (paramMatches url).1.length ≤ 2 ∨ (paramMatches url).1.length = 4)
    (data : Value) : InPlace url data := by
  have hascending : BinaryHeap.Ascending UrlParam.start (paramsOf 0 (paramMatches url).1) :=
    ascending_paramsOf fun _ => named_of_mem_paramMatches
  refine inPlace_of_descending fun positions hpositions => ?_
  cases (findParamPositions_eq url).symm.trans hpositions
  exact ((BinaryHeap.descending_pushAll_iff hascending).mpr (by rwa [length_paramsOf])).filter _

def blank (width : Nat) : Value := .string (.ofList (List.replicate width ' '))

def blanks (keys : List String) (width : Nat) : Value :=
  .object (keys.map fun key => (key, blank width))

variable {keys : List String} {width : Nat} {params : List UrlParam} {result : List Char}

theorem get_blanks (keys : List String) (width : Nat) (name : String) :
    (blanks keys width).get name = if name ∈ keys then some (blank width) else none := by
  show (keys.map fun key => (key, blank width)).lookup name = _
  induction keys with
  | nil => rfl
  | cons key keys ih =>
    rw [List.map_cons, List.lookup_cons, ih]
    by_cases hkey : name = key
    · simp [hkey]
    · simp [hkey, beq_false_of_ne hkey]

theorem substituteParam_blanks (h : param.name ∈ keys) :
    substituteParam (blanks keys width) url param =
      replaceRange url param.start param.stop (List.replicate width ' ') := by
  simp [substituteParam, get_blanks, h, blank, paramText, Value.asStr]

theorem substituteParams_filter (keys : List String) (width : Nat) (params : List UrlParam)
    (url : List Char) :
    params.foldlM (substituteParam (blanks keys width)) url =
      (params.filter (·.name ∈ keys)).foldlM (substituteParam (blanks keys width)) url := by
  induction params generalizing url with
  | nil => rfl
  | cons param params ih =>
    by_cases hkey : param.name ∈ keys
    · simp only [List.filter_cons, hkey, decide_true, if_true, List.foldlM_cons, ih]
    · have hskip : substituteParam (blanks keys width) url param = some url := by
        simp [substituteParam, get_blanks, hkey]
      simp only [List.filter_cons, hkey, decide_false, Bool.false_eq_true, if_false,
        List.foldlM_cons, hskip, Option.bind_eq_bind, Option.bind_some, ih]

theorem count_substituteParam (h : param.name ∈ keys)
    (hresult : substituteParam (blanks keys width) url param = some result) :
    result.count ' ' ≤ url.count ' ' + width := by
  rw [substituteParam_blanks h] at hresult
  obtain ⟨front, middle, back, rfl, rfl, _, _⟩ := replaceRange_eq_some hresult
  simp only [List.count_append, List.count_replicate_self]
  omega

theorem count_substituteParams (h : ∀ param ∈ params, param.name ∈ keys)
    (hresult : params.foldlM (substituteParam (blanks keys width)) url = some result) :
    result.count ' ' ≤ url.count ' ' + params.length * width := by
  induction params generalizing url with
  | nil =>
    cases hresult
    simp
  | cons param params ih =>
    obtain ⟨hparam, hparams⟩ := List.forall_mem_cons.mp h
    rw [List.foldlM_cons] at hresult
    obtain ⟨next, hnext, hresult⟩ := Option.bind_eq_some_iff.mp hresult
    have hcount := count_substituteParam hparam hnext
    have hcounts := ih hparams hresult
    rw [List.length_cons, Nat.succ_mul]
    omega

theorem count_misplaced {first second : UrlParam} {next : List Char}
    (hfirst : first.name ∈ keys) (hsecond : second.name ∈ keys)
    (hle : first.start ≤ second.start) (hlt : second.start < second.stop)
    (hwidth : second.stop ≤ width)
    (hnext : substituteParam (blanks keys width) url first = some next)
    (hresult : substituteParam (blanks keys width) next second = some result) :
    result.count ' ' < url.count ' ' + 2 * width := by
  have hcount := count_substituteParam hfirst hnext
  rw [substituteParam_blanks hfirst] at hnext
  rw [substituteParam_blanks hsecond] at hresult
  obtain ⟨front, _, back, rfl, rfl, hfront, _⟩ := replaceRange_eq_some hnext
  obtain ⟨k, hk⟩ : ∃ k, second.start = first.start + k := ⟨_, (Nat.add_sub_cancel' hle).symm⟩
  obtain ⟨l, hl⟩ : ∃ l, second.stop = second.start + l :=
    ⟨_, (Nat.add_sub_cancel' (Nat.le_of_lt hlt)).symm⟩
  obtain ⟨r, rfl⟩ : ∃ r, width = k + (l + r) := ⟨width - k - l, by omega⟩
  have hsplit : front ++ List.replicate (k + (l + r)) ' ' ++ back =
      (front ++ List.replicate k ' ') ++
        (List.replicate l ' ' ++ (List.replicate r ' ' ++ back)) := by
    simp only [List.replicate_add, List.append_assoc]
  have hblank : ' '.utf8Size = 1 := rfl
  rw [hsplit, replaceRange_append (by simp [utf8Len_replicate, hblank, hfront, hk])
    (by simp [utf8Len_replicate, hblank, hl])] at hresult
  cases hresult
  simp only [List.count_append, List.count_replicate_self] at hcount ⊢
  omega

theorem map_name_paramsOf (offset : Nat) (found : List (List Char × Match)) :
    (paramsOf offset found).map UrlParam.name = found.map fun piece => paramName piece.2 := by
  induction found generalizing offset with
  | nil => rfl
  | cons piece found ih => simp [paramsOf, paramAt, ih]

theorem bounds_of_mem_paramsOf (hfound : ∀ piece ∈ found, Named piece.2)
    (h : param ∈ paramsOf offset found) :
    param.start < param.stop ∧ param.stop ≤
      offset + utf8Len (found.flatMap fun piece => piece.1 ++ piece.2.text) := by
  induction found generalizing offset with
  | nil => cases h
  | cons piece found ih =>
    obtain ⟨hm, hfound⟩ := List.forall_mem_cons.mp hfound
    have hpos := utf8Len_pos_of_named hm
    simp only [List.flatMap_cons, utf8Len_append]
    rcases List.mem_cons.mp h with rfl | h
    · simp only [paramAt]
      omega
    · obtain ⟨hlt, hle⟩ := ih hfound h
      simp only [paramAt] at hle
      exact ⟨hlt, by omega⟩

theorem count_text_of_named (hm : Named m) : m.text.count ' ' = 0 := by
  obtain ⟨name, htext, hname⟩ := hm
  rw [List.count_eq_zero, htext]
  intro hmem
  simp only [List.mem_cons, List.mem_append, List.not_mem_nil, or_false, Char.reduceEq, false_or]
    at hmem
  exact absurd (hname _ hmem) (by decide)

theorem count_substituted (hfound : ∀ piece ∈ found, Named piece.2) :
    (substituted (blanks keys width) found last).count ' ' =
      (found.flatMap (fun piece => piece.1 ++ piece.2.text) ++ last).count ' ' +
        (found.countP fun piece => paramName piece.2 ∈ keys) * width := by
  induction found with
  | nil => simp [substituted]
  | cons piece found ih =>
    obtain ⟨hm, hfound⟩ := List.forall_mem_cons.mp hfound
    have hrest := ih hfound
    have hzero : piece.2.text.count ' ' = 0 := count_text_of_named hm
    by_cases hkey : paramName piece.2 ∈ keys
    · have hreplacement : replacement (blanks keys width) piece.2 = List.replicate width ' ' := by
        simp [replacement, get_blanks, hkey, blank, paramText, Value.asStr]
      simp only [substituted, List.flatMap_cons, List.count_append, hreplacement,
        List.count_replicate_self, List.countP_cons, hkey, decide_true, if_true, Nat.succ_mul]
        at hrest ⊢
      omega
    · have hreplacement : replacement (blanks keys width) piece.2 = piece.2.text := by
        simp [replacement, get_blanks, hkey]
      simp only [substituted, List.flatMap_cons, List.count_append, hreplacement,
        List.countP_cons, hkey, decide_false, Bool.false_eq_true, if_false, Nat.add_zero]
        at hrest ⊢
      omega

theorem count_out_of_order {before after : List UrlParam} {first second : UrlParam}
    (hkeys : ∀ param ∈ before ++ first :: second :: after, param.name ∈ keys)
    (hle : first.start ≤ second.start) (hlt : second.start < second.stop)
    (hwidth : second.stop ≤ width)
    (hresult : (before ++ first :: second :: after).foldlM
      (substituteParam (blanks keys width)) url = some result) :
    result.count ' ' < url.count ' ' + (before ++ first :: second :: after).length * width := by
  obtain ⟨hbefore, hkeys⟩ := List.forall_mem_append.mp hkeys
  obtain ⟨hfirst, hkeys⟩ := List.forall_mem_cons.mp hkeys
  obtain ⟨hsecond, hafter⟩ := List.forall_mem_cons.mp hkeys
  rw [List.foldlM_append] at hresult
  obtain ⟨u, hu, hresult⟩ := Option.bind_eq_some_iff.mp hresult
  rw [List.foldlM_cons] at hresult
  obtain ⟨v, hv, hresult⟩ := Option.bind_eq_some_iff.mp hresult
  rw [List.foldlM_cons] at hresult
  obtain ⟨w, hw, hresult⟩ := Option.bind_eq_some_iff.mp hresult
  have hcount := count_substituteParams hbefore hu
  have hcount' := count_misplaced hfirst hsecond hle hlt hwidth hv hw
  have hcount'' := count_substituteParams hafter hresult
  simp only [List.length_append, List.length_cons, Nat.add_mul, Nat.succ_mul]
  omega

theorem not_substitutes_blanks (h : ¬ RightToLeft url keys) :
    ¬ Substitutes url (blanks keys (utf8Len url)) := by
  intro hsub
  have hnamed : ∀ piece ∈ (paramMatches url).1, Named piece.2 :=
    fun _ => named_of_mem_paramMatches
  have htext := (paramMatches_text url).trans (List.nil_append _)
  have hperm : (BinaryHeap.pushAll UrlParam.start (paramsOf 0 (paramMatches url).1)).Perm
    (paramsOf 0 (paramMatches url).1) := BinaryHeap.pushAll_perm
  simp only [RightToLeft, findParamPositions_eq, Option.some.injEq, forall_eq'] at h
  obtain ⟨before, first, second, after, horder, hle⟩ := BinaryHeap.exists_step_up h
  have hkeys : ∀ param ∈ before ++ first :: second :: after, param.name ∈ keys := by
    intro param hparam
    rw [← horder] at hparam
    exact of_decide_eq_true (List.mem_filter.mp hparam).2
  have hsecond : second ∈ paramsOf 0 (paramMatches url).1 := by
    refine hperm.mem_iff.mp (List.mem_of_mem_filter (p := fun param => param.name ∈ keys) ?_)
    rw [horder]
    simp
  obtain ⟨hlt, hstop⟩ := bounds_of_mem_paramsOf hnamed hsecond
  have hwidth : second.stop ≤ utf8Len url := by
    rw [htext, utf8Len_append]
    omega
  have hlength : (before ++ first :: second :: after).length =
      (paramMatches url).1.countP fun piece => paramName piece.2 ∈ keys := by
    rw [← horder, ← List.countP_eq_length_filter, hperm.countP_eq]
    have hnames := congrArg (List.countP (· ∈ keys)) (map_name_paramsOf 0 (paramMatches url).1)
    simpa only [List.countP_map, Function.comp_def] using hnames
  rw [Substitutes, findParamPositions_eq, Option.bind_some, substituteParamWithData,
    substituteParams_filter, horder] at hsub
  have hcount := count_out_of_order hkeys hle hlt hwidth hsub
  rw [count_substituted hnamed, ← htext, hlength] at hcount
  exact absurd hcount (Nat.lt_irrefl _)

theorem right_for_keys_iff (url : List Char) (keys : List String) :
    (∀ members : List (String × Value), members.map Prod.fst = keys →
        Substitutes url (.object members)) ↔ RightToLeft url keys := by
  constructor
  · intro h
    by_contra hnot
    refine not_substitutes_blanks hnot (h _ ?_)
    simp [Function.comp_def]
  · intro h members hkeys
    exact substitutes_of_inPlace (inPlace_of_rightToLeft hkeys h)

theorem rightToLeft_all_iff (url : List Char) :
    (∀ keys, RightToLeft url keys) ↔
      (paramMatches url).1.length ≤ 2 ∨ (paramMatches url).1.length = 4 := by
  have hascending : BinaryHeap.Ascending UrlParam.start (paramsOf 0 (paramMatches url).1) :=
    ascending_paramsOf fun _ => named_of_mem_paramMatches
  rw [← length_paramsOf 0, ← BinaryHeap.descending_pushAll_iff hascending]
  simp only [RightToLeft, findParamPositions_eq, Option.some.injEq, forall_eq']
  constructor
  · intro h
    have hall := h ((BinaryHeap.pushAll UrlParam.start
      (paramsOf 0 (paramMatches url).1)).map UrlParam.name)
    rwa [List.filter_eq_self.mpr fun param hparam =>
      decide_eq_true (List.mem_map_of_mem hparam)] at hall
  · exact fun h keys => h.filter _

def threeParams : List Char := "/{a}/{b}/{c}".toList

end Overload.Request
