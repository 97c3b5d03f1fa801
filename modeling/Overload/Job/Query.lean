import Mathlib.Data.List.TakeWhile
import Overload.FormUrlencoded
import Overload.Job.Pages

namespace Overload.Job

open FormUrlencoded

inductive ParseIntError
  | empty
  | invalidDigit
  | posOverflow
  deriving DecidableEq, Repr

def ParseIntError.message : ParseIntError → String
  | .empty => "cannot parse integer from empty string"
  | .invalidDigit => "invalid digit found in string"
  | .posOverflow => "number too large to fit in target type"

def parseDigits : Nat → List Char → Except ParseIntError Nat
  | n, [] => .ok n
  | n, c :: digits =>
    if c.isDigit then
      if 10 * n + (c.toNat - '0'.toNat) < 2 ^ 64 then
        parseDigits (10 * n + (c.toNat - '0'.toNat)) digits
      else .error .posOverflow
    else .error .invalidDigit

def parseUsize (text : String) : Except ParseIntError Nat :=
  match text.toList with
  | [] => .error .empty
  | ['+'] => .error .invalidDigit
  | '+' :: digits => parseDigits 0 digits
  | digits => parseDigits 0 digits

structure GenericError where
  message : String
  errorCode : UInt16
  deriving DecidableEq, Repr

inductive JobStatusQueryParams
  | jobId (jobId : String)
  | pagerOptions (offset limit : Nat)
  deriving DecidableEq, Repr

abbrev Params := Std.ExtTreeMap String String

namespace JobStatusQueryParams

def fmt : JobStatusQueryParams → String
  | .jobId id => "job_id=" ++ id
  | .pagerOptions offset limit => "offset=" ++ toString offset ++ "&limit=" ++ toString limit

def tryPagerOptions (value : Params) : Except GenericError (JobStatusQueryParams × Params) := do
  let offset := value["offset"]?.getD "0"
  let value := value.erase "offset"
  let offset ← (parseUsize offset).mapError fun e =>
    ⟨"Invalid offset " ++ offset ++ ", " ++ e.message, 400⟩
  let limit := value["limit"]?.getD "20"
  let value := value.erase "limit"
  -- the message about the limit has the offset in it
  let limit ← (parseUsize limit).mapError fun e =>
    ⟨"Invalid limit " ++ toString offset ++ ", " ++ e.message, 400⟩
  if limit < 1 then throw ⟨"limit can't be less than 1", 400⟩
  return (.pagerOptions offset limit, value)

def tryFrom (value : Params) : Except GenericError JobStatusQueryParams := do
  let (params, value) ←
    match value["job_id"]? with
    | some id => pure (JobStatusQueryParams.jobId id, value.erase "job_id")
    | none => tryPagerOptions (value.erase "job_id")
  if value.isEmpty then return params else throw ⟨"Invalid or too many query params", 400⟩

end JobStatusQueryParams

/-- The texts that can be the query of a uri, with a fragment that is cut off.  The length of
an uri is limited, so not every text of letters can be one. -/
structure UriGrammar where
  accepts : List Char → Bool
  accepts_short : ∀ query, query.length ≤ 60 →
    (∀ c ∈ query, c.isAlphanum = true ∨ c = '=' ∨ c = '&') → accepts query = true

namespace UriGrammar

variable (grammar : UriGrammar)

def carry (query : String) : Option (List Char) :=
  if grammar.accepts query.toList then some (query.toList.takeWhile (· ≠ '#')) else none

def queryMap (query : List Char) : Params :=
  .ofList ((parse query).map fun pair => (String.ofList pair.1, String.ofList pair.2))

/-- What the primary reads of a query that `forward_get_status_request` forwards; none if
there is no request. -/
def forward (params : JobStatusQueryParams) : Option (Except GenericError JobStatusQueryParams) :=
  (grammar.carry params.fmt).map fun query => JobStatusQueryParams.tryFrom (queryMap query)

/-- The id is free text: it must not be cut, split or rewritten. -/
def Survives : JobStatusQueryParams → Prop
  | .jobId jobId => grammar.accepts (JobStatusQueryParams.jobId jobId).fmt.toList = true ∧
    '#' ∉ jobId.toList ∧ '&' ∉ jobId.toList ∧ '+' ∉ jobId.toList ∧ ¬ HasEscape jobId.toList
  | .pagerOptions _ _ => True

end UriGrammar

theorem le_ofDigitChars (digits : List Char) (n : Nat) : n ≤ Nat.ofDigitChars 10 digits n := by
  induction digits generalizing n with
  | nil => exact Nat.le_refl _
  | cons c digits ih =>
    rw [Nat.ofDigitChars_cons]
    exact Nat.le_trans (by omega) (ih _)

theorem parseDigits_eq {digits : List Char} (hdigits : ∀ c ∈ digits, c.isDigit = true) (n : Nat)
    (h : Nat.ofDigitChars 10 digits n < 2 ^ 64) :
    parseDigits n digits = .ok (Nat.ofDigitChars 10 digits n) := by
  induction digits generalizing n with
  | nil => rfl
  | cons c digits ih =>
    obtain ⟨hc, hdigits⟩ := List.forall_mem_cons.mp hdigits
    rw [Nat.ofDigitChars_cons] at h ⊢
    have hle := le_ofDigitChars digits (10 * n + (c.toNat - '0'.toNat))
    rw [parseDigits, if_pos hc, if_pos (by omega), ih hdigits _ h]

theorem isDigit_toDigits (n : Nat) : ∀ c ∈ Nat.toDigits 10 n, c.isDigit = true :=
  fun _ hc => Nat.isDigit_of_mem_toDigits (by decide) (by decide) hc

theorem parseUsize_toString {n : Nat} (hn : n < 2 ^ 64) : parseUsize (toString n) = .ok n := by
  have hvalue : Nat.ofDigitChars 10 (Nat.toDigits 10 n) 0 = n :=
    Nat.ofDigitChars_toDigits (by decide) (by decide)
  have hparse : parseDigits 0 (Nat.toDigits 10 n) = .ok n := by
    rw [parseDigits_eq (isDigit_toDigits n) 0 (by rwa [hvalue]), hvalue]
  rw [parseUsize, Nat.toString_eq_ofList_toDigits, String.toList_ofList]
  have hplus : '+' ∉ Nat.toDigits 10 n :=
    fun h => absurd (isDigit_toDigits n _ h) (by decide)
  split
  · rename_i heq
    exact absurd heq Nat.toDigits_ne_nil
  · rename_i heq
    exact absurd (heq ▸ List.mem_cons_self) hplus
  · rename_i heq
    exact absurd (heq ▸ List.mem_cons_self) hplus
  · exact hparse

theorem lt_of_parseDigits {digits : List Char} {n m : Nat} (hn : n < 2 ^ 64)
    (h : parseDigits n digits = .ok m) : m < 2 ^ 64 := by
  induction digits generalizing n with
  | nil =>
    cases h
    exact hn
  | cons c digits ih =>
    rw [parseDigits] at h
    split at h
    · split at h
      · rename_i hlt
        exact ih hlt h
      · cases h
    · cases h

theorem lt_of_parseUsize {text : String} {n : Nat} (h : parseUsize text = .ok n) :
    n < 2 ^ 64 := by
  unfold parseUsize at h
  split at h
  · cases h
  · cases h
  · exact lt_of_parseDigits (by decide) h
  · exact lt_of_parseDigits (by decide) h

namespace JobStatusQueryParams

variable {value rest : Params} {params : JobStatusQueryParams}

theorem tryPagerOptions_eq_ok (h : tryPagerOptions value = .ok (params, rest)) :
    ∃ offset limit, params = .pagerOptions offset limit ∧ offset < 2 ^ 64 ∧ limit < 2 ^ 64 ∧
      1 ≤ limit := by
  unfold tryPagerOptions at h
  cases hoffset : parseUsize (value["offset"]?.getD "0") with
  | error e => simp [hoffset, Except.mapError, bind, Except.bind] at h
  | ok offset =>
    cases hlimit : parseUsize ((value.erase "offset")["limit"]?.getD "20") with
    | error e => simp [hoffset, hlimit, Except.mapError, bind, Except.bind] at h
    | ok limit =>
      simp only [hoffset, hlimit, Except.mapError, bind, Except.bind] at h
      split at h
      · cases h
      · rename_i hone
        cases h
        exact ⟨offset, limit, rfl, lt_of_parseUsize hoffset, lt_of_parseUsize hlimit, by omega⟩

theorem tryFrom_eq_ok (h : tryFrom value = .ok params) :
    (∃ id, value["job_id"]? = some id ∧ params = .jobId id) ∨
      ∃ offset limit, params = .pagerOptions offset limit ∧ offset < 2 ^ 64 ∧ limit < 2 ^ 64 ∧
        1 ≤ limit := by
  unfold tryFrom at h
  split at h
  · rename_i id hid
    simp only [pure, Except.pure, bind, Except.bind] at h
    split at h
    · cases h
      exact .inl ⟨id, hid, rfl⟩
    · cases h
  · cases hpager : tryPagerOptions (value.erase "job_id") with
    | error e => simp [hpager, bind, Except.bind] at h
    | ok result =>
      obtain ⟨params', rest⟩ := result
      simp only [hpager, bind, Except.bind] at h
      split at h
      · cases h
        exact .inr (tryPagerOptions_eq_ok hpager)
      · cases h

theorem getElem?_of_tryFrom {id : String} (h : tryFrom value = .ok (.jobId id)) :
    value["job_id"]? = some id := by
  obtain ⟨id', hid, heq⟩ | ⟨_, _, heq, _⟩ := tryFrom_eq_ok h
  · cases heq
    exact hid
  · cases heq

theorem bounds_of_tryFrom {offset limit : Nat}
    (h : tryFrom value = .ok (.pagerOptions offset limit)) :
    offset < 2 ^ 64 ∧ limit < 2 ^ 64 ∧ 1 ≤ limit := by
  obtain ⟨_, _, heq⟩ | ⟨_, _, heq, hbounds⟩ := tryFrom_eq_ok h
  · cases heq
  · cases heq
    exact hbounds

theorem mem_ofList_string {pairs : List (String × String)} {k : String} :
    k ∈ (Std.ExtTreeMap.ofList pairs : Params) ↔ k ∈ pairs.map Prod.fst := by
  rw [Std.ExtTreeMap.mem_ofList, List.contains_iff_mem]

theorem tryFrom_single (id : String) :
    tryFrom (.ofList [("job_id", id)]) = .ok (.jobId id) := by
  have hget : (Std.ExtTreeMap.ofList [("job_id", id)] : Params)["job_id"]? = some id :=
    Std.ExtTreeMap.getElem?_ofList_of_mem Std.ReflCmp.compare_self (by simp) (by simp)
  have hempty : ((Std.ExtTreeMap.ofList [("job_id", id)] : Params).erase "job_id").isEmpty := by
    rw [Std.ExtTreeMap.isEmpty_iff, Std.ExtTreeMap.eq_empty_iff_forall_not_mem]
    intro k hk
    rw [Std.ExtTreeMap.mem_erase, mem_ofList_string] at hk
    simp only [List.map_cons, List.map_nil, List.mem_singleton] at hk
    obtain ⟨hne, rfl⟩ := hk
    exact hne rfl
  simp only [tryFrom, hget, pure, Except.pure, bind, Except.bind, hempty, if_true]

theorem tryFrom_pager {offset limit : Nat} (hoffset : offset < 2 ^ 64) (hlimit : limit < 2 ^ 64)
    (hone : 1 ≤ limit) :
    tryFrom (.ofList [("offset", toString offset), ("limit", toString limit)]) =
      .ok (.pagerOptions offset limit) := by
  generalize hvalue : (Std.ExtTreeMap.ofList
    [("offset", toString offset), ("limit", toString limit)] : Params) = value
  have hmem : ∀ k, k ∈ value ↔ k = "offset" ∨ k = "limit" := by
    intro k
    rw [← hvalue, mem_ofList_string]
    simp
  have hjob : value["job_id"]? = none :=
    Std.ExtTreeMap.getElem?_eq_none (by rw [hmem]; decide)
  have hdistinct : [("offset", toString offset), ("limit", toString limit)].Pairwise
      fun a b => ¬ compare a.1 b.1 = .eq := by
    simp
  have hget : value["offset"]? = some (toString offset) := by
    rw [← hvalue]
    exact Std.ExtTreeMap.getElem?_ofList_of_mem Std.ReflCmp.compare_self hdistinct (by simp)
  have hget' : value["limit"]? = some (toString limit) := by
    rw [← hvalue]
    exact Std.ExtTreeMap.getElem?_ofList_of_mem Std.ReflCmp.compare_self hdistinct (by simp)
  have hempty : (((value.erase "job_id").erase "offset").erase "limit").isEmpty := by
    rw [Std.ExtTreeMap.isEmpty_iff, Std.ExtTreeMap.eq_empty_iff_forall_not_mem]
    intro k hk
    simp only [Std.ExtTreeMap.mem_erase, hmem] at hk
    obtain ⟨hne, hne', -, rfl | rfl⟩ := hk
    · exact hne' rfl
    · exact hne rfl
  have hpager : tryPagerOptions (value.erase "job_id") =
      .ok (.pagerOptions offset limit, ((value.erase "job_id").erase "offset").erase "limit") := by
    have hoffset' : (value.erase "job_id")["offset"]? = some (toString offset) := by
      rw [Std.ExtTreeMap.getElem?_erase, if_neg (by decide), hget]
    have hlimit' : ((value.erase "job_id").erase "offset")["limit"]? = some (toString limit) := by
      rw [Std.ExtTreeMap.getElem?_erase, if_neg (by decide), Std.ExtTreeMap.getElem?_erase,
        if_neg (by decide), hget']
    simp only [tryPagerOptions, hoffset', hlimit', Option.getD_some, parseUsize_toString hoffset,
      parseUsize_toString hlimit, Except.mapError, bind, Except.bind,
      if_neg (show ¬ limit < 1 by omega), pure, Except.pure]
  simp only [tryFrom, hjob, hpager, bind, Except.bind, hempty, if_true, pure, Except.pure]

end JobStatusQueryParams

namespace UriGrammar

variable {grammar : UriGrammar}

theorem mem_of_getElem?_insertMany {pairs : List (String × String)} {params : Params}
    {k v : String} (h : (params.insertMany pairs)[k]? = some v) :
    (k, v) ∈ pairs ∨ params[k]? = some v := by
  induction pairs generalizing params with
  | nil => exact .inr h
  | cons pair pairs ih =>
    obtain ⟨k', v'⟩ := pair
    rw [Std.ExtTreeMap.insertMany_cons] at h
    rcases ih h with hmem | hget
    · exact .inl (List.mem_cons_of_mem _ hmem)
    · rw [Std.ExtTreeMap.getElem?_insert] at hget
      split at hget
      · rename_i heq
        cases hget
        obtain rfl := Std.LawfulEqCmp.eq_of_compare heq
        exact .inl List.mem_cons_self
      · exact .inr hget

theorem mem_parse_of_queryMap {query : List Char} {k v : String}
    (h : (queryMap query)[k]? = some v) : (k.toList, v.toList) ∈ parse query := by
  rw [queryMap, Std.ExtTreeMap.ofList_eq_insertMany_empty] at h
  rcases mem_of_getElem?_insertMany h with hmem | hempty
  · obtain ⟨pair, hpair, heq⟩ := List.mem_map.mp hmem
    cases heq
    rwa [String.toList_ofList, String.toList_ofList]
  · simp at hempty

theorem carry_jobId (id : String) :
    grammar.carry (JobStatusQueryParams.jobId id).fmt =
      if grammar.accepts (JobStatusQueryParams.jobId id).fmt.toList then
        some ("job_id".toList ++ '=' :: id.toList.takeWhile (· ≠ '#'))
      else none := by
  have htext : (JobStatusQueryParams.jobId id).fmt.toList =
      "job_id".toList ++ '=' :: id.toList := by
    rw [JobStatusQueryParams.fmt, String.toList_append]
    rfl
  have htake : (JobStatusQueryParams.jobId id).fmt.toList.takeWhile (· ≠ '#') =
      "job_id".toList ++ '=' :: id.toList.takeWhile (· ≠ '#') := by
    rw [htext]
    rfl
  rw [carry, htake]

theorem forward_jobId_iff (id : String) :
    grammar.forward (.jobId id) = some (.ok (.jobId id)) ↔ grammar.Survives (.jobId id) := by
  have hname : '=' ∉ "job_id".toList := by decide
  have hamp : '&' ∉ "job_id".toList := by decide
  rw [forward, carry_jobId, Survives]
  cases haccepts : grammar.accepts (JobStatusQueryParams.jobId id).fmt.toList with
  | false => simp
  | true =>
    simp only [if_true, Option.map_some, Option.some.injEq, true_and]
    constructor
    · intro h
      have hmem := mem_parse_of_queryMap (JobStatusQueryParams.getElem?_of_tryFrom h)
      obtain ⟨w, hw, hcases⟩ := mem_parse_pair hname hamp hmem
      have hprefix := List.takeWhile_prefix (l := id.toList) (· ≠ '#')
      have hlength := hprefix.length_le
      have hdecode := length_decode_le w
      rw [← hw] at hdecode
      rcases hcases with ⟨rfl, hvalue⟩ | hshort
      · have hwhole := hprefix.eq_of_length_le hdecode
        rw [hwhole] at hw hvalue
        refine ⟨fun hmem => ?_, hvalue, decode_eq_self.mp hw.symm⟩
        exact of_decide_eq_true (List.takeWhile_eq_self_iff.mp hwhole _ hmem) rfl
      · omega
    · rintro ⟨hhash, hvalue, hself⟩
      have hwhole : id.toList.takeWhile (· ≠ '#') = id.toList :=
        List.takeWhile_eq_self_iff.mpr fun c hc => decide_eq_true fun h => hhash (h ▸ hc)
      have hparse : parse ("job_id".toList ++ '=' :: id.toList) =
          [("job_id".toList, id.toList)] := by
        rw [parse_segment (by simp [hvalue]) (by simp), pair_append hname,
          decode_eq_self.mpr hself, decode_eq_of_isWord (by decide)]
      rw [hwhole, queryMap, hparse, List.map_singleton, String.ofList_toList,
        String.ofList_toList]
      exact JobStatusQueryParams.tryFrom_single id

theorem toList_fmt_pager (offset limit : Nat) :
    (JobStatusQueryParams.pagerOptions offset limit).fmt.toList =
      ("offset".toList ++ '=' :: Nat.toDigits 10 offset) ++
        '&' :: ("limit".toList ++ '=' :: Nat.toDigits 10 limit) := by
  have hdigits : ∀ n : Nat, (toString n).toList = Nat.toDigits 10 n := fun n => by
    rw [Nat.toString_eq_ofList_toDigits, String.toList_ofList]
  rw [JobStatusQueryParams.fmt, String.toList_append, String.toList_append, String.toList_append,
    hdigits, hdigits, List.append_assoc]
  rfl

theorem isAlphanum_toDigits (n : Nat) : ∀ c ∈ Nat.toDigits 10 n, c.isAlphanum = true := by
  intro c hc
  rw [Char.isAlphanum, isDigit_toDigits n c hc, Bool.or_true]

theorem length_toDigits_le {n : Nat} (hn : n < 2 ^ 64) : (Nat.toDigits 10 n).length ≤ 20 :=
  (Nat.length_toDigits_le_iff (by decide) (by decide)).mpr (Nat.lt_trans hn (by decide))

theorem plain_fmt_pager (offset limit : Nat) :
    ∀ c ∈ (JobStatusQueryParams.pagerOptions offset limit).fmt.toList,
      c.isAlphanum = true ∨ c = '=' ∨ c = '&' := by
  have hoffset : "offset".toList.all Char.isAlphanum = true := by decide
  have hlimit : "limit".toList.all Char.isAlphanum = true := by decide
  intro c hc
  rw [toList_fmt_pager] at hc
  simp only [List.mem_append, List.mem_cons] at hc
  rcases hc with (hc | rfl | hc) | rfl | hc | rfl | hc
  · exact .inl (List.all_eq_true.mp hoffset c hc)
  · exact .inr (.inl rfl)
  · exact .inl (isAlphanum_toDigits offset c hc)
  · exact .inr (.inr rfl)
  · exact .inl (List.all_eq_true.mp hlimit c hc)
  · exact .inr (.inl rfl)
  · exact .inl (isAlphanum_toDigits limit c hc)

theorem carry_pager {offset limit : Nat} (hoffset : offset < 2 ^ 64) (hlimit : limit < 2 ^ 64) :
    grammar.carry (JobStatusQueryParams.pagerOptions offset limit).fmt =
      some (JobStatusQueryParams.pagerOptions offset limit).fmt.toList := by
  have hplain := plain_fmt_pager offset limit
  have hlength : (JobStatusQueryParams.pagerOptions offset limit).fmt.toList.length ≤ 60 := by
    have := length_toDigits_le hoffset
    have := length_toDigits_le hlimit
    rw [toList_fmt_pager]
    simp
    omega
  have hwhole : (JobStatusQueryParams.pagerOptions offset limit).fmt.toList.takeWhile (· ≠ '#') =
      (JobStatusQueryParams.pagerOptions offset limit).fmt.toList := by
    refine List.takeWhile_eq_self_iff.mpr fun c hc => decide_eq_true ?_
    rintro rfl
    exact absurd (hplain _ hc) (by decide)
  rw [carry, if_pos (grammar.accepts_short _ hlength hplain), hwhole]

theorem parse_pager (offset limit : Nat) :
    parse (JobStatusQueryParams.pagerOptions offset limit).fmt.toList =
      [("offset".toList, Nat.toDigits 10 offset), ("limit".toList, Nat.toDigits 10 limit)] := by
  have hdecode : ∀ n, decode (Nat.toDigits 10 n) = Nat.toDigits 10 n :=
    fun n => decode_eq_of_isWord (List.all_eq_true.mpr fun c hc => by
      rw [isWord, isAlphanum_toDigits n c hc, Bool.true_or])
  have hamp : ∀ n, '&' ∉ Nat.toDigits 10 n :=
    fun n h => absurd (isDigit_toDigits n _ h) (by decide)
  rw [toList_fmt_pager, parse_append (by simp [hamp]) (by simp),
    parse_segment (by simp [hamp]) (by simp), pair_append (by decide), pair_append (by decide),
    hdecode, hdecode, decode_eq_of_isWord (by decide), decode_eq_of_isWord (by decide)]

theorem forward_pager {offset limit : Nat} (hoffset : offset < 2 ^ 64) (hlimit : limit < 2 ^ 64)
    (hone : 1 ≤ limit) :
    grammar.forward (.pagerOptions offset limit) = some (.ok (.pagerOptions offset limit)) := by
  have htext : ∀ n : Nat, String.ofList (Nat.toDigits 10 n) = toString n :=
    fun n => Nat.toString_eq_ofList_toDigits.symm
  rw [forward, carry_pager hoffset hlimit, Option.map_some, queryMap, parse_pager]
  simp only [List.map_cons, List.map_nil, String.ofList_toList, htext]
  rw [JobStatusQueryParams.tryFrom_pager hoffset hlimit hone]

/-- A status query that was accepted reaches the primary as it is exactly if it asks for a
page, or for a job whose id can be put into a uri as it is. -/
theorem forward_eq_self_iff (grammar : UriGrammar) {value : Params}
    {params : JobStatusQueryParams} (h : JobStatusQueryParams.tryFrom value = .ok params) :
    grammar.forward params = some (.ok params) ↔ grammar.Survives params := by
  cases params with
  | jobId id => exact forward_jobId_iff id
  | pagerOptions offset limit =>
    obtain ⟨hoffset, hlimit, hone⟩ := JobStatusQueryParams.bounds_of_tryFrom h
    exact iff_of_true (forward_pager hoffset hlimit hone) trivial

def lenient : UriGrammar where
  accepts _ := true
  accepts_short _ _ _ := rfl

theorem forward_eq_self_iff_job :
    JobStatusQueryParams.tryFrom (.ofList [("job_id", "smoke")]) = .ok (.jobId "smoke") ∧
      lenient.forward (.jobId "smoke") = some (.ok (.jobId "smoke")) := by
  have hread := JobStatusQueryParams.tryFrom_single "smoke"
  refine ⟨hread, (forward_eq_self_iff lenient hread).mpr ⟨rfl, by decide, by decide, by decide, ?_⟩⟩
  exact fun h => absurd (percent_mem_of_hasEscape h) (by decide)

theorem forward_plus :
    JobStatusQueryParams.tryFrom (.ofList [("job_id", "a+b")]) = .ok (.jobId "a+b") ∧
      lenient.forward (.jobId "a+b") = some (.ok (.jobId "a b")) := by
  refine ⟨JobStatusQueryParams.tryFrom_single "a+b", ?_⟩
  have hescape : ¬ HasEscape "a b".toList :=
    fun h => absurd (percent_mem_of_hasEscape h) (by decide)
  have hdecode : decode "a+b".toList = "a b".toList := utf8Lossy_percentDecode hescape
  have hparse : parse ("job_id".toList ++ '=' :: "a+b".toList) =
      [("job_id".toList, "a b".toList)] := by
    rw [parse_segment (by decide) (by decide), pair_append (by decide), hdecode,
      decode_eq_of_isWord (by decide)]
  have hcarry : lenient.carry (JobStatusQueryParams.jobId "a+b").fmt =
      some ("job_id".toList ++ '=' :: "a+b".toList) := rfl
  rw [forward, hcarry, Option.map_some, queryMap, hparse, List.map_singleton,
    String.ofList_toList, String.ofList_toList, JobStatusQueryParams.tryFrom_single]

end UriGrammar

def handleGetStatus (params : JobStatusQueryParams) (statusAll : StatusMap) : Option Page :=
  match params with
  | .jobId jobId => getJobStatus (some jobId) 0 0 statusAll
  | .pagerOptions offset limit => getJobStatus none offset limit statusAll

end Overload.Job
