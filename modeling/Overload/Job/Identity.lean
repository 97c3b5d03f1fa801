import Overload.Regex

namespace Overload.Job

open Regex

def isHex (c : Char) : Bool := c.isDigit || ('a' ≤ c && c ≤ 'f')

def hexDigits (n : Nat) : Regex := (char isHex).times n

def uuidRegex : Regex :=
  append (hexDigits 8) (append (just '-') (append (hexDigits 4) (append (just '-')
    (append (hexDigits 4) (append (just '-') (append (hexDigits 4) (append (just '-')
      (hexDigits 12))))))))

def suffixRegex : Regex := group (append (just '_') (plus true (char Char.isDigit)))

def idRegex : Regex := append (append uuidRegex (opt suffixRegex)) endOfText

def subIdRegex : Regex := append (append uuidRegex suffixRegex) endOfText

/-- What `Uuid::new_v4().to_string()` answers. -/
structure Uuid where
  text : String
  wellFormed : uuidRegex.accepts text.toList = true

def isWhitespace (c : Char) : Bool :=
  let n := c.toNat
  (0x9 ≤ n && n ≤ 0xd) || n == 0x20 || n == 0x85 || n == 0xa0 || n == 0x1680 ||
    (0x2000 ≤ n && n ≤ 0x200a) || n == 0x2028 || n == 0x2029 || n == 0x202f || n == 0x205f ||
    n == 0x3000

def trim (s : String) : String :=
  .ofList ((s.toList.dropWhile isWhitespace).reverse.dropWhile isWhitespace).reverse

def jobId (requestName : Option String) (fresh : Uuid) : String :=
  match requestName with
  | none => fresh.text
  | some n => if idRegex.isMatch n.toList then n else trim n ++ "-" ++ fresh.text

/-- The name that `handle_multi_request` gives its request number `idx`. -/
def subJobId (jobId : String) (idx : Nat) : String := jobId ++ "_" ++ toString idx

end Overload.Job

namespace Overload.Secondary

def jobId : Option String → Job.Uuid → String := Job.jobId

end Overload.Secondary

namespace Overload.Job

open Regex

variable {name : Option String} {u word digits : List Char}

def EndsInUuid (text : List Char) : Prop := ∃ before, ∃ u ∈ uuidRegex.language, before ++ u = text

theorem plain_hexDigits (n : Nat) : (hexDigits n).Plain := by
  induction n with
  | zero => trivial
  | succ n ih => exact ⟨trivial, ih⟩

theorem within_hexDigits {P : Char → Prop} (hP : ∀ c, isHex c = true → P c) (n : Nat) :
    (hexDigits n).Within P := by
  induction n with
  | zero => trivial
  | succ n ih => exact ⟨hP, ih⟩

theorem plain_uuidRegex : uuidRegex.Plain := by
  simp [uuidRegex, Plain, plain_hexDigits, just]

theorem underscore_notMem_uuid (hu : u ∈ uuidRegex.language) : '_' ∉ u := by
  have hhex : ∀ c, isHex c = true → c ≠ '_' := by
    rintro c hc rfl
    exact absurd hc (by decide)
  have hdash : ∀ c, (c == '-') = true → c ≠ '_' := by
    rintro c hc rfl
    exact absurd hc (by decide)
  have hwithin : uuidRegex.Within (· ≠ '_') := by
    simp only [uuidRegex, Within, just, within_hexDigits hhex, true_and, and_true, and_self]
    exact hdash
  exact fun hmem => forall_mem_of_mem_language hwithin hu _ hmem rfl

theorem dash_mem_uuid (hu : u ∈ uuidRegex.language) : '-' ∈ u := by
  obtain ⟨front, _, rest, hrest, rfl⟩ := Language.mem_mul.mp hu
  obtain ⟨_, ⟨c, hc, rfl⟩, others, _, rfl⟩ := Language.mem_mul.mp hrest
  obtain rfl : c = '-' := beq_iff_eq.mp hc
  simp

theorem mem_language_suffixRegex :
    word ∈ suffixRegex.language ↔
      ∃ digits, word = '_' :: digits ∧ digits ≠ [] ∧ ∀ c ∈ digits, c.isDigit = true := by
  rw [suffixRegex, language, language, Language.mem_mul]
  constructor
  · rintro ⟨_, ⟨c, hc, rfl⟩, digits, hdigits, rfl⟩
    obtain rfl : c = '_' := beq_iff_eq.mp hc
    exact ⟨digits, rfl, mem_language_plus_char.mp hdigits⟩
  · rintro ⟨digits, rfl, hdigits⟩
    exact ⟨['_'], ⟨'_', rfl, rfl⟩, digits, mem_language_plus_char.mpr hdigits, rfl⟩

theorem isMatch_subIdRegex {text : List Char} :
    subIdRegex.isMatch text = true ↔
      ∃ id, EndsInUuid id ∧ ∃ suffix ∈ suffixRegex.language, id ++ suffix = text := by
  rw [subIdRegex, isMatch_append_endOfText (by simp [Plain, plain_uuidRegex, suffixRegex, just,
    plus])]
  constructor
  · rintro ⟨before, _, ⟨u, hu, suffix, hsuffix, rfl⟩, rfl⟩
    exact ⟨before ++ u, ⟨before, u, hu, rfl⟩, suffix, hsuffix, List.append_assoc ..⟩
  · rintro ⟨_, ⟨before, u, hu, rfl⟩, suffix, hsuffix, rfl⟩
    exact ⟨before, u ++ suffix, Language.append_mem_mul hu hsuffix, (List.append_assoc ..).symm⟩

theorem isMatch_idRegex {text : List Char} :
    idRegex.isMatch text = true ↔ EndsInUuid text ∨ subIdRegex.isMatch text = true := by
  have hplain : (append uuidRegex (opt suffixRegex)).Plain := by
    simp [Plain, plain_uuidRegex, opt, suffixRegex, just, plus]
  have hplain' : (append uuidRegex suffixRegex).Plain := by
    simp [Plain, plain_uuidRegex, suffixRegex, just, plus]
  rw [idRegex, subIdRegex, isMatch_append_endOfText hplain, isMatch_append_endOfText hplain']
  simp only [opt, language, mul_add, mul_one, Language.mem_add, or_and_right, exists_or]
  exact or_comm

theorem underscore_notMem_digits (hdigits : ∀ c ∈ digits, c.isDigit = true) : '_' ∉ digits :=
  fun h => absurd (hdigits _ h) (by decide)

theorem eq_of_append_suffix_eq {id id' suffix suffix' : List Char}
    (hsuffix : suffix ∈ suffixRegex.language) (hsuffix' : suffix' ∈ suffixRegex.language)
    (h : id ++ suffix = id' ++ suffix') : id = id' := by
  obtain ⟨digits, rfl, _, hdigits⟩ := mem_language_suffixRegex.mp hsuffix
  obtain ⟨digits', rfl, _, hdigits'⟩ := mem_language_suffixRegex.mp hsuffix'
  obtain ⟨_ | ⟨c, mid⟩, rfl, hmid⟩ | ⟨_ | ⟨c, mid⟩, rfl, hmid⟩ := List.append_eq_append_iff.mp h
  · exact (List.append_nil id).symm
  · obtain ⟨_, rfl⟩ := List.cons.inj hmid
    exact absurd (by simp) (underscore_notMem_digits hdigits)
  · exact List.append_nil id'
  · obtain ⟨_, rfl⟩ := List.cons.inj hmid
    exact absurd (by simp) (underscore_notMem_digits hdigits')

theorem not_endsInUuid_append {id suffix : List Char} (hsuffix : suffix ∈ suffixRegex.language) :
    ¬ EndsInUuid (id ++ suffix) := by
  rintro ⟨before, u, hu, heq⟩
  obtain ⟨digits, rfl, _, hdigits⟩ := mem_language_suffixRegex.mp hsuffix
  obtain ⟨mid, rfl, rfl⟩ | ⟨mid, rfl, hmid⟩ := List.append_eq_append_iff.mp heq
  · -- the suffix is inside the id, which has no underscore
    exact underscore_notMem_uuid hu (by simp)
  · cases mid with
    | nil =>
      obtain rfl : '_' :: digits = u := hmid
      exact underscore_notMem_uuid hu List.mem_cons_self
    | cons c mid =>
      -- the id is among the digits of the suffix, and has a dash
      obtain ⟨rfl, rfl⟩ := List.cons.inj hmid
      have hdash := hdigits '-' (List.mem_append_right _ (dash_mem_uuid hu))
      exact absurd hdash (by decide)

theorem not_isMatch_subIdRegex_of_endsInUuid {text : List Char} (h : EndsInUuid text) :
    ¬ subIdRegex.isMatch text = true := by
  intro hsub
  obtain ⟨id, _, suffix, hsuffix, rfl⟩ := isMatch_subIdRegex.mp hsub
  exact not_endsInUuid_append hsuffix h

theorem endsInUuid_append (before : List Char) (fresh : Uuid) :
    EndsInUuid (before ++ fresh.text.toList) :=
  ⟨before, _, (accepts_iff plain_uuidRegex).mp fresh.wellFormed, rfl⟩

theorem mem_language_suffix_toString (idx : Nat) :
    "_".toList ++ (toString idx).toList ∈ suffixRegex.language := by
  rw [mem_language_suffixRegex, Nat.toString_eq_repr, Nat.toList_repr]
  exact ⟨Nat.toDigits 10 idx, rfl, Nat.toDigits_ne_nil,
    fun c hc => Nat.isDigit_of_mem_toDigits (by decide) (by decide) hc⟩

theorem isMatch_idRegex_jobId (name : Option String) (fresh : Uuid) :
    idRegex.isMatch (jobId name fresh).toList = true := by
  cases name with
  | none => exact isMatch_idRegex.mpr (.inl (endsInUuid_append [] fresh))
  | some n =>
    by_cases hn : idRegex.isMatch n.toList = true
    · rwa [jobId, if_pos hn]
    · rw [jobId, if_neg hn, String.toList_append]
      exact isMatch_idRegex.mpr (.inl (endsInUuid_append _ fresh))

def KeepsId (id : String) : Prop :=
  ∀ fresh, jobId (some id) fresh = id ∧ Secondary.jobId (some id) fresh = id

theorem keepsId_iff (fresh : Uuid) {id : String} :
    KeepsId id ↔ idRegex.isMatch id.toList = true := by
  constructor
  · intro h
    rw [← (h fresh).1]
    exact isMatch_idRegex_jobId _ _
  · intro h fresh
    exact ⟨if_pos h, if_pos h⟩

theorem keepsId_subJobId_iff (fresh : Uuid) {id : String} {idx : Nat} :
    KeepsId (subJobId id idx) ↔ EndsInUuid id.toList := by
  have hsuffix := mem_language_suffix_toString idx
  rw [keepsId_iff fresh, subJobId, String.toList_append, String.toList_append, List.append_assoc,
    isMatch_idRegex, or_iff_right (not_endsInUuid_append hsuffix), isMatch_subIdRegex]
  constructor
  · rintro ⟨id', hid', suffix, hsuffix', heq⟩
    rwa [← eq_of_append_suffix_eq hsuffix' hsuffix heq]
  · intro hid
    exact ⟨_, hid, _, hsuffix, rfl⟩

theorem endsInUuid_jobId_iff (name : Option String) (fresh : Uuid) :
    EndsInUuid (jobId name fresh).toList ↔ ∀ n ∈ name, subIdRegex.isMatch n.toList = false := by
  cases name with
  | none => exact iff_of_true (endsInUuid_append [] fresh) (by simp)
  | some n =>
    simp only [Option.mem_some_iff, forall_eq', Bool.eq_false_iff]
    by_cases hn : idRegex.isMatch n.toList = true
    · rw [jobId, if_pos hn]
      refine ⟨not_isMatch_subIdRegex_of_endsInUuid, fun hsub => ?_⟩
      exact (isMatch_idRegex.mp hn).resolve_right hsub
    · rw [jobId, if_neg hn, String.toList_append]
      refine iff_of_true (endsInUuid_append _ fresh) fun hsub => hn ?_
      exact isMatch_idRegex.mpr (.inr hsub)

/-- A job and its sub-jobs keep their ids when the ids are computed again, unless the job was
given the name of a sub-job: `job_id` leaves such a name as it is, and its expression knows
no id with two suffixes. -/
theorem ids_are_fixed_points_iff (name : Option String) (fresh : Uuid) :
    (KeepsId (jobId name fresh) ∧ ∀ idx, KeepsId (subJobId (jobId name fresh) idx)) ↔
      ∀ n ∈ name, subIdRegex.isMatch n.toList = false := by
  rw [← endsInUuid_jobId_iff name fresh]
  simp only [keepsId_subJobId_iff fresh, forall_const]
  exact and_iff_right ((keepsId_iff fresh).mpr (isMatch_idRegex_jobId name fresh))

def exampleUuid : Uuid := ⟨"7e19ae6b-59af-4916-8cc0-a04cc48a739b", by decide⟩

theorem subJob_of_subJob_renamed :
    jobId (some "multi-req-7e19ae6b-59af-4916-8cc0-a04cc48a739b_0") exampleUuid =
        "multi-req-7e19ae6b-59af-4916-8cc0-a04cc48a739b_0" ∧
      Secondary.jobId (some (subJobId "multi-req-7e19ae6b-59af-4916-8cc0-a04cc48a739b_0" 1))
          exampleUuid =
        "multi-req-7e19ae6b-59af-4916-8cc0-a04cc48a739b_0_1-7e19ae6b-59af-4916-8cc0-a04cc48a739b"
      ∧ ¬ ∀ idx, KeepsId (subJobId
          (jobId (some "multi-req-7e19ae6b-59af-4916-8cc0-a04cc48a739b_0") exampleUuid) idx) := by
  refine ⟨by decide +kernel, by decide +kernel, fun h => ?_⟩
  have hkeeps := (h 1 exampleUuid).2
  revert hkeeps
  decide +kernel

end Overload.Job
