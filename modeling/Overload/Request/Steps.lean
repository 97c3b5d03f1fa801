import Overload.Request.RateSpec
import Overload.Tiling

namespace Overload.Request

open Json (Value)
open Serde
open Tiling

def StepShadowType.startsBefore (a b : StepShadowType) : Bool := a.start ≤ b.start

def sortedByStart (triples : List StepShadowType) : List StepShadowType :=
  triples.mergeSort StepShadowType.startsBefore

structure Contiguous (triples : List StepShadowType) : Prop where
  head : ∀ first ∈ triples.head?, first.start = 0
  chain : triples.IsChain fun a b => b.start.toNat = a.stop.toNat + 1

structure ValidSteps (triples : List StepShadowType) : Prop where
  several : 2 ≤ triples.length
  ordered : ∀ triple ∈ triples, triple.start < triple.stop
  contiguous : Contiguous (sortedByStart triples)

def Wraps (sorted : List StepShadowType) : Prop :=
  ∃ overlong rest, sorted = overlong ++ rest ∧ overlong ≠ [] ∧ rest ≠ [] ∧
    (∀ triple ∈ overlong, triple.start = 0 ∧ triple.stop = 0xffffffff) ∧
    (∀ triple ∈ rest, triple.start < triple.stop) ∧ Contiguous rest

def Step.covers (i : Nat) (step : Step) : Bool :=
  Tiling.covers (fun step : Step => step.start.toNat) (fun step => step.stop.toNat) i step

/-- Every time up to the end of the last step belongs to one step, and no later time to any. -/
structure Partitions (steps : List Step) : Prop where
  disjoint : steps.Pairwise fun a b => ∀ i, ¬ (a.covers i = true ∧ b.covers i = true)
  covered : ∀ z ∈ steps.getLast?, ∀ i, i ≤ z.stop.toNat ↔ ∃ step ∈ steps, step.covers i = true

section Check

variable {triples : List StepShadowType} {a b : StepShadowType} {steps : List Step} {prev : UInt32}

theorem discontinuity_eq_none : discontinuity prev steps = none ↔
    (∀ first ∈ steps.head?, first.start = prev + 1) ∧
      steps.IsChain fun a b => b.start = a.stop + 1 := by
  induction steps generalizing prev with
  | nil => simp [discontinuity]
  | cons step steps ih =>
    rw [discontinuity, List.isChain_cons, ← ih]
    by_cases hstart : prev + 1 = step.start
    · simp [hstart]
    · simp [hstart, Ne.symm hstart]

theorem refusal_eq_none : refusal steps = none ↔
    (∀ first ∈ steps.head?, first.start = 0) ∧
      steps.IsChain fun a b => b.start = a.stop + 1 := by
  cases steps with
  | nil => simp [refusal]
  | cons step steps =>
    rw [refusal, List.isChain_cons, ← discontinuity_eq_none]
    by_cases hstart : step.start = 0
    · simp [hstart]
    · simp [hstart]

theorem toNat_start_of_pos (h : b.start = a.stop + 1) (hpos : 0 < b.start) :
    b.start.toNat = a.stop.toNat + 1 := by
  have hlt := a.stop.toNat_lt
  rw [UInt32.lt_iff_toNat_lt] at hpos
  rw [h, UInt32.toNat_add] at hpos ⊢
  simp only [UInt32.toNat_ofNat] at hpos ⊢
  omega

theorem start_eq_of_toNat (h : b.start.toNat = a.stop.toNat + 1) : b.start = a.stop + 1 := by
  have hlt := b.start.toNat_lt
  rw [← UInt32.toNat_inj, UInt32.toNat_add, h]
  simp only [UInt32.toNat_ofNat]
  omega

theorem contiguous_of_pos {x : StepShadowType} (hx : x.start = 0)
    (hchain : (x :: triples).IsChain fun a b => b.start = a.stop + 1)
    (hpos : ∀ triple ∈ triples, 0 < triple.start) : Contiguous (x :: triples) where
  head := by
    rintro _ ⟨⟩
    exact hx
  chain := hchain.imp_of_mem_tail_imp fun _ b _ hb h => toNat_start_of_pos h (hpos b hb)

theorem eq_max_of_add_one {n : UInt32} (h : 0 = n + 1) : n = 0xffffffff := by
  have hlt := n.toNat_lt
  rw [← UInt32.toNat_inj, UInt32.toNat_add] at h
  rw [← UInt32.toNat_inj]
  simp only [UInt32.toNat_ofNat] at h ⊢
  omega

theorem contiguous_or_wraps (hordered : ∀ triple ∈ triples, triple.start < triple.stop)
    (hsorted : triples.Pairwise fun a b => a.start ≤ b.start)
    (hhead : ∀ first ∈ triples.head?, first.start = 0)
    (hchain : triples.IsChain fun a b => b.start = a.stop + 1) :
    Contiguous triples ∨ Wraps triples := by
  induction triples with
  | nil => exact .inl ⟨hhead, .nil⟩
  | cons x triples ih =>
    cases triples with
    | nil => exact .inl ⟨hhead, .singleton x⟩
    | cons y triples =>
      have hx : x.start = 0 := hhead x rfl
      obtain ⟨hnext, hchain'⟩ := List.isChain_cons.mp hchain
      obtain ⟨_, hordered'⟩ := List.forall_mem_cons.mp hordered
      obtain ⟨_, hsorted'⟩ := List.pairwise_cons.mp hsorted
      by_cases hy : y.start = 0
      · -- the sum has wrapped, and the check goes on as if from the beginning
        have hstop : x.stop = 0xffffffff := eq_max_of_add_one (hy.symm.trans (hnext y rfl))
        have hrest : ∀ first ∈ (y :: triples).head?, first.start = 0 := by
          rintro _ ⟨⟩
          exact hy
        right
        rcases ih hordered' hsorted' hrest hchain' with hcontiguous | ⟨overlong, rest, heq, h⟩
        · exact ⟨[x], y :: triples, rfl, by simp, by simp, by simp [hx, hstop], hordered',
            hcontiguous⟩
        · obtain ⟨_, hne, hoverlong, hrest⟩ := h
          exact ⟨x :: overlong, rest, by rw [heq, List.cons_append], by simp, hne,
            List.forall_mem_cons.mpr ⟨⟨hx, hstop⟩, hoverlong⟩, hrest⟩
      · left
        have hypos : 0 < y.start := UInt32.pos_iff_ne_zero.mpr hy
        refine contiguous_of_pos hx hchain (List.forall_mem_cons.mpr ⟨hypos, fun z hz => ?_⟩)
        exact UInt32.lt_of_lt_of_le hypos ((List.pairwise_cons.mp hsorted').1 z hz)

theorem Contiguous.isChain (h : Contiguous triples) :
    triples.IsChain fun a b => b.start = a.stop + 1 :=
  h.chain.imp fun _ _ => start_eq_of_toNat

theorem Wraps.isChain (h : Wraps triples) :
    (∀ first ∈ triples.head?, first.start = 0) ∧
      triples.IsChain fun a b => b.start = a.stop + 1 := by
  obtain ⟨overlong, rest, rfl, hoverlong, _, hall, _, hrest⟩ := h
  have hzero : (0 : UInt32) = 0xffffffff + 1 := rfl
  constructor
  · cases overlong with
    | nil => exact absurd rfl hoverlong
    | cons x overlong =>
      rintro _ ⟨⟩
      exact (hall x List.mem_cons_self).1
  · refine List.isChain_append.mpr ⟨?_, hrest.isChain, ?_⟩
    · rw [List.isChain_iff_getElem]
      intro i hi
      rw [(hall _ (List.getElem_mem _)).1, (hall _ (List.getElem_mem _)).2, hzero]
    · intro x hx y hy
      rw [hrest.head y hy, (hall x (List.mem_of_getLast? hx)).2, hzero]

theorem not_contiguous_of_wraps (h : Wraps triples) : ¬ Contiguous triples := by
  rintro ⟨_, hchain⟩
  obtain ⟨overlong, rest, rfl, hoverlong, hne, hall, _, hrest⟩ := h
  obtain ⟨y, rest, rfl⟩ := List.exists_cons_of_ne_nil hne
  obtain ⟨before, x, rfl⟩ := (List.eq_nil_or_concat overlong).resolve_left hoverlong
  have hnext := (List.isChain_append.mp hchain).2.2 x (by simp) y rfl
  rw [hrest.head y rfl] at hnext
  exact absurd hnext (by simp)

theorem refusal_eq_none_iff (hsorted : steps.Pairwise fun a b => a.startsBefore b = true) :
    refusal steps = none ↔
      Contiguous (steps.map Step.shadow) ∨ Wraps (steps.map Step.shadow) := by
  rw [refusal_eq_none]
  constructor
  · rintro ⟨hhead, hchain⟩
    refine contiguous_or_wraps ?_ ?_ ?_ ?_
    · exact List.forall_mem_map.mpr fun step _ => step.ordered
    · exact List.pairwise_map.mpr (hsorted.imp fun h => of_decide_eq_true h)
    · simpa [List.head?_map, Step.shadow] using hhead
    · exact (List.isChain_map _).mpr hchain
  · intro h
    have hchain : (∀ first ∈ (steps.map Step.shadow).head?, first.start = 0) ∧
        (steps.map Step.shadow).IsChain fun a b => b.start = a.stop + 1 :=
      h.elim (fun h => ⟨h.head, h.isChain⟩) Wraps.isChain
    exact ⟨by simpa [List.head?_map, Step.shadow] using hchain.1, (List.isChain_map _).mp hchain.2⟩

end Check

section Decode

variable {triples : List StepShadowType} {value : List Step} {s : Steps}

def stepsDocument (triples : List StepShadowType) : Value :=
  .object [("steps", .array (triples.map stepShadowType.encode))]

theorem Step.tryFrom_eq_ok {triple : StepShadowType} {step : Step} :
    Step.tryFrom triple = .ok step ↔ step.shadow = triple := by
  constructor
  · intro h
    rw [tryFrom] at h
    split at h
    · cases h
      rfl
    · cases h
  · rintro rfl
    exact step.tryFrom_shadow

theorem step_decode (host : Host) (triple : StepShadowType) (step : Step) :
    Serde.Codec.decode Request.step host (stepShadowType.encode triple) = some step ↔
      step.shadow = triple := by
  change ((stepShadowType.decode host (stepShadowType.encode triple)).bind fun value =>
    (Step.tryFrom value).toOption) = some step ↔ _
  rw [stepShadowType_faithful, Option.bind_some, ← Step.tryFrom_eq_ok]
  cases Step.tryFrom triple <;> simp [Except.toOption]

theorem decodeElems_step (host : Host) (i : Nat) (triples : List StepShadowType)
    (value : List Step) :
    Codec.decodeElems step (fun host _ => host) host i (triples.map stepShadowType.encode) =
        some value ↔
      value.map Step.shadow = triples := by
  induction triples generalizing i value with
  | nil => simp [Codec.decodeElems, eq_comm]
  | cons triple triples ih =>
    simp only [List.map_cons, Codec.decodeElems, Option.bind_eq_bind, Option.bind_eq_some_iff,
      step_decode, ih, Option.pure_def, Option.some.injEq, List.map_eq_cons_iff]
    constructor
    · rintro ⟨x, hx, xs, hxs, rfl⟩
      exact ⟨x, xs, rfl, hx, hxs⟩
    · rintro ⟨x, xs, rfl, hx, hxs⟩
      exact ⟨x, hx, xs, hxs, rfl⟩

theorem steps_decode (host : Host) (triples : List StepShadowType) (s : Steps) :
    steps.decode host (stepsDocument triples) = some s ↔
      ∃ value : List Step, value.map Step.shadow = triples ∧ Steps.tryFrom value = .ok s := by
  change (((Codec.decodeElems step (fun host _ => host) host 0
    (triples.map stepShadowType.encode)).bind fun value => some value).bind fun value =>
      (Steps.tryFrom value).toOption) = some s ↔ _
  simp only [Option.bind_eq_some_iff, decodeElems_step, Option.some.injEq, exists_eq_right]
  refine exists_congr fun value => and_congr_right fun _ => ?_
  cases Steps.tryFrom value <;> simp [Except.toOption]

theorem exists_map_shadow : (∃ value : List Step, value.map Step.shadow = triples) ↔
    ∀ triple ∈ triples, triple.start < triple.stop := by
  constructor
  · rintro ⟨value, rfl⟩
    exact List.forall_mem_map.mpr fun step _ => step.ordered
  · intro h
    exact ⟨triples.pmap (fun triple h => ⟨triple.start, triple.stop, triple.rate, h⟩) h, by
      simp [List.map_pmap, Step.shadow]⟩

theorem sortedByStart_map (value : List Step) :
    (value.mergeSort Step.startsBefore).map Step.shadow =
      sortedByStart (value.map Step.shadow) :=
  List.map_mergeSort fun _ _ _ _ => rfl

theorem exists_tryFrom : (∃ s, Steps.tryFrom value = .ok s) ↔
    2 ≤ value.length ∧ (Contiguous (sortedByStart (value.map Step.shadow)) ∨
      Wraps (sortedByStart (value.map Step.shadow))) := by
  have hsorted := List.pairwise_mergeSort Step.startsBefore_trans Step.startsBefore_total value
  rw [← sortedByStart_map, ← refusal_eq_none_iff hsorted, Steps.tryFrom]
  split
  · rename_i hnone
    simp [hnone]
  · split
    · rename_i hone
      simp [hone]
    · have hseveral : 2 ≤ value.length := by omega
      dsimp only
      split
      · rename_i message hrefusal
        simp [hrefusal]
      · rename_i hrefusal
        simp [hrefusal, hseveral]

theorem isSome_decode_iff (host : Host) (triples : List StepShadowType) :
    (steps.decode host (stepsDocument triples)).isSome ↔
      2 ≤ triples.length ∧ (∀ triple ∈ triples, triple.start < triple.stop) ∧
        (Contiguous (sortedByStart triples) ∨ Wraps (sortedByStart triples)) := by
  simp only [Option.isSome_iff_exists, steps_decode, ← exists_map_shadow]
  constructor
  · rintro ⟨s, value, rfl, hs⟩
    obtain ⟨hlength, hcheck⟩ := exists_tryFrom.mp ⟨s, hs⟩
    exact ⟨by rwa [List.length_map], ⟨value, rfl⟩, hcheck⟩
  · rintro ⟨hlength, ⟨value, rfl⟩, hcheck⟩
    obtain ⟨s, hs⟩ := exists_tryFrom.mpr ⟨by rwa [List.length_map] at hlength, hcheck⟩
    exact ⟨s, value, rfl, hs⟩

theorem tiles_of_contiguous {steps : List Step} (h : Contiguous (steps.map Step.shadow)) :
    Tiles (fun step : Step => step.start.toNat) (fun step => step.stop.toNat) 0 steps := by
  refine ⟨fun first hfirst => ?_, (List.isChain_map _).mp h.chain, fun step _ => ?_⟩
  · have hzero := h.head first.shadow (by simp [List.head?_map, Option.mem_def.mp hfirst])
    exact congrArg UInt32.toNat hzero
  · exact Nat.le_of_lt (UInt32.lt_iff_toNat_lt.mp step.ordered)

theorem partitions_of_contiguous {steps : List Step}
    (h : Contiguous (steps.map Step.shadow)) : Partitions steps := by
  have htiles := tiles_of_contiguous h
  constructor
  · refine htiles.pairwise.imp fun hlt i hboth => ?_
    simp only [Step.covers, covers_iff] at hboth
    omega
  · intro z hz i
    constructor
    · exact fun hi => htiles.exists_covers hz (Nat.zero_le i) hi
    · rintro ⟨step, hstep, hcovers⟩
      exact (covers_iff.mp hcovers).2.trans (htiles.last_le hz hstep)

theorem Wraps.ordered (h : Wraps (sortedByStart triples)) :
    2 ≤ triples.length ∧ ∀ triple ∈ triples, triple.start < triple.stop := by
  have hperm : (sortedByStart triples).Perm triples := List.mergeSort_perm _ _
  obtain ⟨overlong, rest, heq, hoverlong, hne, hall, hrest, _⟩ := h
  have hoverlong := List.length_pos_of_ne_nil hoverlong
  have hne := List.length_pos_of_ne_nil hne
  rw [heq] at hperm
  constructor
  · rw [← hperm.length_eq, List.length_append]
    omega
  · intro triple htriple
    rcases List.mem_append.mp (hperm.mem_iff.mpr htriple) with hmem | hmem
    · rw [(hall triple hmem).1, (hall triple hmem).2]
      decide
    · exact hrest triple hmem

theorem not_validSteps_of_wraps (h : Wraps (sortedByStart triples)) : ¬ ValidSteps triples :=
  fun hvalid => not_contiguous_of_wraps h hvalid.contiguous

theorem isSome_decode_of_wraps (host : Host) (h : Wraps (sortedByStart triples)) :
    (steps.decode host (stepsDocument triples)).isSome :=
  (isSome_decode_iff host triples).mpr ⟨h.ordered.1, h.ordered.2, .inr h⟩

/-- Decoding is exact unless steps that last until the last `u32` come before steps that
start at zero again: these are accepted. -/
theorem steps_validation_exact_iff (host : Host) (triples : List StepShadowType) :
    (((steps.decode host (stepsDocument triples)).isSome ↔ ValidSteps triples) ∧
      ∀ s, steps.decode host (stepsDocument triples) = some s →
        (s.steps.map Step.shadow).Perm triples ∧ Partitions s.steps) ↔
    ¬ Wraps (sortedByStart triples) := by
  constructor
  · rintro ⟨haccepted, _⟩ hwraps
    exact not_validSteps_of_wraps hwraps (haccepted.mp (isSome_decode_of_wraps host hwraps))
  · intro hwraps
    have hcontiguous := isSome_decode_iff host triples
    rw [or_iff_left hwraps] at hcontiguous
    refine ⟨hcontiguous.trans ?_, fun s hs => ?_⟩
    · exact ⟨fun ⟨h, h', h''⟩ => ⟨h, h', h''⟩, fun ⟨h, h', h''⟩ => ⟨h, h', h''⟩⟩
    · obtain ⟨_, _, hsorted⟩ := hcontiguous.mp (Option.isSome_of_eq_some hs)
      obtain ⟨value, rfl, hvalue⟩ := (steps_decode host triples s).mp hs
      rw [(Steps.of_tryFrom hvalue).2, sortedByStart_map]
      refine ⟨List.mergeSort_perm _ _, partitions_of_contiguous ?_⟩
      rwa [sortedByStart_map]

theorem overlong_step_accepted :
    (steps.decode ⟨none, fun _ => ""⟩
      (stepsDocument [⟨0, 0xffffffff, 1⟩, ⟨0, 5, 2⟩])).isSome ∧
    ¬ ValidSteps [⟨0, 0xffffffff, 1⟩, ⟨0, 5, 2⟩] := by
  have hsorted : sortedByStart [⟨0, 0xffffffff, 1⟩, ⟨0, 5, 2⟩] =
      [⟨0, 0xffffffff, 1⟩, ⟨0, 5, 2⟩] :=
    List.mergeSort_of_pairwise (by decide)
  have hwraps : Wraps (sortedByStart [⟨0, 0xffffffff, 1⟩, ⟨0, 5, 2⟩]) := by
    refine ⟨[⟨0, 0xffffffff, 1⟩], [⟨0, 5, 2⟩], hsorted, by simp, by simp, ?_, ?_, ?_, ?_⟩
    · simp
    · simp
    · rintro _ ⟨⟩
      rfl
    · exact .singleton _
  exact ⟨isSome_decode_of_wraps _ hwraps, not_validSteps_of_wraps hwraps⟩

end Decode

end Overload.Request
