import Overload.Generator.RateScheme
import Overload.Request.Transport

namespace Overload.Generator

open Request Tiling
open Transport (plainExternals)

/-- The fields that take part in the pacing. -/
structure RequestGenerator (F32 : Type) where
  duration : UInt32
  timeScale : UInt8
  total : UInt32
  currentCount : UInt32
  qpsScheme : RateScheme F32
  concurrentConnection : RateScheme F32

namespace RequestGenerator

variable {F32 : Type} (ceil : F32 → UInt32 → UInt32)

def new (duration : UInt32) (qpsScheme concurrentConnection : RateScheme F32) :
    RequestGenerator F32 :=
  let timeScale : UInt8 := 1
  { duration
    timeScale
    total := duration * timeScale.toUInt32
    currentCount := 0
    qpsScheme
    concurrentConnection }

def ofRequest {x : Externals} (request : Transport.Request x) : RequestGenerator x.F32 :=
  new request.duration request.qps.scheme request.concurrentConnection.scheme

def pollNext (self : RequestGenerator F32) :
    Option (UInt32 × UInt32) × RequestGenerator F32 :=
  if self.currentCount ≥ self.total then (none, self)
  else
    let (qps, qpsScheme) := self.qpsScheme.next ceil self.currentCount
    let (conn, concurrentConnection) := self.concurrentConnection.next ceil self.currentCount
    (some (qps, conn),
      { self with currentCount := self.currentCount + 1, qpsScheme, concurrentConnection })

variable {ceil} {self : RequestGenerator F32}

theorem pollNext_of_le (h : self.total ≤ self.currentCount) :
    self.pollNext ceil = (none, self) :=
  if_pos h

theorem pollNext_of_lt (h : self.currentCount < self.total) :
    self.pollNext ceil =
      (some ((self.qpsScheme.next ceil self.currentCount).1,
        (self.concurrentConnection.next ceil self.currentCount).1),
      { self with
        currentCount := self.currentCount + 1
        qpsScheme := (self.qpsScheme.next ceil self.currentCount).2
        concurrentConnection := (self.concurrentConnection.next ceil self.currentCount).2 }) :=
  if_neg (UInt32.not_le.mpr h)

theorem toNat_succ_of_lt {n m : UInt32} (h : n < m) : (n + 1).toNat = n.toNat + 1 := by
  have hm := m.toNat_lt
  rw [UInt32.lt_iff_toNat_lt] at h
  rw [UInt32.toNat_add]
  simp only [UInt32.toNat_ofNat]
  omega

theorem lt_of_pollNext {item : UInt32 × UInt32} {self' : RequestGenerator F32}
    (h : self.pollNext ceil = (some item, self')) :
    self'.total.toNat - self'.currentCount.toNat <
      self.total.toNat - self.currentCount.toNat := by
  by_cases hlt : self.currentCount < self.total
  · rw [pollNext_of_lt hlt] at h
    cases h
    have := UInt32.lt_iff_toNat_lt.mp hlt
    dsimp only
    rw [toNat_succ_of_lt hlt]
    omega
  · rw [pollNext_of_le (UInt32.not_lt.mp hlt)] at h
    cases h

variable (ceil)

def collect (self : RequestGenerator F32) : List (UInt32 × UInt32) :=
  match _h : self.pollNext ceil with
  | (none, _) => []
  | (some item, self') => item :: self'.collect
  termination_by self.total.toNat - self.currentCount.toNat
  decreasing_by exact lt_of_pollNext ‹_›

theorem collect_of_none {self' : RequestGenerator F32} (h : self.pollNext ceil = (none, self')) :
    self.collect ceil = [] := by
  rw [collect]
  split
  · rfl
  · rename_i h'
    cases h.symm.trans h'

theorem collect_of_some {item : UInt32 × UInt32} {self' : RequestGenerator F32}
    (h : self.pollNext ceil = (some item, self')) :
    self.collect ceil = item :: self'.collect ceil := by
  rw [collect]
  split
  · rename_i h'
    cases h.symm.trans h'
  · rename_i h'
    cases h.symm.trans h'
    rfl

end RequestGenerator

def constantSchedule (rate : ConstantRate) (_i : Nat) : UInt32 := rate.countPerSec

def arraySchedule (array : ArraySpec) (i : Nat) : UInt32 :=
  (array.countPerSec[i % array.countPerSec.length]?).getD 0

/-- The rate of the step that a second is in; behind the last, the rate of the last. -/
def stepsSchedule (steps : List Step) (i : Nat) : UInt32 :=
  match steps.find? (Step.covers i) with
  | some step => step.rate
  | none => (steps.getLast?.map Step.rate).getD 0

inductive Scheduled {F32 : Type} : RateScheme F32 → (Nat → UInt32) → Prop
  | constantRate (self : ConstantRate) : Scheduled (.constantRate self) (constantSchedule self)
  | arraySpec (self : ArraySpec) : Scheduled (.arraySpec self) (arraySchedule self)
  | steps (self : Steps) (hcurrent : self.currentStep = 0)
      (hcontiguous : Contiguous (self.steps.map Step.shadow)) :
      Scheduled (.steps self) (stepsSchedule self.steps)

section Steps

variable {self : Steps} {i : Nat} {nth : UInt32} {step : Step}

theorem stepsSchedule_of_covers {steps : List Step}
    (h : Contiguous (steps.map Step.shadow)) (hstep : step ∈ steps)
    (hcovers : step.covers i = true) : stepsSchedule steps i = step.rate := by
  have hfind : steps.find? (Step.covers i) = some step :=
    (tiles_of_contiguous h).find?_eq hstep hcovers
  rw [stepsSchedule, hfind]

theorem stepsSchedule_of_lt {steps : List Step}
    (h : Contiguous (steps.map Step.shadow)) (hlast : steps.getLast? = some step)
    (hi : step.stop.toNat < i) : stepsSchedule steps i = step.rate := by
  have hfind : steps.find? (Step.covers i) = none :=
    (tiles_of_contiguous h).find?_eq_none hlast hi
  rw [stepsSchedule, hfind, hlast]
  rfl

def Follows (self : Steps) (i : Nat) : Prop :=
  ∃ step, self.steps[self.currentStep]? = some step ∧ step.start.toNat ≤ i ∧
    (i ≤ step.stop.toNat + 1 ∨ self.currentStep + 1 = self.steps.length)

theorem follows_zero (hcurrent : self.currentStep = 0)
    (hcontiguous : Contiguous (self.steps.map Step.shadow)) : Follows self 0 := by
  have hseveral := self.several
  have hfirst : self.steps[0]? = some self.steps[0] := List.getElem?_eq_getElem (by omega)
  have hhead : self.steps.head? = some self.steps[0] := List.head?_eq_getElem?.trans hfirst
  refine ⟨self.steps[0], by rw [hcurrent, hfirst], ?_, .inl (Nat.zero_le _)⟩
  exact Nat.le_of_eq ((tiles_of_contiguous hcontiguous).head _ hhead)

theorem covers_iff_nth : step.covers nth.toNat = true ↔ step.start ≤ nth ∧ step.stop ≥ nth := by
  rw [Step.covers, covers_iff, UInt32.le_iff_toNat_le, ge_iff_le, UInt32.le_iff_toNat_le]

theorem Follows.next (h : Follows self nth.toNat)
    (hcontiguous : Contiguous (self.steps.map Step.shadow)) :
    (self.next nth).1 = stepsSchedule self.steps nth.toNat ∧
      (self.next nth).2.steps = self.steps ∧ Follows (self.next nth).2 (nth.toNat + 1) := by
  obtain ⟨step, hstep, hstart, hstop⟩ := h
  have hmem : step ∈ self.steps := List.mem_of_getElem? hstep
  by_cases hin : step.start ≤ nth ∧ step.stop ≥ nth
  · -- still in the current step
    have hnext : self.next nth = (step.rate, self) := by
      simp [Steps.next, Steps.look, hstep, hin]
    have hcovers := covers_iff_nth.mpr hin
    rw [hnext, stepsSchedule_of_covers hcontiguous hmem hcovers]
    have hle := (covers_iff.mp hcovers).2
    exact ⟨rfl, rfl, step, hstep, by omega, .inl (by omega)⟩
  · have hbehind : step.stop.toNat < nth.toNat := by
      rw [← covers_iff_nth, Step.covers, covers_iff] at hin
      omega
    cases hafter : self.steps[self.currentStep + 1]? with
    | some after =>
      -- the second is the first one of the step after the current
      have hlt := (List.getElem?_eq_some_iff.mp hafter).1
      have hfirst : after.start.toNat = step.stop.toNat + 1 :=
        (tiles_of_contiguous hcontiguous).next hstep hafter
      have hordered := UInt32.lt_iff_toNat_lt.mp after.ordered
      have hcovers : after.covers nth.toNat = true := covers_iff.mpr (by omega)
      have hnext : self.next nth =
          (after.rate, { self with currentStep := self.currentStep + 1 }) := by
        simp [Steps.next, Steps.look, hstep, hin, hafter]
      rw [hnext, stepsSchedule_of_covers hcontiguous (List.mem_of_getElem? hafter) hcovers]
      exact ⟨rfl, rfl, after, hafter, by omega, .inl (by omega)⟩
    | none =>
      -- behind the last step its rate goes on
      have hlength := List.getElem?_eq_none_iff.mp hafter
      have hlt := (List.getElem?_eq_some_iff.mp hstep).1
      have hlast : self.steps.getLast? = some step := by
        rw [List.getLast?_eq_getElem?, ← hstep]
        congr 1
        omega
      have hnext : self.next nth = (step.rate, self) := by
        simp [Steps.next, Steps.look, hstep, hin, hafter, hlast]
      have hend : self.currentStep + 1 = self.steps.length := by omega
      rw [hnext, stepsSchedule_of_lt hcontiguous hlast hbehind]
      exact ⟨rfl, rfl, step, hstep, by omega, .inr hend⟩

end Steps

section Run

variable {F32 : Type} {ceil : F32 → UInt32 → UInt32} {f g : Nat → UInt32}

inductive Keeps : RateScheme F32 → (Nat → UInt32) → Nat → Prop
  | constantRate (self : ConstantRate) (i : Nat) :
      Keeps (.constantRate self) (constantSchedule self) i
  | arraySpec (self : ArraySpec) (i : Nat) : Keeps (.arraySpec self) (arraySchedule self) i
  | steps (self : Steps) (i : Nat) (hcontiguous : Contiguous (self.steps.map Step.shadow))
      (hfollows : Follows self i) : Keeps (.steps self) (stepsSchedule self.steps) i

theorem Scheduled.keeps {scheme : RateScheme F32} (h : Scheduled scheme f) :
    Keeps scheme f 0 := by
  cases h with
  | constantRate self => exact .constantRate self 0
  | arraySpec self => exact .arraySpec self 0
  | steps self hcurrent hcontiguous =>
    exact .steps self 0 hcontiguous (follows_zero hcurrent hcontiguous)

theorem arraySpec_next (self : ArraySpec) (nth : UInt32) :
    self.next nth = arraySchedule self nth.toNat := by
  rw [ArraySpec.next, arraySchedule]
  split
  · rename_i h
    rw [List.getElem?_eq_getElem (Nat.mod_lt _ (Nat.pos_of_ne_zero h)), Option.getD_some]
  · rename_i h
    rw [List.eq_nil_of_length_eq_zero (not_not.mp h), List.getElem?_nil, Option.getD_none]

theorem Keeps.next (ceil : F32 → UInt32 → UInt32) {scheme : RateScheme F32} {nth : UInt32}
    (h : Keeps scheme f nth.toNat) :
    (scheme.next ceil nth).1 = f nth.toNat ∧
      Keeps (scheme.next ceil nth).2 f (nth.toNat + 1) := by
  cases h with
  | constantRate self => exact ⟨rfl, .constantRate self _⟩
  | arraySpec self => exact ⟨arraySpec_next self nth, .arraySpec self _⟩
  | steps self _ hcontiguous hfollows =>
    obtain ⟨hrate, hsteps, hfollows⟩ := hfollows.next hcontiguous
    refine ⟨hrate, ?_⟩
    rw [← hsteps] at hcontiguous ⊢
    exact .steps _ _ hcontiguous hfollows

theorem collect_eq (self : RequestGenerator F32)
    (hf : Keeps self.qpsScheme f self.currentCount.toNat)
    (hg : Keeps self.concurrentConnection g self.currentCount.toNat) :
    self.collect ceil = (List.range' self.currentCount.toNat
      (self.total.toNat - self.currentCount.toNat)).map fun i => (f i, g i) := by
  induction hleft : self.total.toNat - self.currentCount.toNat generalizing self with
  | zero =>
    have hend : self.total ≤ self.currentCount := by
      rw [UInt32.le_iff_toNat_le]
      omega
    exact RequestGenerator.collect_of_none ceil (RequestGenerator.pollNext_of_le hend)
  | succ left ih =>
    have hlt : self.currentCount < self.total := by
      rw [UInt32.lt_iff_toNat_lt]
      omega
    have hcount := RequestGenerator.toNat_succ_of_lt hlt
    obtain ⟨hqps, hf⟩ := hf.next ceil
    obtain ⟨hconn, hg⟩ := hg.next ceil
    rw [← hcount] at hf hg
    rw [RequestGenerator.collect_of_some ceil (RequestGenerator.pollNext_of_lt hlt), hqps, hconn,
      ih _ hf hg (by dsimp only; omega), List.range'_succ, List.map_cons, hcount]

/-- The stream has an item for each second, and it is what the two schedules say. -/
theorem collect_ofRequest {x : Externals} (ceil : x.F32 → UInt32 → UInt32)
    (request : Transport.Request x) (hf : Scheduled request.qps.scheme f)
    (hg : Scheduled request.concurrentConnection.scheme g) :
    (RequestGenerator.ofRequest request).collect ceil =
      (List.range request.duration.toNat).map fun i => (f i, g i) := by
  have htotal : (RequestGenerator.ofRequest request).total = request.duration :=
    UInt32.mul_one request.duration
  rw [collect_eq _ hf.keeps hg.keeps, htotal, List.range_eq_range']
  rfl

theorem slowStep_ordered : (0 : UInt32) < 2 := by decide

theorem fastStep_ordered : (3 : UInt32) < 4 := by decide

def twoSteps : List Step := [⟨0, 2, 10, slowStep_ordered⟩, ⟨3, 4, 20, fastStep_ordered⟩]

theorem twoSteps_sorted : twoSteps.Pairwise fun a b => a.startsBefore b = true := by decide

theorem contiguous_twoSteps : Contiguous (twoSteps.map Step.shadow) := by
  refine ⟨?_, by simp [twoSteps, Step.shadow]⟩
  rintro _ ⟨⟩
  rfl

theorem httpPort_within : (0 : UInt64) ≤ 80 ∧ (80 : UInt64) ≤ 0xffff := by decide

def twoStepsRequest : Transport.Request plainExternals :=
  .from plainExternals
    { name := none
      duration := 7
      target := ⟨"example", ⟨80, httpPort_within⟩, .http⟩
      req := .requestFile ⟨"/data/load.sqlite", false, 2147483647⟩
      qps := .steps ⟨0, twoSteps, Nat.le_refl 2, twoSteps_sorted, rfl⟩
      concurrentConnection := .arraySpec ⟨[1, 5]⟩
      connectionKeepAlive := Transport.defaultConnectionKeepAlive
      histogramBuckets := []
      responseAssertion := none
      generationMode := .immediate }

theorem collect_ofRequest_twoSteps :
    (RequestGenerator.ofRequest twoStepsRequest).collect (fun _ nth => nth) =
      [(10, 1), (10, 5), (10, 1), (20, 5), (20, 1), (20, 5), (20, 1)] := by
  have hqps : Scheduled twoStepsRequest.qps.scheme (stepsSchedule twoSteps) :=
    .steps _ rfl contiguous_twoSteps
  have hconn : Scheduled twoStepsRequest.concurrentConnection.scheme (arraySchedule ⟨[1, 5]⟩) :=
    .arraySpec _
  rw [collect_ofRequest _ _ hqps hconn]
  rfl

end Run

end Overload.Generator
