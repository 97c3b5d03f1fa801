import Overload.Serde

namespace Overload.Request

open Json (Value)
open Serde

/-- What decoding takes from where it runs: the variable `DATA_DIR`, and fresh ids. -/
structure Host where
  dataDir : Option String
  uuid : Nat → String

def Host.element (host : Host) (i : Nat) : Host := { host with uuid := fun _ => host.uuid i }

def u32 : Codec Host UInt32 :=
  .uint UInt32.toUInt64 fun n => if n ≤ 0xffffffff then some n.toUInt32 else none

theorem u32_faithful : u32.Faithful := by
  refine Codec.uint_faithful fun x => ?_
  have hle : x.toUInt64 ≤ 0xffffffff := by
    have := x.toNat_lt
    rw [UInt64.le_iff_toNat_le, UInt32.toNat_toUInt64]
    exact Nat.le_of_lt_succ this
  rw [if_pos hle, UInt32.toUInt32_toUInt64]

structure ConstantRate where
  countPerSec : UInt32
  deriving DecidableEq, Repr

structure ArraySpec where
  countPerSec : List UInt32
  deriving DecidableEq, Repr

structure Elastic where
  max : UInt32
  deriving DecidableEq, Repr

def Elastic.default : Elastic := ⟨65535⟩

structure Linear (F32 : Type) where
  a : F32
  b : UInt32
  max : UInt32

/-- Every step comes from `try_from`, which refuses one that ends where it starts. -/
structure Step where
  start : UInt32
  stop : UInt32
  rate : UInt32
  ordered : start < stop
  deriving DecidableEq, Repr

structure StepShadowType where
  start : UInt32
  stop : UInt32
  rate : UInt32

def Step.tryFrom (value : StepShadowType) : Except String Step :=
  if h : value.start < value.stop then .ok ⟨value.start, value.stop, value.rate, h⟩
  else .error ("start(" ++ toString value.start ++
    ") can not be greater than or equal to end(" ++ toString value.stop ++ ")")

def Step.shadow (step : Step) : StepShadowType := ⟨step.start, step.stop, step.rate⟩

def Step.startsBefore (a b : Step) : Bool := a.start ≤ b.start

def discontinuity (prev : UInt32) : List Step → Option String
  | [] => none
  | current :: steps =>
    if prev + 1 ≠ current.start then
      some ("Steps are not continuous. An step ends at " ++ toString prev ++
        " but next step should start at " ++ toString (prev + 1) ++
        ", but starts at " ++ toString current.start)
    else discontinuity current.stop steps

def refusal : List Step → Option String
  | [] => none
  | first :: steps =>
    if first.start ≠ 0 then
      some ("Steps should start from 0, but starts from " ++ toString first.start ++ " instead.")
    else discontinuity first.stop steps

/-- The steps are at least two, in the order of their starts, and without a gap. -/
structure Steps where
  currentStep : Nat
  steps : List Step
  several : 2 ≤ steps.length
  sorted : steps.Pairwise fun a b => a.startsBefore b = true
  continuous : refusal steps = none

theorem Step.startsBefore_trans (a b c : Step) (hab : a.startsBefore b = true)
    (hbc : b.startsBefore c = true) : a.startsBefore c = true := by
  simp only [startsBefore, decide_eq_true_eq] at *
  exact UInt32.le_trans hab hbc

theorem Step.startsBefore_total (a b : Step) :
    (a.startsBefore b || b.startsBefore a) = true := by
  simp only [startsBefore, Bool.or_eq_true, decide_eq_true_eq]
  exact UInt32.le_total a.start b.start

def Steps.tryFrom (value : List Step) : Except String Steps :=
  if hnone : value.length = 0 then .error "No steps found."
  else if hone : value.length = 1 then
    .error "Need more than one step. Use ConstantQPS for single step."
  else
    let steps := value.mergeSort Step.startsBefore
    match hrefusal : refusal steps with
    | some message => .error message
    | none => .ok
      { currentStep := 0
        steps
        several := by
          rw [List.length_mergeSort]
          omega
        sorted := List.pairwise_mergeSort Step.startsBefore_trans Step.startsBefore_total value
        continuous := hrefusal }

inductive RateSpecEnum (F32 : Type)
  | constantRate (rate : ConstantRate)
  | linear (linear : Linear F32)
  | arraySpec (array : ArraySpec)
  | steps (steps : Steps)

inductive ConcurrentConnectionRateSpec (F32 : Type)
  | constantRate (rate : ConstantRate)
  | linear (linear : Linear F32)
  | arraySpec (array : ArraySpec)
  | steps (steps : Steps)
  | elastic (elastic : Elastic)

def constantRate : Codec Host ConstantRate :=
  .record (Fields.build ConstantRate.mk
    |>.field "countPerSec" u32 ConstantRate.countPerSec)

def arraySpec : Codec Host ArraySpec :=
  .record (Fields.build ArraySpec.mk
    |>.field "countPerSec" (u32.list fun host _ => host) ArraySpec.countPerSec)

def elastic : Codec Host Elastic :=
  .record (Fields.build Elastic.mk
    |>.field "max" u32 Elastic.max)

def linear {F32 : Type} (f32 : Codec Host F32) : Codec Host (Linear F32) :=
  .record (Fields.build Linear.mk
    |>.field "a" f32 Linear.a
    |>.field "b" u32 Linear.b
    |>.field "max" u32 Linear.max)

def stepShadowType : Codec Host StepShadowType :=
  .record (Fields.build StepShadowType.mk
    |>.field "start" u32 StepShadowType.start
    |>.field "end" u32 StepShadowType.stop
    |>.field "rate" u32 StepShadowType.rate)

def step : Codec Host Step :=
  stepShadowType.tryFrom (fun _ value => (Step.tryFrom value).toOption) Step.shadow

def stepsShadowType : Codec Host (List Step) :=
  .record (Fields.build id
    |>.field "steps" (step.list fun host _ => host) id)

def steps : Codec Host Steps :=
  stepsShadowType.tryFrom (fun _ value => (Steps.tryFrom value).toOption) Steps.steps

def rateSpecEnum {F32 : Type} (f32 : Codec Host F32) : Codec Host (RateSpecEnum F32) where
  encode
    | .constantRate rate => tagged "ConstantRate" (constantRate.encode rate)
    | .linear l => tagged "Linear" ((linear f32).encode l)
    | .arraySpec array => tagged "ArraySpec" (arraySpec.encode array)
    | .steps s => tagged "Steps" (steps.encode s)
  decode host v := do
    match ← untag v with
    | ("ConstantRate", v) => (constantRate.decode host v).map .constantRate
    | ("Linear", v) => ((linear f32).decode host v).map .linear
    | ("ArraySpec", v) => (arraySpec.decode host v).map .arraySpec
    | ("Steps", v) => (steps.decode host v).map .steps
    | _ => none

def concurrentConnectionRateSpec {F32 : Type} (f32 : Codec Host F32) :
    Codec Host (ConcurrentConnectionRateSpec F32) where
  encode
    | .constantRate rate => tagged "ConstantRate" (constantRate.encode rate)
    | .linear l => tagged "Linear" ((linear f32).encode l)
    | .arraySpec array => tagged "ArraySpec" (arraySpec.encode array)
    | .steps s => tagged "Steps" (steps.encode s)
    | .elastic e => tagged "Elastic" (elastic.encode e)
  decode host v := do
    match ← untag v with
    | ("ConstantRate", v) => (constantRate.decode host v).map .constantRate
    | ("Linear", v) => ((linear f32).decode host v).map .linear
    | ("ArraySpec", v) => (arraySpec.decode host v).map .arraySpec
    | ("Steps", v) => (steps.decode host v).map .steps
    | ("Elastic", v) => (elastic.decode host v).map .elastic
    | _ => none

theorem constantRate_faithful : constantRate.Faithful := fun _ =>
  Codec.settled_record (by decide) ((Fields.settled_build _).field (u32_faithful _))

theorem arraySpec_faithful : arraySpec.Faithful := fun _ =>
  Codec.settled_record (by decide)
    ((Fields.settled_build _).field (Codec.settled_list fun _ _ => u32_faithful _))

theorem elastic_faithful : elastic.Faithful := fun _ =>
  Codec.settled_record (by decide) ((Fields.settled_build _).field (u32_faithful _))

theorem linear_faithful {F32 : Type} {f32 : Codec Host F32} (h : f32.Faithful) :
    (linear f32).Faithful := fun _ =>
  Codec.settled_record (show ["a", "b", "max"].Nodup by decide)
    ((((Fields.settled_build _).field (h _)).field (u32_faithful _)).field (u32_faithful _))

theorem Step.tryFrom_shadow (step : Step) : Step.tryFrom step.shadow = .ok step := by
  rw [tryFrom, dif_pos (show step.shadow.start < step.shadow.stop from step.ordered)]
  rfl

theorem stepShadowType_faithful : stepShadowType.Faithful := fun _ =>
  Codec.settled_record (show ["start", "end", "rate"].Nodup by decide)
    (Fields.settled_build _ |>.field (u32_faithful _) |>.field (u32_faithful _)
      |>.field (u32_faithful _))

theorem step_faithful : step.Faithful := by
  intro s
  refine Codec.settled_tryFrom (stepShadowType_faithful _) fun _ => ?_
  rw [Step.tryFrom_shadow]
  rfl

theorem Steps.tryFrom_steps {s : Steps} (h : s.currentStep = 0) :
    Steps.tryFrom s.steps = .ok s := by
  obtain ⟨currentStep, steps, several, sorted, continuous⟩ := s
  cases h
  have hsorted : steps.mergeSort Step.startsBefore = steps := List.mergeSort_of_pairwise sorted
  have hnone : ¬ steps.length = 0 := by omega
  have hone : ¬ steps.length = 1 := by omega
  rw [tryFrom, dif_neg hnone, dif_neg hone]
  dsimp only
  split
  · rename_i message hrefusal
    rw [hsorted, continuous] at hrefusal
    cases hrefusal
  · simp only [hsorted]

theorem Steps.of_tryFrom {value : List Step} {s : Steps} (h : Steps.tryFrom value = .ok s) :
    s.currentStep = 0 ∧ s.steps = value.mergeSort Step.startsBefore := by
  rw [tryFrom] at h
  split at h
  · cases h
  · split at h
    · cases h
    · dsimp only at h
      split at h
      · cases h
      · cases h
        exact ⟨rfl, rfl⟩

theorem steps_lossless : steps.Lossless := by
  intro host v s h
  obtain ⟨value, -, h⟩ := Option.bind_eq_some_iff.mp h
  have hok : Steps.tryFrom value = .ok s := by
    cases hvalue : Steps.tryFrom value with
    | error message => simp [hvalue, Except.toOption] at h
    | ok s' => simpa [hvalue, Except.toOption] using h
  refine Codec.settled_tryFrom (Codec.settled_record (by decide) ?_) fun _ => ?_
  · exact (Fields.settled_build _).field (Codec.settled_list fun _ _ => step_faithful _)
  · rw [Steps.tryFrom_steps (Steps.of_tryFrom hok).1]
    rfl

section Enums

variable {F32 : Type} {f32 : Codec Host F32}

theorem rateSpecEnum_lossless (h : f32.Faithful) : (rateSpecEnum f32).Lossless := by
  intro host v spec hspec
  obtain ⟨⟨tag, w⟩, -, hspec⟩ := Option.bind_eq_some_iff.mp hspec
  split at hspec
  · exact constantRate_faithful.lossless.variant (fun _ => rfl) (fun _ _ => rfl) hspec
  · exact (linear_faithful h).lossless.variant (fun _ => rfl) (fun _ _ => rfl) hspec
  · exact arraySpec_faithful.lossless.variant (fun _ => rfl) (fun _ _ => rfl) hspec
  · exact steps_lossless.variant (fun _ => rfl) (fun _ _ => rfl) hspec
  · cases hspec

theorem concurrentConnectionRateSpec_lossless (h : f32.Faithful) :
    (concurrentConnectionRateSpec f32).Lossless := by
  intro host v spec hspec
  obtain ⟨⟨tag, w⟩, -, hspec⟩ := Option.bind_eq_some_iff.mp hspec
  split at hspec
  · exact constantRate_faithful.lossless.variant (fun _ => rfl) (fun _ _ => rfl) hspec
  · exact (linear_faithful h).lossless.variant (fun _ => rfl) (fun _ _ => rfl) hspec
  · exact arraySpec_faithful.lossless.variant (fun _ => rfl) (fun _ _ => rfl) hspec
  · exact steps_lossless.variant (fun _ => rfl) (fun _ _ => rfl) hspec
  · exact elastic_faithful.lossless.variant (fun _ => rfl) (fun _ _ => rfl) hspec
  · cases hspec

theorem settled_defaultConcurrentConnection :
    (concurrentConnectionRateSpec f32).Settled (.elastic .default) :=
  (elastic_faithful .default).variant rfl fun _ _ => rfl

/-- The step a running job is at is not written. -/
def RateSpecEnum.reset : RateSpecEnum F32 → RateSpecEnum F32
  | .steps s => .steps { s with currentStep := 0 }
  | spec => spec

def ConcurrentConnectionRateSpec.reset :
    ConcurrentConnectionRateSpec F32 → ConcurrentConnectionRateSpec F32
  | .steps s => .steps { s with currentStep := 0 }
  | spec => spec

theorem rateSpecEnum_encode_reset (spec : RateSpecEnum F32) :
    (rateSpecEnum f32).encode spec.reset = (rateSpecEnum f32).encode spec := by
  cases spec <;> rfl

theorem concurrentConnectionRateSpec_encode_reset (spec : ConcurrentConnectionRateSpec F32) :
    (concurrentConnectionRateSpec f32).encode spec.reset =
      (concurrentConnectionRateSpec f32).encode spec := by
  cases spec <;> rfl

end Enums

end Overload.Request
