import Mathlib.Algebra.Group.Nat.Defs
import Overload.Request.Steps

namespace Overload.Request

open Tiling

def ConstantRate.next (self : ConstantRate) (_nth : UInt32) : UInt32 := self.countPerSec

def ArraySpec.next (self : ArraySpec) (nth : UInt32) : UInt32 :=
  if h : self.countPerSec.length ≠ 0 then
    have hidx : nth.toNat % self.countPerSec.length < self.countPerSec.length :=
      Nat.mod_lt _ (Nat.pos_of_ne_zero h)
    self.countPerSec[nth.toNat % self.countPerSec.length]
  else 0

def Elastic.next (_self : Elastic) (_nth : UInt32) : UInt32 := 0

/-- The sum of `u32` wraps. -/
def Linear.next {F32 : Type} (ceil : F32 → UInt32 → UInt32) (self : Linear F32) (nth : UInt32) :
    UInt32 :=
  min (ceil self.a nth + self.b) self.max

def Steps.look (self : Steps) (nth : UInt32) : UInt32 × Bool :=
  match self.steps[self.currentStep]? with
  | some step =>
    if step.start ≤ nth ∧ step.stop ≥ nth then (step.rate, false)
    else
      match self.steps[self.currentStep + 1]? with
      | some step => (step.rate, true)
      | none => ((self.steps.getLast?.map Step.rate).getD 0, false)
  | none => (0, false)

def Steps.next (self : Steps) (nth : UInt32) : UInt32 × Steps :=
  let (rate, onwards) := self.look nth
  (rate, if onwards then { self with currentStep := self.currentStep + 1 } else self)

inductive RateScheme (F32 : Type)
  | constantRate (self : ConstantRate)
  | linear (self : Linear F32)
  | arraySpec (self : ArraySpec)
  | steps (self : Steps)
  | elastic (self : Elastic)

section Schemes

variable {F32 : Type}

def RateScheme.next (ceil : F32 → UInt32 → UInt32) (nth : UInt32) :
    RateScheme F32 → UInt32 × RateScheme F32
  | .constantRate self => (self.next nth, .constantRate self)
  | .linear self => (self.next ceil nth, .linear self)
  | .arraySpec self => (self.next nth, .arraySpec self)
  | .steps self => ((self.next nth).1, .steps (self.next nth).2)
  | .elastic self => (self.next nth, .elastic self)

def RateSpecEnum.scheme : RateSpecEnum F32 → RateScheme F32
  | .constantRate qps => .constantRate qps
  | .linear qps => .linear qps
  | .arraySpec qps => .arraySpec qps
  | .steps qps => .steps qps

def ConcurrentConnectionRateSpec.scheme : ConcurrentConnectionRateSpec F32 → RateScheme F32
  | .arraySpec spec => .arraySpec spec
  | .constantRate spec => .constantRate spec
  | .linear spec => .linear spec
  | .elastic spec => .elastic spec
  | .steps spec => .steps spec

end Schemes

section Linear

variable {F32 : Type} {ceil : F32 → UInt32 → UInt32} {linear : Linear F32}

/-- The ramp that a linear rate is meant to be: it rises to its maximum and stays there. -/
structure Linear.Ramps (ceil : F32 → UInt32 → UInt32) (linear : Linear F32) : Prop where
  monotone : ∀ n m, n ≤ m → linear.next ceil n ≤ linear.next ceil m
  capped : ∀ n, linear.next ceil n ≤ linear.max
  exact : ∀ n, (linear.next ceil n).toNat =
    min ((ceil linear.a n).toNat + linear.b.toNat) linear.max.toNat
  stays : ∀ n m, n ≤ m → linear.next ceil n = linear.max → linear.next ceil m = linear.max

theorem toNat_min (a b : UInt32) : (min a b).toNat = min a.toNat b.toNat := by
  change (if a ≤ b then a else b).toNat = _
  split
  · rename_i h
    exact (Nat.min_eq_left (UInt32.le_iff_toNat_le.mp h)).symm
  · rename_i h
    rw [UInt32.le_iff_toNat_le] at h
    exact (Nat.min_eq_right (Nat.le_of_not_le h)).symm

theorem Linear.toNat_next (linear : Linear F32) (nth : UInt32) :
    (linear.next ceil nth).toNat =
      min (((ceil linear.a nth).toNat + linear.b.toNat) % 2 ^ 32) linear.max.toNat := by
  rw [next, toNat_min, UInt32.toNat_add]

theorem Linear.toNat_next_eq_iff (linear : Linear F32) (nth : UInt32) :
    (linear.next ceil nth).toNat =
        min ((ceil linear.a nth).toNat + linear.b.toNat) linear.max.toNat ↔
      (ceil linear.a nth).toNat + linear.b.toNat < 2 ^ 32 ∨
        2 ^ 32 + linear.max.toNat ≤ (ceil linear.a nth).toNat + linear.b.toNat := by
  have hceil := (ceil linear.a nth).toNat_lt
  have hb := linear.b.toNat_lt
  have hmax := linear.max.toNat_lt
  rw [toNat_next]
  omega

theorem Linear.ramps_of_exact (hceil : ∀ n m, n ≤ m → ceil linear.a n ≤ ceil linear.a m)
    (hexact : ∀ n, (linear.next ceil n).toNat =
      min ((ceil linear.a n).toNat + linear.b.toNat) linear.max.toNat) : linear.Ramps ceil := by
  have hmonotone (n m : UInt32) (hnm : n ≤ m) : linear.next ceil n ≤ linear.next ceil m := by
    have h := UInt32.le_iff_toNat_le.mp (hceil n m hnm)
    rw [UInt32.le_iff_toNat_le, hexact, hexact]
    omega
  have hcapped (n : UInt32) : linear.next ceil n ≤ linear.max := by
    rw [UInt32.le_iff_toNat_le, hexact]
    exact Nat.min_le_right _ _
  refine ⟨hmonotone, hcapped, hexact, fun n m hnm hn => ?_⟩
  exact UInt32.le_antisymm (hcapped m) (hn ▸ hmonotone n m hnm)

/-- A linear rate is a ramp unless a sum falls behind its maximum by wrapping. -/
theorem linear_ramps_iff (hceil : ∀ n m, n ≤ m → ceil linear.a n ≤ ceil linear.a m) :
    linear.Ramps ceil ↔ ∀ n, (ceil linear.a n).toNat + linear.b.toNat < 2 ^ 32 ∨
      2 ^ 32 + linear.max.toNat ≤ (ceil linear.a n).toNat + linear.b.toNat := by
  simp only [← Linear.toNat_next_eq_iff]
  exact ⟨Linear.Ramps.exact, Linear.ramps_of_exact hceil⟩

def naturalSlope (a : Nat) (nth : UInt32) : UInt32 := UInt32.ofNat (min (a * nth.toNat) 0xffffffff)

theorem toNat_naturalSlope (a : Nat) (nth : UInt32) :
    (naturalSlope a nth).toNat = min (a * nth.toNat) 0xffffffff :=
  UInt32.toNat_ofNat_of_lt' (Nat.lt_of_le_of_lt (Nat.min_le_right _ _) (by decide))

theorem naturalSlope_mono (a : Nat) (n m : UInt32) (h : n ≤ m) :
    naturalSlope a n ≤ naturalSlope a m := by
  have hmul := Nat.mul_le_mul_left a (UInt32.le_iff_toNat_le.mp h)
  rw [UInt32.le_iff_toNat_le, toNat_naturalSlope, toNat_naturalSlope]
  omega

theorem linear_ramps_without_intercept : (⟨3, 0, 10⟩ : Linear Nat).Ramps naturalSlope := by
  refine (linear_ramps_iff (naturalSlope_mono 3)).mpr fun n => .inl ?_
  exact (naturalSlope 3 n).toNat_lt

theorem linear_rate_drops :
    (∀ n m, n ≤ m → naturalSlope 1 n ≤ naturalSlope 1 m) ∧
    (⟨1, 0xffffffff, 10⟩ : Linear Nat).next naturalSlope 0 = 10 ∧
    (⟨1, 0xffffffff, 10⟩ : Linear Nat).next naturalSlope 1 = 0 ∧
    ¬ (⟨1, 0xffffffff, 10⟩ : Linear Nat).Ramps naturalSlope := by
  refine ⟨naturalSlope_mono 1, by decide, by decide, fun h => ?_⟩
  exact absurd (h.monotone 0 1 (by decide)) (by decide)

end Linear

end Overload.Request
