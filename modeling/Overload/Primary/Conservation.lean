import Overload.Cycle.Dispatch
import Overload.Primary.Shares
import Mathlib.Algebra.Order.Group.Nat

namespace Overload.Primary

open Transition
open Overload.Cycle (LoadGenerationMode RateMessage Session)

variable {qps connectionCount k : Nat}

/-- A secondary in the cycle of a tick: anything may have happened before the message of
that tick, and no other message has come since. -/
structure Serving (Req : Type) where
  rate : RateMessage
  mode : LoadGenerationMode
  requestBundleSize : Nat
  keepAlive : Pool.ConnectionKeepAlive
  elasticPool : Bool
  before : List (Cycle.Action Req)
  cycle : List (Cycle.Action Req)
  session : Session Req
  alone : ∀ a ∈ cycle, ∀ rate, a ≠ .rates rate
  runs : run Cycle.step (.new Req mode requestBundleSize keepAlive elasticPool)
    (before ++ .rates rate :: cycle) = some session

theorem received_cycle {Req : Type} (past : List (Cycle.Action Req))
    {cycle : List (Cycle.Action Req)} (halone : ∀ a ∈ cycle, ∀ rate, a ≠ .rates rate) :
    Cycle.received (past ++ cycle) = Cycle.received past := by
  induction cycle using List.reverseRecOn with
  | nil => rw [List.append_nil]
  | append_singleton cycle a ih =>
    rw [← List.append_assoc, Cycle.received_concat _ (halone a (by simp))]
    exact ih fun b hb => halone b (List.mem_append_left _ hb)

theorem Serving.passed_le {Req : Type} (serving : Serving Req) :
    serving.session.passed.length ≤ serving.rate.qps := by
  have hwithin := ((Cycle.always_dispatches (.new ..) _).last serving.runs).within
  rwa [List.append_cons, received_cycle _ serving.alone, Cycle.received_rates] at hwithin

structure LoadConserved (qps connectionCount k : Nat) : Prop where
  divided : Conserves qps connectionCount k
  dispatched : ∀ (Req : Type) mode requestBundleSize keepAlive elasticPool as,
    Always Cycle.step Cycle.Dispatches
      (Session.new Req mode requestBundleSize keepAlive elasticPool) as
  -- a secondary whose message failed serves nothing
  cluster : ∀ (Req : Type) (serving : List (Serving Req)) (qs cs : List Nat),
    calculateReqPerSecondary qps connectionCount k = some (qs, cs) →
    (serving.map Serving.rate).Sublist (List.zipWith RateMessage.mk qs cs) →
    (serving.map fun secondary => secondary.session.passed.length).sum ≤ qps

theorem qps_of_rates {qs cs : List Nat} (hlength : qs.length = cs.length) :
    (List.zipWith RateMessage.mk qs cs).map RateMessage.qps = qs := by
  rw [← List.map_uncurry_zip_eq_zipWith, List.map_map]
  exact List.map_fst_zip (Nat.le_of_eq hlength)

theorem sum_passed_le {Req : Type} (serving : List (Serving Req)) {qs cs : List Nat}
    (hlength : qs.length = cs.length)
    (h : (serving.map Serving.rate).Sublist (List.zipWith RateMessage.mk qs cs)) :
    (serving.map fun secondary => secondary.session.passed.length).sum ≤ qs.sum := by
  calc (serving.map fun secondary => secondary.session.passed.length).sum
      ≤ (serving.map fun secondary => secondary.rate.qps).sum :=
        List.sum_le_sum fun secondary _ => secondary.passed_le
    _ = ((serving.map Serving.rate).map RateMessage.qps).sum := by rw [List.map_map]; rfl
    _ ≤ ((List.zipWith RateMessage.mk qs cs).map RateMessage.qps).sum :=
        (h.map RateMessage.qps).sum_le_sum fun _ _ => Nat.zero_le _
    _ = qs.sum := by rw [qps_of_rates hlength]

theorem load_conserved_iff (hqps : qps < 2 ^ 32) (hconnections : connectionCount < 2 ^ 32)
    (hk : 0 < k) :
    LoadConserved qps connectionCount k ↔
      k < 2 ^ 32 ∨ (qps < asU32 k ∧ connectionCount < asU32 k) := by
  rw [← conserves_iff hqps hconnections hk]
  constructor
  · exact fun h => h.divided
  · rintro hdivided
    refine ⟨hdivided, fun _ _ _ _ _ => Cycle.always_dispatches (.new ..), ?_⟩
    intro Req serving qs cs hcalculate hserving
    obtain ⟨qs', cs', hcalculate', hqs, hcs⟩ := hdivided
    obtain ⟨rfl, rfl⟩ := Prod.mk.inj (Option.some.inj (hcalculate.symm.trans hcalculate'))
    have hlength := hqs.length.trans hcs.length.symm
    exact hqs.sum ▸ sum_passed_le serving hlength hserving

/-- The quotients are taken by `n_secondary as u32`, which is zero. -/
theorem countedAsZero_not_conserved :
    calculateReqPerSecondary 1 1 (2 ^ 32) = none ∧ ¬ LoadConserved 1 1 (2 ^ 32) := by
  have hnone : calculateReqPerSecondary 1 1 (2 ^ 32) = none := by decide
  refine ⟨hnone, ?_⟩
  rintro ⟨⟨qs, cs, hsome, _⟩, _, _⟩
  cases hnone.symm.trans hsome

/-- A sender is an open socket, so there are never `2 ^ 32` of them. -/
theorem load_conserved (hqps : qps < 2 ^ 32) (hconnections : connectionCount < 2 ^ 32)
    (hk : 0 < k) (hsenders : k < 2 ^ 32) : LoadConserved qps connectionCount k :=
  (load_conserved_iff hqps hconnections hk).mpr (.inl hsenders)

theorem load_conserved_threeSecondaries :
    calculateReqPerSecondary 5 2 3 = some ([2, 2, 1], [1, 1, 0]) ∧ LoadConserved 5 2 3 :=
  ⟨by decide, load_conserved (by decide) (by decide) (by decide) (by decide)⟩

end Overload.Primary
