import Overload.Pool.Accounting
import Overload.Share
import Mathlib.Algebra.Order.BigOperators.Group.List

namespace Overload.Primary

open Share

def asU32 (n : Nat) : Nat := n % 2 ^ 32

/-- A vector of quotients, of which the first few are raised by one.  The shares are
`u32`s; an addition that would overflow stops the job. -/
def spread (perSecondary remainder nSecondary : Nat) : Option (List Nat) :=
  if 0 < remainder ∧ 2 ^ 32 ≤ perSecondary + 1 then none
  else some ((List.range nSecondary).map fun pos =>
    if pos < remainder then perSecondary + 1 else perSecondary)

/-- The quotients are taken by `n_secondary as u32`, the remainders by the `usize`. -/
def calculateReqPerSecondary (qps connectionCount nSecondary : Nat) :
    Option (List Nat × List Nat) :=
  if asU32 nSecondary = 0 then none
  else
    let qpsPerSecondary := qps / asU32 nSecondary
    let connectionCountPerSecondary := connectionCount / asU32 nSecondary
    (spread qpsPerSecondary (qps % nSecondary) nSecondary).bind fun qpsToSecondaries =>
      (spread connectionCountPerSecondary (connectionCount % nSecondary) nSecondary).map
        fun connectionCountToSecondaries => (qpsToSecondaries, connectionCountToSecondaries)

variable {qps connectionCount total k : Nat}

theorem asU32_le (k : Nat) : asU32 k ≤ k := Nat.mod_le k _

theorem asU32_eq_self : asU32 k = k ↔ k < 2 ^ 32 := Nat.mod_eq_iff_lt (by decide)

theorem calculateReqPerSecondary_eq_some {qs cs : List Nat} :
    calculateReqPerSecondary qps connectionCount k = some (qs, cs) ↔
      asU32 k ≠ 0 ∧ spread (qps / asU32 k) (qps % k) k = some qs ∧
        spread (connectionCount / asU32 k) (connectionCount % k) k = some cs := by
  simp only [calculateReqPerSecondary]
  split
  · simp [*]
  · simp [Option.bind_eq_some_iff, *]

theorem spread_eq_share (htotal : total < 2 ^ 32) (hk : k < 2 ^ 32 ∨ total < asU32 k) :
    spread (total / asU32 k) (total % k) k = some ((List.range k).map (share total k)) := by
  have hdiv : total / asU32 k = total / k := by
    rcases hk with hk | hk
    · rw [asU32_eq_self.mpr hk]
    · have hle := asU32_le k
      rw [Nat.div_eq_of_lt hk, Nat.div_eq_of_lt (by omega)]
  have hfits : ¬ (0 < total % k ∧ 2 ^ 32 ≤ total / k + 1) := by
    rintro ⟨hrest, hlarge⟩
    have hadd := Nat.div_add_mod total k
    rcases Nat.eq_zero_or_pos k with rfl | hpos
    · simp at hlarge
    · have hmul : total / k ≤ k * (total / k) := Nat.le_mul_of_pos_left _ hpos
      omega
  rw [hdiv, spread, if_neg hfits]
  rfl

/-- The vectors have one entry for each secondary, nothing is lost or added, and
every entry is the exact share rounded down or up. -/
structure Divides (total k : Nat) (shares : List Nat) : Prop where
  length : shares.length = k
  sum : shares.sum = total
  even : ∀ q ∈ shares, q = total / k ∨ q = (total + (k - 1)) / k

theorem divides_share (hk : 0 < k) : Divides total k ((List.range k).map (share total k)) where
  length := by simp
  sum := by rw [sum_share, offset_self hk]
  even := by
    intro q hq
    obtain ⟨pos, _, rfl⟩ := List.mem_map.mp hq
    exact share_eq_floor_or_ceil hk pos

theorem not_divides_spread {shares : List Nat} (htotal : total < 2 ^ 32) (hk : 2 ^ 32 ≤ k)
    (hzero : asU32 k ≠ 0) (hle : asU32 k ≤ total)
    (h : spread (total / asU32 k) (total % k) k = some shares) : ¬ Divides total k shares := by
  intro hdivides
  have hpos : 0 < total / asU32 k := Nat.div_pos hle (Nat.pos_of_ne_zero hzero)
  have hone : ∀ q ∈ shares, 1 ≤ q := by
    unfold spread at h
    split at h
    · cases h
    · obtain rfl := Option.some.inj h
      intro q hq
      obtain ⟨pos, _, rfl⟩ := List.mem_map.mp hq
      split <;> omega
  have hsum := List.length_le_sum_of_one_le shares hone
  rw [hdivides.length, hdivides.sum] at hsum
  omega

def Conserves (qps connectionCount k : Nat) : Prop :=
  ∃ qpsToSecondaries connectionCountToSecondaries,
    calculateReqPerSecondary qps connectionCount k =
      some (qpsToSecondaries, connectionCountToSecondaries) ∧
    Divides qps k qpsToSecondaries ∧ Divides connectionCount k connectionCountToSecondaries

theorem conserves_iff (hqps : qps < 2 ^ 32) (hconnections : connectionCount < 2 ^ 32)
    (hk : 0 < k) :
    Conserves qps connectionCount k ↔
      k < 2 ^ 32 ∨ (qps < asU32 k ∧ connectionCount < asU32 k) := by
  constructor
  · rintro ⟨qs, cs, hcalculate, hqs, hcs⟩
    obtain ⟨hzero, hqspread, hcspread⟩ := calculateReqPerSecondary_eq_some.mp hcalculate
    by_cases hsmall : k < 2 ^ 32
    · exact .inl hsmall
    · refine .inr ⟨?_, ?_⟩
      · by_contra hle
        exact not_divides_spread hqps (by omega) hzero (by omega) hqspread hqs
      · by_contra hle
        exact not_divides_spread hconnections (by omega) hzero (by omega) hcspread hcs
  · intro hsmall
    have hzero : asU32 k ≠ 0 := by
      rcases hsmall with hsmall | ⟨hlt, _⟩
      · rw [asU32_eq_self.mpr hsmall]
        omega
      · omega
    refine ⟨_, _, calculateReqPerSecondary_eq_some.mpr ⟨hzero, spread_eq_share hqps ?_,
      spread_eq_share hconnections ?_⟩, divides_share hk, divides_share hk⟩
    · exact hsmall.imp_right And.left
    · exact hsmall.imp_right And.right

theorem spread_eq_none (htotal : total < 2 ^ 32) (hzero : asU32 k ≠ 0) :
    spread (total / asU32 k) (total % k) k = none ↔
      total = 2 ^ 32 - 1 ∧ asU32 k = 1 ∧ k ≠ 1 := by
  have hoverflow : spread (total / asU32 k) (total % k) k = none ↔
      0 < total % k ∧ 2 ^ 32 ≤ total / asU32 k + 1 := by
    unfold spread
    split
    · exact iff_of_true rfl ‹_›
    · exact iff_of_false (by simp) ‹_›
  rw [hoverflow]
  constructor
  · rintro ⟨hrest, hlarge⟩
    have hle : total / asU32 k ≤ total := Nat.div_le_self _ _
    have hone : asU32 k = 1 := by
      by_contra hne
      have hhalf : total / asU32 k ≤ total / 2 := Nat.div_le_div_left (by omega) (by decide)
      omega
    refine ⟨by omega, hone, ?_⟩
    rintro rfl
    simp [Nat.mod_one] at hrest
  · rintro ⟨rfl, hone, hne⟩
    have hlarge : ¬ k < 2 ^ 32 := by
      intro hk
      exact hne (asU32_eq_self.mpr hk ▸ hone)
    rw [hone, Nat.div_one, Nat.mod_eq_of_lt (by omega)]
    omega

def Shareable (qps connectionCount k : Nat) : Prop :=
  asU32 k ≠ 0 ∧
    (asU32 k = 1 → k = 1 ∨ (qps ≠ 2 ^ 32 - 1 ∧ connectionCount ≠ 2 ^ 32 - 1))

instance : Decidable (Shareable qps connectionCount k) := inferInstanceAs (Decidable (_ ∧ _))

theorem shareable_iff (hqps : qps < 2 ^ 32) (hconnections : connectionCount < 2 ^ 32) :
    (∃ qs cs, calculateReqPerSecondary qps connectionCount k = some (qs, cs)) ↔
      Shareable qps connectionCount k := by
  have hspread : ∀ {total}, total < 2 ^ 32 → asU32 k ≠ 0 →
      ((∃ shares, spread (total / asU32 k) (total % k) k = some shares) ↔
        (asU32 k = 1 → k = 1 ∨ total ≠ 2 ^ 32 - 1)) := by
    intro total htotal hzero
    rw [← Option.ne_none_iff_exists', ne_eq, spread_eq_none htotal hzero]
    tauto
  constructor
  · rintro ⟨qs, cs, h⟩
    obtain ⟨hzero, hqs, hcs⟩ := calculateReqPerSecondary_eq_some.mp h
    have hq := (hspread hqps hzero).mp ⟨qs, hqs⟩
    have hc := (hspread hconnections hzero).mp ⟨cs, hcs⟩
    exact ⟨hzero, fun hone => by have := hq hone; have := hc hone; tauto⟩
  · rintro ⟨hzero, hone⟩
    obtain ⟨qs, hqs⟩ := (hspread hqps hzero).mpr fun h => (hone h).imp_right And.left
    obtain ⟨cs, hcs⟩ := (hspread hconnections hzero).mpr fun h => (hone h).imp_right And.right
    exact ⟨qs, cs, calculateReqPerSecondary_eq_some.mpr ⟨hzero, hqs, hcs⟩⟩

theorem share_spread_pos {shares : List Nat} {pos q : Nat} (htotal : total < 2 ^ 32)
    (hzero : asU32 k ≠ 0) (h : spread (total / asU32 k) (total % k) k = some shares)
    (hq : shares[pos]? = some q) : 0 < q ↔ asU32 k ≤ total ∨ pos < total := by
  unfold spread at h
  split at h
  · cases h
  · obtain rfl := Option.some.inj h
    obtain ⟨hpos, rfl⟩ := List.getElem?_eq_some_iff.mp hq
    simp only [List.length_map, List.length_range] at hpos
    simp only [List.getElem_map, List.getElem_range]
    by_cases hk : k < 2 ^ 32
    · have hself := asU32_eq_self.mpr hk
      rw [hself]
      exact share_pos_iff hpos
    · rw [Nat.mod_eq_of_lt (show total < k by omega)]
      by_cases hle : asU32 k ≤ total
      · have hdiv : 0 < total / asU32 k := Nat.div_pos hle (Nat.pos_of_ne_zero hzero)
        split <;> omega
      · rw [Nat.div_eq_of_lt (Nat.lt_of_not_le hle)]
        split <;> omega

def Supplied (qps connectionCount k : Nat) : Prop :=
  ∃ qpsToSecondaries connectionCountToSecondaries,
    calculateReqPerSecondary qps connectionCount k =
      some (qpsToSecondaries, connectionCountToSecondaries) ∧
    ∀ pos q c : Nat, qpsToSecondaries[pos]? = some q → connectionCountToSecondaries[pos]? = some c →
      0 < q → 0 < c

theorem length_spread {shares : List Nat} {perSecondary remainder : Nat}
    (h : spread perSecondary remainder k = some shares) : shares.length = k := by
  unfold spread at h
  split at h
  · cases h
  · obtain rfl := Option.some.inj h
    simp

/-- Every secondary with requests has connections if and only if there are at least as
many connections as secondaries with requests. -/
theorem supplied_iff (hqps : qps < 2 ^ 32) (hconnections : connectionCount < 2 ^ 32) :
    Supplied qps connectionCount k ↔
      Shareable qps connectionCount k ∧ min qps (asU32 k) ≤ connectionCount := by
  constructor
  · rintro ⟨qs, cs, hcalculate, hsupplied⟩
    refine ⟨(shareable_iff hqps hconnections).mp ⟨qs, cs, hcalculate⟩, ?_⟩
    obtain ⟨hzero, hqs, hcs⟩ := calculateReqPerSecondary_eq_some.mp hcalculate
    -- otherwise the first secondary without connections has requests
    by_contra hless
    have hpos : connectionCount < k := by
      have := asU32_le k
      omega
    obtain ⟨q, hq⟩ : ∃ q, qs[connectionCount]? = some q :=
      ⟨_, List.getElem?_eq_getElem (by rwa [length_spread hqs])⟩
    obtain ⟨c, hc⟩ : ∃ c, cs[connectionCount]? = some c :=
      ⟨_, List.getElem?_eq_getElem (by rwa [length_spread hcs])⟩
    have hcpos := hsupplied _ q c hq hc ((share_spread_pos hqps hzero hqs hq).mpr (by omega))
    rw [share_spread_pos hconnections hzero hcs hc] at hcpos
    omega
  · rintro ⟨hshareable, hle⟩
    obtain ⟨qs, cs, hcalculate⟩ := (shareable_iff hqps hconnections).mpr hshareable
    obtain ⟨hzero, hqs, hcs⟩ := calculateReqPerSecondary_eq_some.mp hcalculate
    refine ⟨qs, cs, hcalculate, ?_⟩
    intro pos q c hq hc hpos
    rw [share_spread_pos hqps hzero hqs hq] at hpos
    rw [share_spread_pos hconnections hzero hcs hc]
    omega

theorem supplied_fourSecondaries :
    calculateReqPerSecondary 6 4 4 = some ([2, 2, 1, 1], [1, 1, 1, 1]) ∧ Supplied 6 4 4 :=
  ⟨by decide, (supplied_iff (by decide) (by decide)).mpr (by decide)⟩

theorem oneConnection_starves :
    calculateReqPerSecondary 10 1 2 = some ([5, 5], [1, 0]) ∧ ¬ Supplied 10 1 2 ∧
    ∀ (w : Pool.World) (n dropped broken : Nat) (vec : List Pool.HttpConnection),
      Transition.Reachable Pool.step (Pool.Initial false) w → w.pool.elastic = false →
      w.pool.maxConnection = 0 → w.call = .checking n [] vec dropped broken → vec = [] := by
  have hshares : calculateReqPerSecondary 10 1 2 = some ([5, 5], [1, 0]) := by decide
  refine ⟨hshares, ?_, ?_⟩
  · rintro ⟨qs, cs, hcalculate, hsupplied⟩
    obtain ⟨rfl, rfl⟩ := Prod.mk.inj (Option.some.inj (hshares.symm.trans hcalculate))
    exact absurd (hsupplied 1 5 0 rfl rfl (by decide)) (by decide)
  · intro w n dropped broken vec hreachable helastic hsize hcall
    exact Pool.lends_nothing hreachable hcall helastic hsize

end Overload.Primary
