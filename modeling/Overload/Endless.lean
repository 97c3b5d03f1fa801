import Overload.Transition

universe u v

namespace Overload.Transition

variable {σ : Type u} {α : Type v}

structure Endless (step : Step σ α) where
  state : Nat → σ
  action : Nat → α
  next : ∀ i, step (state i) (action i) = some (state (i + 1))

namespace Endless

variable {step : Step σ α} (r : Endless step) {I : σ → Prop} {F : σ → α → Prop}
  {goal : Nat → Prop} {i k : Nat}

def Recurs (F : σ → α → Prop) : Prop := ∀ i, ∃ j, i ≤ j ∧ F (r.state j) (r.action j)

theorem reachable {init : σ → Prop} (h : Reachable step init (r.state 0)) (i : Nat) :
    Reachable step init (r.state i) := by
  induction i with
  | zero => exact h
  | succ i ih => exact ih.run (run_singleton.trans (r.next i))

theorem exists_of_run {s : σ} {as : List α} (h : run step s as = some (r.state 0)) :
    ∃ r' : Endless step, r'.state 0 = s ∧ ∀ F, r.Recurs F → r'.Recurs F := by
  induction as generalizing s with
  | nil => exact ⟨r, (Option.some.inj h).symm, fun _ => id⟩
  | cons a as ih =>
    obtain ⟨t, hstep, hrest⟩ := run_cons_eq_some.mp h
    obtain ⟨r', rfl, hrecurs⟩ := ih hrest
    refine ⟨⟨fun i => i.casesOn s r'.state, fun i => i.casesOn a r'.action, ?_⟩, rfl, ?_⟩
    · intro i
      cases i with
      | zero => exact hstep
      | succ i => exact r'.next i
    · intro F hF i
      obtain ⟨j, hij, hj⟩ := hrecurs F hF i
      exact ⟨j + 1, by omega, hj⟩

theorem exists_leave (hik : i ≤ k) (hi : I (r.state i)) (hk : ¬ I (r.state k)) :
    ∃ j, i ≤ j ∧ j < k ∧ I (r.state j) ∧ ¬ I (r.state (j + 1)) := by
  induction k with
  | zero =>
    obtain rfl : i = 0 := by omega
    exact absurd hi hk
  | succ k ih =>
    by_cases hlast : i ≤ k ∧ I (r.state k)
    · exact ⟨k, hlast.1, by omega, hlast.2, hk⟩
    · have hik' : i ≤ k := by
        by_contra hlt
        obtain rfl : i = k + 1 := by omega
        exact hk hi
      obtain ⟨j, hij, hjk, hj⟩ := ih hik' fun hI => hlast ⟨hik', hI⟩
      exact ⟨j, hij, by omega, hj⟩

theorem eventually_of_rank (rank : σ → Nat) (hF : r.Recurs F)
    (hstep : ∀ i, I (r.state i) → goal i ∨ I (r.state (i + 1)) ∧
      rank (r.state (i + 1)) ≤ rank (r.state i) ∧
      (F (r.state i) (r.action i) → rank (r.state (i + 1)) < rank (r.state i)))
    (hi : I (r.state i)) : ∃ j, i ≤ j ∧ goal j := by
  induction hn : rank (r.state i) using Nat.strong_induction_on generalizing i with
  | _ n ih =>
    subst hn
    obtain ⟨j, hij, hj⟩ := hF i
    -- up to the next helpful step the rank is kept, unless the goal comes first
    have hkept : ∀ k, i ≤ k → k ≤ j → (∃ l, i ≤ l ∧ goal l) ∨
        I (r.state k) ∧ rank (r.state k) ≤ rank (r.state i) := by
      intro k hik hkj
      induction k, hik using Nat.le_induction with
      | base => exact .inr ⟨hi, Nat.le_refl _⟩
      | succ k hik ihk =>
        rcases ihk (by omega) with hgoal | ⟨hk, hrank⟩
        · exact .inl hgoal
        · rcases hstep k hk with hgoal | ⟨hnext, hle, _⟩
          · exact .inl ⟨k, hik, hgoal⟩
          · exact .inr ⟨hnext, Nat.le_trans hle hrank⟩
    rcases hkept j hij (Nat.le_refl _) with hgoal | ⟨hIj, hrank⟩
    · exact hgoal
    · rcases hstep j hIj with hgoal | ⟨hnext, _, hlt⟩
      · exact ⟨j, hij, hgoal⟩
      · obtain ⟨l, hjl, hgoal⟩ := ih _ (Nat.lt_of_lt_of_le (hlt hj) hrank) hnext rfl
        exact ⟨l, by omega, hgoal⟩

end Endless

end Overload.Transition
