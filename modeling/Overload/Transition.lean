import Mathlib.Algebra.Ring.Nat
import Mathlib.Data.List.Induction

/-! Machines given by a partial step function, their runs, and the rules that
carry a property of one step to a property of every run.  Nothing here knows
which machine is run. -/

universe u v

namespace Overload.Transition

variable {σ : Type u} {α : Type v}

abbrev Step (σ : Type u) (α : Type v) := σ → α → Option σ

def run (step : Step σ α) : σ → List α → Option σ
  | s, [] => some s
  | s, a :: as => (step s a).bind fun t => run step t as

variable {step : Step σ α} {s t : σ} {a : α} {as bs : List α}

@[simp] theorem run_nil : run step s [] = some s := rfl

theorem run_cons : run step s (a :: as) = (step s a).bind fun t => run step t as := rfl

theorem run_cons_eq_some :
    run step s (a :: as) = some t ↔ ∃ u, step s a = some u ∧ run step u as = some t := by
  rw [run_cons, Option.bind_eq_some_iff]

theorem run_append :
    run step s (as ++ bs) = (run step s as).bind fun u => run step u bs := by
  induction as generalizing s with
  | nil => rfl
  | cons a as ih =>
    simp only [List.cons_append, run_cons]
    cases step s a with
    | none => rfl
    | some u => exact ih

theorem run_append_eq_some :
    run step s (as ++ bs) = some t ↔ ∃ u, run step s as = some u ∧ run step u bs = some t := by
  rw [run_append, Option.bind_eq_some_iff]

@[simp] theorem run_singleton : run step s [a] = step s a := by
  cases h : step s a <;> simp [run_cons, h]

theorem run_concat_eq_some :
    run step s (as ++ [a]) = some t ↔ ∃ u, run step s as = some u ∧ step u a = some t := by
  simp only [run_append_eq_some, run_singleton]

theorem run_invariant {I : σ → Prop} (hstep : ∀ s a t, I s → step s a = some t → I t)
    (hs : I s) (hrun : run step s as = some t) : I t := by
  induction as generalizing s with
  | nil =>
    cases hrun
    exact hs
  | cons a as ih =>
    obtain ⟨u, hu, hrest⟩ := run_cons_eq_some.mp hrun
    exact ih (hstep s a u hs hu) hrest

def Reachable (step : Step σ α) (init : σ → Prop) (s : σ) : Prop :=
  ∃ s₀ as, init s₀ ∧ run step s₀ as = some s

theorem Reachable.of_init {init : σ → Prop} (h : init s) : Reachable step init s :=
  ⟨s, [], h, rfl⟩

theorem Reachable.run {init : σ → Prop} (h : Reachable step init s)
    (hrun : Transition.run step s as = some t) : Reachable step init t := by
  obtain ⟨s₀, bs, h₀, hbs⟩ := h
  exact ⟨s₀, bs ++ as, h₀, run_append_eq_some.mpr ⟨s, hbs, hrun⟩⟩

theorem Reachable.invariant {init I : σ → Prop} (hinit : ∀ s, init s → I s)
    (hstep : ∀ s a t, I s → step s a = some t → I t) (h : Reachable step init s) : I s := by
  obtain ⟨s₀, as, h₀, hrun⟩ := h
  exact run_invariant hstep (hinit s₀ h₀) hrun

theorem exists_run_of_rank {I goal : σ → Prop} {C : α → Prop} (rank : σ → Nat)
    (hstep : ∀ s, I s → goal s ∨ ∃ a t, C a ∧ step s a = some t ∧ I t ∧ rank t < rank s)
    (hs : I s) : ∃ as t, (∀ a ∈ as, C a) ∧ Transition.run step s as = some t ∧ goal t := by
  induction hn : rank s using Nat.strong_induction_on generalizing s with
  | _ n ih =>
    subst hn
    obtain hgoal | ⟨a, t, ha, hat, ht, hrank⟩ := hstep s hs
    · exact ⟨[], s, List.forall_mem_nil _, rfl, hgoal⟩
    · obtain ⟨as, u, has, hrun, hgoal⟩ := ih _ hrank ht rfl
      exact ⟨a :: as, u, List.forall_mem_cons.mpr ⟨ha, has⟩, run_cons_eq_some.mpr ⟨t, hat, hrun⟩,
        hgoal⟩

theorem Reachable.map {τ : Type u} {β : Type v} {step' : Step τ β} {init : σ → Prop}
    {init' : τ → Prop} (abs : σ → τ) (label : σ → α → β)
    (hinit : ∀ s, init s → init' (abs s))
    (hstep : ∀ s a t, step s a = some t → step' (abs s) (label s a) = some (abs t))
    (h : Reachable step init s) : Reachable step' init' (abs s) := by
  apply h.invariant (I := fun s => Reachable step' init' (abs s))
  · intro s hs
    exact .of_init (hinit s hs)
  · intro s a t hs ht
    have hone : Transition.run step' (abs s) [label s a] = some (abs t) := by
      simpa using hstep s a t ht
    exact hs.run hone

def tally (step : Step σ α) (f : σ → α → Nat) : σ → List α → Nat
  | _, [] => 0
  | s, a :: as => f s a + ((step s a).map fun t => tally step f t as).getD 0

@[simp] theorem tally_nil (f : σ → α → Nat) : tally step f s [] = 0 := rfl

theorem tally_append (f : σ → α → Nat) (hrun : run step s as = some t) :
    tally step f s (as ++ bs) = tally step f s as + tally step f t bs := by
  induction as generalizing s with
  | nil =>
    cases hrun
    simp
  | cons a as ih =>
    obtain ⟨u, hu, hrest⟩ := run_cons_eq_some.mp hrun
    simp only [List.cons_append, tally, hu, Option.map_some, Option.getD_some, ih hrest]
    omega

theorem tally_concat (f : σ → α → Nat) (hrun : run step s as = some t) :
    tally step f s (as ++ [a]) = tally step f s as + f t a := by
  rw [tally_append f hrun]
  cases h : step t a <;> simp [tally, h]

/-- `P` holds after every prefix of the run; it may look at the actions so far. -/
def Always (step : Step σ α) (P : List α → σ → Prop) (s₀ : σ) (as : List α) : Prop :=
  ∀ past rest s, as = past ++ rest → run step s₀ past = some s → P past s

/-- Every action of the run is taken in a state that meets the condition `C`. -/
def Meets (step : Step σ α) (C : List α → σ → α → Prop) (s₀ : σ) (as : List α) : Prop :=
  ∀ past a rest s, as = past ++ a :: rest → run step s₀ past = some s → C past s a

variable {s₀ : σ} {I : σ → Prop} {P Q : List α → σ → Prop} {C : List α → σ → α → Prop}

theorem Always.mono (h : Always step P s₀ as) (hPQ : ∀ past s, P past s → Q past s) :
    Always step Q s₀ as :=
  fun past rest s hsplit hrun => hPQ past s (h past rest s hsplit hrun)

theorem Always.last (h : Always step P s₀ as) (hrun : run step s₀ as = some s) : P as s :=
  h as [] s (by simp) hrun

theorem not_always_of_last (hrun : run step s₀ as = some s) (h : ¬ P as s) :
    ¬ Always step P s₀ as :=
  fun hP => h (hP.last hrun)

theorem Always.of_meets (hI₀ : I s₀) (hI : ∀ s a t, I s → step s a = some t → I t)
    (hP₀ : P [] s₀)
    (hP : ∀ past s a t, I s → P past s → C past s a → step s a = some t → P (past ++ [a]) t)
    (h : Meets step C s₀ as) : Always step P s₀ as := by
  intro past
  induction past using List.reverseRecOn with
  | nil =>
    intro rest s _ hrun
    cases hrun
    exact hP₀
  | append_singleton past a ih =>
    intro rest s hsplit hrun
    obtain ⟨u, hu, hstep⟩ := run_concat_eq_some.mp hrun
    have hsplit' : as = past ++ a :: rest := by simpa using hsplit
    exact hP past u a s (run_invariant hI hI₀ hu) (ih (a :: rest) u hsplit' hu)
      (h past a rest u hsplit' hu) hstep

theorem Meets.always (hP₀ : P [] s₀)
    (hP : ∀ past s a t, P past s → C past s a → step s a = some t → P (past ++ [a]) t)
    (h : Meets step C s₀ as) : Always step P s₀ as :=
  .of_meets (I := fun _ => True) trivial (fun _ _ _ _ _ => trivial) hP₀
    (fun past s a t _ => hP past s a t) h

theorem Always.of_always (hP₀ : P [] s₀)
    (hP : ∀ past s a t, P past s → step s a = some t → Q (past ++ [a]) t → P (past ++ [a]) t)
    (h : Always step Q s₀ as) : Always step P s₀ as := by
  refine Meets.always (C := fun past s a => ∀ t, step s a = some t → Q (past ++ [a]) t) hP₀ ?_ ?_
  · intro past s a t hs hQ hst
    exact hP past s a t hs hst (hQ t hst)
  · intro past a rest u hsplit hu t ht
    exact h (past ++ [a]) rest t (by simpa using hsplit) (run_concat_eq_some.mpr ⟨u, hu, ht⟩)

theorem Always.meets
    (hC : ∀ past s a t, step s a = some t → P past s → P (past ++ [a]) t →
      run step s₀ past = some s → C past s a)
    (h : Always step P s₀ as) (hrun : run step s₀ as = some s) : Meets step C s₀ as := by
  intro past a rest u hsplit hu
  rw [hsplit, run_append_eq_some] at hrun
  obtain ⟨u', hu', hrest⟩ := hrun
  obtain rfl : u = u' := Option.some.inj (hu.symm.trans hu')
  obtain ⟨t, ht, _⟩ := run_cons_eq_some.mp hrest
  refine hC past u a t ht (h past (a :: rest) u hsplit hu) ?_ hu
  exact h (past ++ [a]) rest t (by simpa using hsplit) (run_concat_eq_some.mpr ⟨u, hu, ht⟩)

theorem always_iff_meets (hI₀ : I s₀) (hI : ∀ s a t, I s → step s a = some t → I t)
    (hP₀ : P [] s₀)
    (hP : ∀ past s a t, I s → P past s → step s a = some t → (P (past ++ [a]) t ↔ C past s a))
    (hrun : run step s₀ as = some s) : Always step P s₀ as ↔ Meets step C s₀ as := by
  constructor
  · intro h
    refine h.meets ?_ hrun
    intro past s a t hst hp hp' hs
    exact (hP past s a t (run_invariant hI hI₀ hs) hp hst).mp hp'
  · exact Always.of_meets hI₀ hI hP₀
      fun past s a t hs hp hc hst => (hP past s a t hs hp hst).mpr hc

theorem meets_cons : Meets step C s (a :: as) ↔
    C [] s a ∧ ∀ t ∈ step s a, Meets step (fun past => C (a :: past)) t as := by
  constructor
  · intro h
    refine ⟨h [] a as s rfl rfl, ?_⟩
    intro t ht past b rest u hsplit hu
    exact h (a :: past) b rest u (by simp [hsplit]) (run_cons_eq_some.mpr ⟨t, ht, hu⟩)
  · rintro ⟨hhead, htail⟩ past b rest u hsplit hu
    cases past with
    | nil =>
      obtain ⟨rfl, rfl⟩ := List.cons.inj hsplit
      cases hu
      exact hhead
    | cons c past =>
      obtain ⟨rfl, rfl⟩ := List.cons.inj hsplit
      obtain ⟨t, ht, hu⟩ := run_cons_eq_some.mp hu
      exact htail t ht past b rest u rfl hu

instance decidableMeets (C : List α → σ → α → Prop) [∀ past s a, Decidable (C past s a)]
    (s : σ) : ∀ as, Decidable (Meets step C s as)
  | [] => isTrue (by simp [Meets])
  | a :: as =>
    have := fun t => decidableMeets (fun past => C (a :: past)) t as
    decidable_of_iff _ meets_cons.symm

abbrev AlongSteps (step : Step σ α) (R : σ → α → σ → Prop) (s₀ : σ) (as : List α) : Prop :=
  Meets step (fun _ s a => ∀ t ∈ step s a, R s a t) s₀ as

theorem alongSteps_iff_meets {R : σ → α → σ → Prop}
    (hR : ∀ past s a t, step s a = some t → (R s a t ↔ C past s a))
    (hrun : run step s₀ as = some s) : AlongSteps step R s₀ as ↔ Meets step C s₀ as := by
  constructor
  · intro h past a rest u hsplit hu
    rw [hsplit, run_append_eq_some] at hrun
    obtain ⟨u', hu', hrest⟩ := hrun
    obtain rfl : u = u' := Option.some.inj (hu.symm.trans hu')
    obtain ⟨t, ht, _⟩ := run_cons_eq_some.mp hrest
    exact (hR past u a t ht).mp (h past a rest u hsplit hu t ht)
  · intro h past a rest u hsplit hu t ht
    exact (hR past u a t ht).mpr (h past a rest u hsplit hu)

theorem not_alongSteps_of_last {R : σ → α → σ → Prop} (hrun : run step s₀ as = some s)
    (hstep : step s a = some t) (h : ¬ R s a t) : ¬ AlongSteps step R s₀ (as ++ [a]) :=
  fun hR => h (hR as a [] s (by simp) hrun t hstep)

theorem split_concat {past before after : List α} {b : α}
    (h : past ++ [b] = before ++ a :: after) :
    (before = past ∧ a = b ∧ after = []) ∨
      ∃ after', after = after' ++ [b] ∧ past = before ++ a :: after' := by
  cases after using List.reverseRecOn with
  | nil =>
    obtain ⟨hpast, hb⟩ := List.append_inj' h rfl
    exact .inl ⟨hpast.symm, (List.singleton_inj.mp hb).symm, rfl⟩
  | append_singleton after' c =>
    rw [← List.cons_append, ← List.append_assoc] at h
    obtain ⟨hpast, hb⟩ := List.append_inj' h rfl
    obtain rfl := List.singleton_inj.mp hb
    exact .inr ⟨after', rfl, hpast⟩

theorem exists_split_of_getElem? {l : List σ} {i : Nat} {x : σ} (h : l[i]? = some x) :
    ∃ l₁ l₂, l = l₁ ++ x :: l₂ ∧ (∀ y, l.set i y = l₁ ++ y :: l₂) ∧ l.eraseIdx i = l₁ ++ l₂ := by
  obtain ⟨hi, hx⟩ := List.getElem?_eq_some_iff.mp h
  refine ⟨l.take i, l.drop (i + 1), ?_, ?_, List.eraseIdx_eq_take_drop_succ l i⟩
  · rw [← hx, List.getElem_cons_drop, List.take_append_drop]
  · intro y
    rw [List.set_eq_take_append_cons_drop, if_pos hi]

theorem getElem?_concat_cases {l : List σ} {j : Nat} {x y : σ} (h : (l ++ [x])[j]? = some y) :
    l[j]? = some y ∨ y = x := by
  rw [List.getElem?_append] at h
  split at h
  · exact .inl h
  · exact .inr (List.mem_singleton.mp (List.mem_of_getElem? h))

theorem getElem?_set_cases {l : List σ} {i j : Nat} {x y : σ} (h : (l.set i x)[j]? = some y) :
    (j = i ∧ y = x) ∨ (j ≠ i ∧ l[j]? = some y) := by
  rw [List.getElem?_set] at h
  split at h
  · split at h
    · exact .inl ⟨Eq.symm ‹_›, (Option.some.inj h).symm⟩
    · cases h
  · exact .inr ⟨Ne.symm ‹_›, h⟩

theorem sum_map_split (f : σ → Nat) (l₁ l₂ : List σ) (x : σ) :
    ((l₁ ++ x :: l₂).map f).sum = ((l₁ ++ l₂).map f).sum + f x := by
  simp only [List.map_append, List.map_cons, List.sum_append, List.sum_cons]
  omega

theorem sum_map_set (f : σ → Nat) {l : List σ} {i : Nat} {x : σ} (y : σ)
    (h : l[i]? = some x) : ((l.set i y).map f).sum + f x = (l.map f).sum + f y := by
  obtain ⟨l₁, l₂, hsplit, hset, _⟩ := exists_split_of_getElem? h
  rw [hset y, hsplit, sum_map_split, sum_map_split]
  omega

theorem sum_map_eraseIdx (f : σ → Nat) {l : List σ} {i : Nat} {x : σ} (h : l[i]? = some x) :
    ((l.eraseIdx i).map f).sum + f x = (l.map f).sum := by
  obtain ⟨l₁, l₂, hsplit, _, herase⟩ := exists_split_of_getElem? h
  rw [herase, hsplit, sum_map_split]

theorem perm_flatMap_split {β : Type v} (f : σ → List β) (l₁ l₂ : List σ) (x : σ) :
    ((l₁ ++ x :: l₂).flatMap f).Perm (f x ++ (l₁ ++ l₂).flatMap f) := by
  simp only [List.flatMap_append, List.flatMap_cons]
  exact List.perm_append_comm_assoc _ _ _

end Overload.Transition
