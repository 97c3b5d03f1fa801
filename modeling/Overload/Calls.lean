import Mathlib.Data.List.Forall2

namespace Overload.Calls

/-- What becomes of a call: it comes back, it panics, or it has not come back in the turns that
it was given. -/
inductive Outcome (α : Type)
  | returned (value : α)
  | panicked
  | endless
  deriving DecidableEq, Repr

namespace Outcome

variable {α β : Type}

def ofOption : Option α → Outcome α
  | some value => .returned value
  | none => .panicked

def map (f : α → β) : Outcome α → Outcome β
  | .returned value => .returned (f value)
  | .panicked => .panicked
  | .endless => .endless

def bind (o : Outcome α) (f : α → Outcome β) : Outcome β :=
  match o with
  | .returned value => f value
  | .panicked => .panicked
  | .endless => .endless

def value? : Outcome α → Option α
  | .returned value => some value
  | _ => none

theorem value?_eq_some {o : Outcome α} {value : α} :
    o.value? = some value ↔ o = .returned value := by
  cases o <;> simp [value?]

theorem bind_eq_returned {o : Outcome α} {f : α → Outcome β} {b : β} :
    o.bind f = .returned b ↔ ∃ a, o = .returned a ∧ f a = .returned b := by
  cases o <;> simp [bind]

theorem map_eq_returned {o : Outcome α} {f : α → β} {b : β} :
    o.map f = .returned b ↔ ∃ a, o = .returned a ∧ f a = b := by
  cases o <;> simp [map]

end Outcome

section Independent

variable {α β : Type} {f : α → Option β} {xs : List α}

theorem mapM_eq_ite (f : α → Option β) (xs : List α) :
    xs.mapM f = if xs.all fun a => (f a).isSome then some (xs.filterMap f) else none := by
  induction xs with
  | nil => rfl
  | cons a xs ih =>
    rw [List.mapM_cons, ih, List.all_cons, List.filterMap_cons]
    cases f a with
    | none => rfl
    | some b => split <;> simp_all

theorem isSome_of_mapM {ys : List β} (h : xs.mapM f = some ys) {a : α} (ha : a ∈ xs) :
    (f a).isSome := by
  rw [mapM_eq_ite] at h
  split at h
  · rename_i hall
    exact List.all_eq_true.mp hall a ha
  · cases h

theorem mapM_eq_some_iff {ys : List β} : xs.mapM f = some ys ↔ xs.map f = ys.map some := by
  induction xs generalizing ys with
  | nil => cases ys <;> simp
  | cons a xs ih =>
    rw [List.mapM_cons, List.map_cons]
    cases ys with
    | nil =>
      cases f a with
      | none => simp
      | some b => cases xs.mapM f <;> simp
    | cons c ys =>
      rw [List.map_cons, List.cons.injEq, ← ih]
      cases f a with
      | none => simp
      | some b => cases xs.mapM f <;> simp

theorem forall₂_of_map_eq {ys : List β} (h : xs.map f = ys.map some) :
    List.Forall₂ (fun a b => f a = some b) xs ys := by
  have heq : List.Forall₂ (· = ·) (xs.map f) (ys.map some) := List.forall₂_eq_eq_eq ▸ h
  rwa [List.forall₂_map_left_iff, List.forall₂_map_right_iff] at heq

theorem mapM_of_forall (h : ∀ a ∈ xs, (f a).isSome) :
    ∃ ys, xs.mapM f = some ys ∧ ys.length = xs.length ∧ ∀ b ∈ ys, ∃ a ∈ xs, f a = some b := by
  induction xs with
  | nil => exact ⟨[], rfl, rfl, by simp⟩
  | cons a xs ih =>
    obtain ⟨ha, hxs⟩ := List.forall_mem_cons.mp h
    obtain ⟨b, hb⟩ := Option.isSome_iff_exists.mp ha
    obtain ⟨ys, hys, hlength, hmem⟩ := ih hxs
    refine ⟨b :: ys, by simp [hb, hys], by simp [hlength], fun c hc => ?_⟩
    rcases List.mem_cons.mp hc with rfl | hc
    · exact ⟨a, List.mem_cons_self, hb⟩
    · obtain ⟨a', ha', hc⟩ := hmem c hc
      exact ⟨a', List.mem_cons_of_mem a ha', hc⟩

end Independent

theorem exists_forall₂_between {α β γ : Type} {R : α → β → Prop} {S : α → γ → Prop}
    {T : γ → β → Prop} {xs : List α} {ys : List β} (hR : ∀ a b, a ∈ xs → R a b → ∃ c, S a c ∧ T c b)
    (h : List.Forall₂ R xs ys) : ∃ zs, List.Forall₂ S xs zs ∧ List.Forall₂ T zs ys := by
  induction h with
  | nil => exact ⟨[], .nil, .nil⟩
  | cons hab _ ih =>
    obtain ⟨c, hS, hT⟩ := hR _ _ List.mem_cons_self hab
    obtain ⟨zs, hzs, hzs'⟩ := ih fun a b ha => hR a b (List.mem_cons_of_mem _ ha)
    exact ⟨c :: zs, .cons hS hzs, .cons hT hzs'⟩

theorem exists_forall₂ {α β γ : Type} {R : α → β → Prop} {S : α → γ → Prop} {xs : List α}
    {ys : List β} (hR : ∀ a b, a ∈ xs → R a b → ∃ c, S a c) (h : List.Forall₂ R xs ys) :
    ∃ zs, List.Forall₂ S xs zs := by
  have hbetween : ∀ a b, a ∈ xs → R a b → ∃ c, S a c ∧ True := by simpa only [and_true] using hR
  obtain ⟨zs, hzs, -⟩ := exists_forall₂_between (T := fun _ _ => True) hbetween h
  exact ⟨zs, hzs⟩

theorem forall₂_of_common {α β γ : Type} {R : α → β → Prop} {S : α → γ → Prop} {T : β → γ → Prop}
    {xs : List α} {ys : List β} {zs : List γ} (hRS : ∀ a b c, a ∈ xs → R a b → S a c → T b c)
    (hR : List.Forall₂ R xs ys) (hS : List.Forall₂ S xs zs) : List.Forall₂ T ys zs := by
  induction hR generalizing zs with
  | nil =>
    cases hS
    exact .nil
  | cons hab _ ih =>
    cases hS with
    | cons hac hS =>
      refine .cons (hRS _ _ _ List.mem_cons_self hab hac) (ih ?_ hS)
      exact fun a b c ha => hRS a b c (List.mem_cons_of_mem _ ha)

theorem forall₂_concat_left {α β : Type} {R : α → β → Prop} {xs : List α} {a : α} {ys : List β}
    (h : List.Forall₂ R (xs ++ [a]) ys) :
    ∃ front b, ys = front ++ [b] ∧ List.Forall₂ R xs front ∧ R a b := by
  induction xs generalizing ys with
  | nil =>
    obtain ⟨b, rest, hab, hrest, rfl⟩ := List.forall₂_cons_left_iff.mp h
    cases hrest
    exact ⟨[], b, rfl, .nil, hab⟩
  | cons c xs ih =>
    obtain ⟨d, rest, hcd, hrest, rfl⟩ := List.forall₂_cons_left_iff.mp h
    obtain ⟨front, b, rfl, hfront, hab⟩ := ih hrest
    exact ⟨d :: front, b, rfl, .cons hcd hfront, hab⟩

section Throwing

variable {ε α β : Type} {f : α → Except ε β} {xs : List α}

theorem bind_eq_ok {m : Except ε α} {b : β} : (m >>= f) = .ok b ↔ ∃ a, m = .ok a ∧ f a = .ok b := by
  cases m <;> simp [bind, Except.bind]

theorem bind_eq_error {m : Except ε α} {e : ε} (h : (m >>= f) = .error e) :
    m = .error e ∨ ∃ a, m = .ok a ∧ f a = .error e := by
  cases m with
  | error e' =>
    cases h
    exact .inl rfl
  | ok a => exact .inr ⟨a, rfl, h⟩

theorem mapM_eq_ok {ys : List β} :
    xs.mapM f = .ok ys ↔ List.Forall₂ (fun a b => f a = .ok b) xs ys := by
  induction xs generalizing ys with
  | nil =>
    rw [List.mapM_nil, List.forall₂_nil_left_iff]
    exact ⟨fun h => (Except.ok.inj h).symm, fun h => h ▸ rfl⟩
  | cons a xs ih =>
    rw [List.mapM_cons, List.forall₂_cons_left_iff]
    cases ha : f a with
    | error e => simp [bind, Except.bind]
    | ok b =>
      cases hxs : xs.mapM f with
      | error e =>
        refine iff_of_false nofun ?_
        rintro ⟨_, ys, _, hys, -⟩
        rw [ih.mpr hys] at hxs
        cases hxs
      | ok bs =>
        have hbs := ih.mp hxs
        constructor
        · rintro ⟨⟩
          exact ⟨b, bs, rfl, hbs, rfl⟩
        · rintro ⟨_, ys, ⟨⟩, hys, rfl⟩
          rw [ih.mpr hys] at hxs
          cases hxs
          rfl

theorem exists_of_mapM_eq_error {e : ε} (h : xs.mapM f = .error e) : ∃ a ∈ xs, f a = .error e := by
  induction xs with
  | nil => cases h
  | cons a xs ih =>
    rw [List.mapM_cons] at h
    cases ha : f a with
    | error e' =>
      rw [ha] at h
      cases h
      exact ⟨a, List.mem_cons_self, ha⟩
    | ok b =>
      rw [ha] at h
      cases hxs : xs.mapM f with
      | ok bs =>
        rw [hxs] at h
        cases h
      | error e' =>
        rw [hxs] at h
        cases h
        obtain ⟨a', ha', h⟩ := ih hxs
        exact ⟨a', List.mem_cons_of_mem a ha', h⟩

end Throwing

section Chained

variable {σ κ α : Type} {call : σ → κ → Option (α × σ)}

def callEach (call : σ → κ → Option (α × σ)) : σ → List κ → Option (List α)
  | _, [] => some []
  | s, k :: ks => do
    let (answer, s) ← call s k
    let answers ← callEach call s ks
    some (answer :: answers)

theorem callEach_forall₂ {I : σ → Prop} {Q : κ → Prop} {P : κ → α → Prop}
    (hcall : ∀ s k, I s → Q k → ∃ answer s', call s k = some (answer, s') ∧ P k answer ∧ I s')
    {s : σ} (hs : I s) {ks : List κ} (hks : ∀ k ∈ ks, Q k) :
    ∃ answers, callEach call s ks = some answers ∧ List.Forall₂ P ks answers := by
  induction ks generalizing s with
  | nil => exact ⟨[], rfl, .nil⟩
  | cons k ks ih =>
    obtain ⟨hk, hks⟩ := List.forall_mem_cons.mp hks
    obtain ⟨answer, s', hanswer, hP, hs'⟩ := hcall s k hs hk
    obtain ⟨answers, hanswers, hall⟩ := ih hs' hks
    exact ⟨answer :: answers, by simp [callEach, hanswer, hanswers], .cons hP hall⟩

theorem callEach_singleton {P : κ → α → Prop} {s : σ} {k : κ}
    (h : ∃ answers, callEach call s [k] = some answers ∧ List.Forall₂ P [k] answers) :
    ∃ answer s', call s k = some (answer, s') ∧ P k answer := by
  obtain ⟨answers, hanswers, hall⟩ := h
  rw [callEach] at hanswers
  obtain ⟨⟨answer, s'⟩, hcall, hrest⟩ := Option.bind_eq_some_iff.mp hanswers
  cases hrest
  cases hall with
  | cons hP _ => exact ⟨answer, s', hcall, hP⟩

end Chained

end Overload.Calls
