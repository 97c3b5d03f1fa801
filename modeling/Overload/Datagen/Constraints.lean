import Overload.Datagen.Schema

namespace Overload.Datagen

open Json

theorem Keywords.ofStr_eq_some {k : String} {keyword : Keywords} :
    ofStr k = some keyword ↔ k = keyword.asStr := by
  constructor
  · intro h
    unfold ofStr at h
    split at h <;> cases h <;> rfl
  · rintro rfl
    cases keyword <;> rfl

theorem Keywords.asStr_injective : Function.Injective asStr := by
  intro a b h
  cases a <;> cases b <;> simp [asStr] at h ⊢

theorem Keywords.mem_all (keyword : Keywords) : keyword ∈ all := by
  cases keyword <;> decide

variable {Hir : Type} {parse : String → Option Hir}

def spelled (parse : String → Option Hir) (members : List (String × Value))
    (default : ConstraintMap Hir) : ConstraintMap Hir :=
  fun keyword =>
    match members.lookup keyword.asStr with
    | some v => parseConstraint parse v keyword
    | none => default keyword

def Spells (parse : String → Option Hir) (members : List (String × Value)) : Prop :=
  ∀ keyword v, (Keywords.asStr keyword, v) ∈ members → (parseConstraint parse v keyword).isSome

theorem spells_cons {k : String} {v : Value} {members : List (String × Value)} :
    Spells parse ((k, v) :: members) ↔
      (∀ keyword, Keywords.ofStr k = some keyword → (parseConstraint parse v keyword).isSome) ∧
        Spells parse members := by
  constructor
  · intro h
    refine ⟨?_, fun keyword w hmem => h keyword w (List.mem_cons_of_mem _ hmem)⟩
    intro keyword hkeyword
    rw [Keywords.ofStr_eq_some] at hkeyword
    exact h keyword v (by simp [hkeyword])
  · rintro ⟨hhead, htail⟩ keyword w hmem
    rcases List.mem_cons.mp hmem with heq | hmem
    · cases heq
      exact hhead keyword (Keywords.ofStr_eq_some.mpr rfl)
    · exact htail keyword w hmem

theorem spelled_cons_none {k : String} {v : Value} {members : List (String × Value)}
    {default : ConstraintMap Hir} (hk : Keywords.ofStr k = none) :
    spelled parse ((k, v) :: members) default = spelled parse members default := by
  funext keyword
  have hne : keyword.asStr ≠ k := by
    rintro rfl
    simp [Keywords.ofStr_eq_some.mpr rfl] at hk
  simp only [spelled, List.lookup_cons, beq_false_of_ne hne]

theorem spelled_cons_some {keyword : Keywords} {v : Value} {members : List (String × Value)}
    {default : ConstraintMap Hir} {constraint : Constraints Hir}
    (hkeyword : keyword.asStr ∉ members.map Prod.fst)
    (hconstraint : parseConstraint parse v keyword = some constraint) :
    spelled parse ((keyword.asStr, v) :: members) default =
      spelled parse members (default.insert keyword constraint) := by
  funext keyword'
  by_cases heq : keyword' = keyword
  · subst heq
    have hnone : members.lookup keyword'.asStr = none := by
      cases hlookup : members.lookup keyword'.asStr with
      | none => rfl
      | some w => exact absurd (List.mem_map_of_mem (mem_of_lookup hlookup)) hkeyword
    simp [spelled, hnone, ConstraintMap.insert, hconstraint]
  · have hne : keyword'.asStr ≠ keyword.asStr := fun h => heq (Keywords.asStr_injective h)
    simp only [spelled, List.lookup_cons, beq_false_of_ne hne, ConstraintMap.insert, if_neg heq]

theorem foldlM_parseMember {members : List (String × Value)}
    (hmembers : (members.map Prod.fst).Nodup) (default constraints : ConstraintMap Hir) :
    members.foldlM (parseMember parse) default = some constraints ↔
      Spells parse members ∧ spelled parse members default = constraints := by
  induction members generalizing default with
  | nil =>
    change some default = some constraints ↔ _ ∧ default = constraints
    simp [Spells]
  | cons m members ih =>
    obtain ⟨k, v⟩ := m
    obtain ⟨hk, htail⟩ := List.nodup_cons.mp hmembers
    rw [List.foldlM_cons, spells_cons]
    cases hkeyword : Keywords.ofStr k with
    | none =>
      rw [spelled_cons_none hkeyword]
      simp [parseMember, hkeyword, ih htail]
    | some keyword =>
      cases hconstraint : parseConstraint parse v keyword with
      | none => simp [parseMember, hkeyword, hconstraint]
      | some constraint =>
        obtain rfl := Keywords.ofStr_eq_some.mp hkeyword
        rw [spelled_cons_some hk hconstraint]
        simp [parseMember, hkeyword, hconstraint, ih htail]

theorem parseConstraint_toValue {v : Value} {keyword : Keywords} {constraint : Constraints Hir}
    (h : parseConstraint parse v keyword = some constraint) :
    parseConstraint parse constraint.toValue keyword = some constraint := by
  have hnumber : ∀ x : Int64, (Value.number (.ofI64 x)).asI64 = some x := Number.asI64_ofI64
  cases keyword with
  | constant =>
    simp only [parseConstraint] at h
    split at h
    · cases h
      simp [parseConstraint, Constraints.toValue, hnumber]
    · cases h
      rfl
    · rename_i hint hstr
      cases h
      simp [parseConstraint, Constraints.toValue, hint, hstr]
  | pattern =>
    simp only [parseConstraint, Option.bind_eq_bind, Option.bind_eq_some_iff] at h
    obtain ⟨regex, -, hir, hparse, hconstraint⟩ := h
    cases hconstraint
    simp [parseConstraint, Constraints.toValue, Value.asStr, hparse]
  | _ =>
    simp only [parseConstraint, Option.map_eq_some_iff] at h
    obtain ⟨x, -, rfl⟩ := h
    simp [parseConstraint, Constraints.toValue, hnumber]

theorem ConstraintMap.mem_toMembers {constraints : ConstraintMap Hir} {k : String} {v : Value} :
    (k, v) ∈ constraints.toMembers ↔
      ∃ keyword constraint, constraints keyword = some constraint ∧
        keyword.asStr = k ∧ constraint.toValue = v := by
  simp [toMembers, Keywords.mem_all]

theorem ConstraintMap.nodup_toMembers (constraints : ConstraintMap Hir) :
    (constraints.toMembers.map Prod.fst).Nodup := by
  have hkeys : constraints.toMembers.map Prod.fst =
      (Keywords.all.filter fun keyword => (constraints keyword).isSome).map Keywords.asStr := by
    unfold toMembers
    induction Keywords.all with
    | nil => rfl
    | cons keyword rest ih => cases h : constraints keyword <;> simp [h, ih]
  rw [hkeys]
  exact ((by decide : Keywords.all.Nodup).filter _).map Keywords.asStr_injective

structure Readable (parse : String → Option Hir) (constraints : ConstraintMap Hir) : Prop where
  again : ∀ keyword constraint, constraints keyword = some constraint →
    parseConstraint parse constraint.toValue keyword = some constraint
  valid : ∀ property, validateConstraints constraints property = .ok ()

theorem validateRange_ok {constraints : ConstraintMap Hir} {least greatest : Keywords}
    {e₁ e₂ e₁' e₂' : ParseError} (h : validateRange constraints least greatest e₁ e₂ = .ok ()) :
    validateRange constraints least greatest e₁' e₂' = .ok () := by
  unfold validateRange at *
  grind

theorem validateConstraints_ok {constraints : ConstraintMap Hir} {property : Value}
    (h : validateConstraints constraints property = .ok ()) (property' : Value) :
    validateConstraints constraints property' = .ok () := by
  unfold validateConstraints at *
  cases hrange : validateRange constraints .minimum .maximum (.requiresBothRange property)
    (.minimumAboveMaximum property) with
  | error e => simp [hrange, bind, Except.bind] at h
  | ok u =>
    simp only [hrange, bind, Except.bind] at h ⊢
    rw [validateRange_ok hrange]
    exact validateRange_ok h

theorem getConstraints_eq_ok {members : List (String × Value)} {constraints : ConstraintMap Hir}
    (hmembers : (members.map Prod.fst).Nodup) :
    getConstraints parse (.object members) = .ok constraints ↔
      Spells parse members ∧ spelled parse members (fun _ => none) = constraints ∧
        validateConstraints constraints (.object members) = .ok () := by
  have hparse : parseConstraints parse (.object members) =
      members.foldlM (parseMember parse) fun _ => none := rfl
  rw [← and_assoc, ← foldlM_parseMember hmembers, ← hparse, Datagen.getConstraints]
  cases parseConstraints parse (.object members) with
  | none => simp
  | some found =>
    simp only [Option.some.injEq]
    cases hvalid : validateConstraints found (.object members) with
    | error e =>
      simp only [bind, Except.bind, reduceCtorEq, false_iff]
      rintro ⟨rfl, hok⟩
      simp [hvalid] at hok
    | ok u =>
      simp only [bind, Except.bind, Except.ok.injEq]
      constructor
      · rintro rfl
        exact ⟨rfl, hvalid⟩
      · exact And.left

theorem Readable.of_getConstraints {v : Value} {constraints : ConstraintMap Hir}
    (hv : v.WellFormed) (h : getConstraints parse v = .ok constraints) :
    Readable parse constraints := by
  cases hv with
  | object hkeys hmembers =>
    obtain ⟨hspells, rfl, hvalid⟩ := (getConstraints_eq_ok hkeys).mp h
    refine ⟨?_, validateConstraints_ok hvalid⟩
    intro keyword constraint hconstraint
    simp only [spelled] at hconstraint
    split at hconstraint
    · exact parseConstraint_toValue hconstraint
    · cases hconstraint
  | _ => cases h

theorem Readable.getConstraints {constraints : ConstraintMap Hir}
    {members : List (String × Value)} (hc : Readable parse constraints)
    (extra : List (String × Value))
    (hperm : members.Perm (extra ++ constraints.toMembers))
    (hkeys : ((extra ++ constraints.toMembers).map Prod.fst).Nodup)
    (hextra : ∀ m ∈ extra, Keywords.ofStr m.1 = none) :
    Datagen.getConstraints parse (.object members) = .ok constraints := by
  have hmembers : (members.map Prod.fst).Nodup := (hperm.map Prod.fst).nodup_iff.mpr hkeys
  have hmem : ∀ keyword v, (Keywords.asStr keyword, v) ∈ members ↔
      ∃ constraint, constraints keyword = some constraint ∧ constraint.toValue = v := by
    intro keyword v
    rw [hperm.mem_iff, List.mem_append, ConstraintMap.mem_toMembers]
    constructor
    · rintro (hmem | ⟨keyword', constraint, hconstraint, hkeyword, hv⟩)
      · have := hextra _ hmem
        simp [Keywords.ofStr_eq_some.mpr rfl] at this
      · obtain rfl := Keywords.asStr_injective hkeyword
        exact ⟨constraint, hconstraint, hv⟩
    · rintro ⟨constraint, hconstraint, hv⟩
      exact .inr ⟨keyword, constraint, hconstraint, rfl, hv⟩
  refine (getConstraints_eq_ok hmembers).mpr ⟨?_, ?_, hc.valid _⟩
  · intro keyword v hv
    obtain ⟨constraint, hconstraint, rfl⟩ := (hmem keyword v).mp hv
    simp [hc.again keyword constraint hconstraint]
  · funext keyword
    simp only [spelled]
    cases hconstraint : constraints keyword with
    | some constraint =>
      have hlookup : members.lookup keyword.asStr = some constraint.toValue :=
        (lookup_eq_some_iff hmembers).mpr ((hmem keyword _).mpr ⟨constraint, hconstraint, rfl⟩)
      simp [hlookup, hc.again keyword constraint hconstraint]
    | none =>
      cases hlookup : members.lookup keyword.asStr with
      | none => rfl
      | some v =>
        obtain ⟨constraint, hsome, -⟩ := (hmem keyword v).mp (mem_of_lookup hlookup)
        simp [hconstraint] at hsome

end Overload.Datagen
