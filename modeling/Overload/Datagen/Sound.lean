import Overload.Datagen.Generate

namespace Overload.Datagen

open Json

def SameConstant (declared emitted : Value) : Prop :=
  emitted = declared ∨ ∃ n, declared.asI64 = some n ∧ emitted.asI64 = some n

inductive ConstantAt : Value → Value → Value → Value → Prop
  | here {v x c : Value} : typeOf v = some "string" ∨ typeOf v = some "integer" →
    v.get Keywords.constant.asStr = some c → ConstantAt v x c x
  | member {v w y c z : Value} {members map : List (String × Value)} {k : String} :
    typeOf v = some "object" → v.get "properties" = some (.object members) → (k, w) ∈ members →
      map.lookup k = some y → ConstantAt w y c z → ConstantAt v (.object map) c z
  | item {v w y c z : Value} {elems : List Value} :
    typeOf v = some "array" → v.get "items" = some w → y ∈ elems → ConstantAt w y c z →
      ConstantAt v (.array elems) c z

def Fits (v x : Value) : Prop := ∀ c z, ConstantAt v x c z → SameConstant c z

def FitsAll (members map : List (String × Value)) : Prop :=
  ∀ m ∈ members, ∀ x, map.lookup m.1 = some x → Fits m.2 x

section Fits

variable {v x items : Value} {members map : List (String × Value)} {elems : List Value}

theorem fits_leaf (htype : typeOf v = some "string" ∨ typeOf v = some "integer") :
    Fits v x ↔ ∀ c, v.get Keywords.constant.asStr = some c → SameConstant c x := by
  constructor
  · exact fun h c hc => h c x (.here htype hc)
  · intro h c z hz
    cases hz with
    | here _ hc => exact h c hc
    | member htype' => simp [htype'] at htype
    | item htype' => simp [htype'] at htype

theorem fits_object (htype : typeOf v = some "object")
    (hproperties : v.get "properties" = some (.object members)) :
    Fits v (.object map) ↔ FitsAll members map := by
  constructor
  · exact fun h m hm x hx c z hz => h c z (.member htype hproperties hm hx hz)
  · intro h c z hz
    cases hz with
    | here htype' => simp [htype] at htype'
    | member _ hproperties' hm hx hz =>
      cases hproperties.symm.trans hproperties'
      exact h _ hm _ hx c z hz

theorem fits_array (htype : typeOf v = some "array") (hitems : v.get "items" = some items) :
    Fits v (.array elems) ↔ ∀ x ∈ elems, Fits items x := by
  constructor
  · exact fun h x hx c z hz => h c z (.item htype hitems hx hz)
  · intro h c z hz
    cases hz with
    | here htype' => simp [htype] at htype'
    | item _ hitems' hx hz =>
      cases hitems.symm.trans hitems'
      exact h _ hx c z hz

theorem fits_constantObject (htype : typeOf v = some "object")
    (hproperties : v.get "properties" = none) : Fits v x := by
  intro c z hz
  cases hz with
  | here htype' => simp [htype] at htype'
  | member _ hproperties' => simp [hproperties] at hproperties'
  | item htype' => simp [htype] at htype'

end Fits

inductive Visits : Value → Value → Prop
  | refl (v : Value) : Visits v v
  | properties {v w x : Value} {members : List (String × Value)} {k : String} :
    typeOf v = some "object" → v.get "properties" = some (.object members) → (k, w) ∈ members →
      Visits w x → Visits v x
  | items {v w x : Value} :
    typeOf v = some "array" → v.get "items" = some w → 0 < declaredBound v .maxLength 20 →
      Visits w x → Visits v x

/-- What reading a property leaves unchecked. -/
structure Sound (v : Value) : Prop where
  stringConstant : typeOf v = some "string" →
    ∀ c, v.get Keywords.constant.asStr = some c → c.asStr.isSome
  integerConstant : typeOf v = some "integer" →
    ∀ c, v.get Keywords.constant.asStr = some c → c.asI64.isSome
  length : typeOf v = some "string" → v.get Keywords.constant.asStr = none →
    v.get Keywords.pattern.asStr = none → ¬ declaredBound v .minLength 1 < 0
  items : typeOf v = some "array" → 0 < declaredBound v .maxLength 20 →
    ∀ w, v.get "items" = some w → ∃ type, typeOf w = some type ∧ type ∈ knownTypes

def AllSound (v : Value) : Prop := ∀ x, Visits v x → Sound x

section AllSound

variable {v items : Value} {members : List (String × Value)}

theorem allSound_leaf (htype : typeOf v = some "string" ∨ typeOf v = some "integer") :
    AllSound v ↔ Sound v := by
  constructor
  · exact fun h => h v (.refl v)
  · intro h x hx
    cases hx with
    | refl => exact h
    | properties htype' => simp [htype'] at htype
    | items htype' => simp [htype'] at htype

theorem sound_object (htype : typeOf v = some "object") : Sound v := by
  constructor <;> simp [htype]

theorem allSound_object (htype : typeOf v = some "object")
    (hproperties : v.get "properties" = some (.object members)) :
    AllSound v ↔ ∀ m ∈ members, AllSound m.2 := by
  constructor
  · exact fun h m hm x hx => h x (.properties htype hproperties hm hx)
  · intro h x hx
    cases hx with
    | refl => exact sound_object htype
    | properties _ hproperties' hm hx =>
      cases hproperties.symm.trans hproperties'
      exact h _ hm x hx
    | items htype' => simp [htype] at htype'

theorem allSound_constantObject (htype : typeOf v = some "object")
    (hproperties : v.get "properties" = none) : AllSound v := by
  intro x hx
  cases hx with
  | refl => exact sound_object htype
  | properties _ hproperties' => simp [hproperties] at hproperties'
  | items htype' => simp [htype] at htype'

theorem allSound_array (htype : typeOf v = some "array") (hitems : v.get "items" = some items) :
    AllSound v ↔ (0 < declaredBound v .maxLength 20 →
      (∃ type, typeOf items = some type ∧ type ∈ knownTypes) ∧ AllSound items) := by
  constructor
  · intro h hmax
    exact ⟨(h v (.refl v)).items htype hmax items hitems,
      fun x hx => h x (.items htype hitems hmax hx)⟩
  · intro h x hx
    cases hx with
    | refl =>
      refine ⟨by simp [htype], by simp [htype], by simp [htype], fun _ hmax w hw => ?_⟩
      cases hitems.symm.trans hw
      exact (h hmax).1
    | properties htype' => simp [htype] at htype'
    | items _ hitems' hmax hx =>
      cases hitems.symm.trans hitems'
      exact (h hmax).2 x hx

theorem allSound_unknown {type : String} (htype : typeOf v = some type)
    (hknown : type ∉ knownTypes) : AllSound v := by
  have hne : ∀ known ∈ knownTypes, typeOf v ≠ some known := by
    rintro known hmem heq
    rw [htype] at heq
    exact hknown (Option.some.inj heq ▸ hmem)
  intro x hx
  cases hx with
  | refl =>
    exact ⟨fun h => absurd h (hne _ (by decide)), fun h => absurd h (hne _ (by decide)),
      fun h => absurd h (hne _ (by decide)), fun h => absurd h (hne _ (by decide))⟩
  | properties htype' => exact absurd htype' (hne _ (by decide))
  | items htype' => exact absurd htype' (hne _ (by decide))

end AllSound

end Overload.Datagen
