import Overload.Calls
import Overload.Datagen.Constraints

namespace Overload.Datagen

open Json Calls

variable {Hir : Type}

def typeOf (v : Value) : Option String := (v.get typeData).bind Value.asStr

def knownTypes : List String := ["object", "string", "integer", "array"]

inductive Parsed (parse : String → Option Hir) (k : String) (v : Value) :
    Option (DataSchema Hir) → Prop
  | object {members : List (String × Value)} {data : List (DataSchema Hir)} :
    typeOf v = some "object" → v.get "properties" = some (.object members) →
      parseProperties parse members = .ok data → Parsed parse k v (some (.object (some k) data))
  | constantObject {value : Value} :
    typeOf v = some "object" → v.get "properties" = none →
      v.get Keywords.constant.asStr = some value →
      Parsed parse k v (some (.constantObject (some k)
        (ConstraintMap.insert (fun _ => none) .constant (.constantValue value))))
  | string {constraints : ConstraintMap Hir} :
    typeOf v = some "string" → getConstraints parse v = .ok constraints →
      Parsed parse k v (some (.string k constraints))
  | integer {constraints : ConstraintMap Hir} :
    typeOf v = some "integer" → getConstraints parse v = .ok constraints →
      Parsed parse k v (some (.integer k constraints))
  | array {items : Value} {item : Option (DataSchema Hir)} {constraints : ConstraintMap Hir} :
    typeOf v = some "array" → v.get "items" = some items →
      parseProperty parse keyForKeylessSchemas items = .ok item →
      getConstraints parse v = .ok constraints →
      Parsed parse k v (some (.array (some k) item.toList constraints))
  | unknown {type : String} :
    typeOf v = some type → type ∉ knownTypes → Parsed parse k v none

variable {parse : String → Option Hir} {k : String} {v : Value}

theorem asObject_eq_some {members : List (String × Value)} :
    v.asObject = some members ↔ v = .object members := by
  cases v <;> simp [Value.asObject]

theorem Parsed.of_parseProperty {schema : Option (DataSchema Hir)}
    (h : parseProperty parse k v = .ok schema) : Parsed parse k v schema := by
  rw [parseProperty] at h
  split at h
  · cases h
  · rename_i htype
    split at h
    · rename_i properties hproperties
      split at h
      · rename_i members hmembers
        obtain ⟨data, hdata, hschema⟩ := bind_eq_ok.mp h
        cases hschema
        rw [asObject_eq_some] at hmembers
        exact .object htype (hmembers ▸ hproperties) hdata
      · cases h
    · rename_i hproperties
      split at h
      · rename_i value hvalue
        cases h
        exact .constantObject htype hproperties hvalue
      · cases h
  · rename_i htype
    obtain ⟨constraints, hconstraints, hschema⟩ := bind_eq_ok.mp h
    cases hschema
    exact .string htype hconstraints
  · rename_i htype
    obtain ⟨constraints, hconstraints, hschema⟩ := bind_eq_ok.mp h
    cases hschema
    exact .integer htype hconstraints
  · rename_i htype
    split at h
    · rename_i items hitems
      obtain ⟨item, hitem, hrest⟩ := bind_eq_ok.mp h
      obtain ⟨constraints, hconstraints, hschema⟩ := bind_eq_ok.mp hrest
      cases hschema
      exact .array htype hitems hitem hconstraints
    · cases h
  · rename_i type hobject hstring hinteger harray htype
    cases h
    exact .unknown htype (by simp_all [knownTypes])

theorem Parsed.parseProperty {schema : Option (DataSchema Hir)} (h : Parsed parse k v schema) :
    Datagen.parseProperty parse k v = .ok schema := by
  rw [Datagen.parseProperty]
  cases h with
  | object htype hproperties hdata =>
    rw [show (v.get typeData).bind Value.asStr = _ from htype]
    simp only
    split
    · rename_i properties hfound
      obtain rfl := Option.some.inj (hproperties.symm.trans hfound)
      split
      · rename_i members hmembers
        obtain rfl := Option.some.inj hmembers
        simp [hdata, bind, Except.bind]
      · rename_i hmembers
        cases hmembers
    · rename_i hfound
      simp [hproperties] at hfound
  | constantObject htype hproperties hvalue =>
    rw [show (v.get typeData).bind Value.asStr = _ from htype]
    simp only
    split
    · rename_i properties hfound
      simp [hproperties] at hfound
    · simp [hvalue]
  | string htype hconstraints =>
    rw [show (v.get typeData).bind Value.asStr = _ from htype]
    simp [hconstraints, bind, Except.bind]
  | integer htype hconstraints =>
    rw [show (v.get typeData).bind Value.asStr = _ from htype]
    simp [hconstraints, bind, Except.bind]
  | array htype hitems hitem hconstraints =>
    rw [show (v.get typeData).bind Value.asStr = _ from htype]
    simp only
    split
    · rename_i items hfound
      obtain rfl := Option.some.inj (hitems.symm.trans hfound)
      simp [hitem, hconstraints, bind, Except.bind]
    · rename_i hfound
      simp [hitems] at hfound
  | unknown htype hknown =>
    rw [show (v.get typeData).bind Value.asStr = _ from htype]
    simp [knownTypes] at hknown
    simp [hknown]

section Properties

variable {members : List (String × Value)} {data : List (DataSchema Hir)}

theorem parseProperties_nil : parseProperties parse [] = .ok [] := by
  rw [parseProperties]

theorem parseProperties_cons_eq_ok {m : String × Value} :
    parseProperties parse (m :: members) = .ok data ↔
      ∃ schema rest, parseProperty parse m.1 m.2 = .ok schema ∧
        parseProperties parse members = .ok rest ∧ schema.toList ++ rest = data := by
  rw [parseProperties]
  simp only [bind_eq_ok, Except.ok.injEq]
  constructor
  · rintro ⟨schema, hschema, rest, hrest, hdata⟩
    exact ⟨schema, rest, hschema, hrest, hdata⟩
  · rintro ⟨schema, rest, hschema, hrest, hdata⟩
    exact ⟨schema, hschema, rest, hrest, hdata⟩

inductive Members (parse : String → Option Hir) :
    List (String × Value) → List (DataSchema Hir) → Prop
  | nil : Members parse [] []
  | skip {m : String × Value} {members : List (String × Value)} {data : List (DataSchema Hir)}
    (hk : m.1 ∉ members.map Prod.fst) (hschema : parseProperty parse m.1 m.2 = .ok none)
    (h : Members parse members data) : Members parse (m :: members) data
  | cons {m : String × Value} {members : List (String × Value)} {schema : DataSchema Hir}
    {data : List (DataSchema Hir)} (hk : m.1 ∉ members.map Prod.fst)
    (hschema : parseProperty parse m.1 m.2 = .ok (some schema)) (h : Members parse members data) :
    Members parse (m :: members) (schema :: data)

theorem Members.of_parseProperties (hnodup : (members.map Prod.fst).Nodup)
    (hdata : parseProperties parse members = .ok data) : Members parse members data := by
  induction members generalizing data with
  | nil =>
    rw [parseProperties_nil] at hdata
    cases hdata
    exact .nil
  | cons m members ih =>
    obtain ⟨schema, rest, hschema, hrest, rfl⟩ := parseProperties_cons_eq_ok.mp hdata
    obtain ⟨hk, hnodup⟩ := List.nodup_cons.mp hnodup
    cases schema with
    | none => exact .skip hk hschema (ih hnodup hrest)
    | some schema => exact .cons hk hschema (ih hnodup hrest)

def contributed (parse : String → Option Hir) (m : String × Value) : List (DataSchema Hir) :=
  match parseProperty parse m.1 m.2 with
  | .ok schema => schema.toList
  | .error _ => []

theorem parseProperties_eq_ok :
    parseProperties parse members = .ok data ↔
      (∀ m ∈ members, ∃ schema, parseProperty parse m.1 m.2 = .ok schema) ∧
        members.flatMap (contributed parse) = data := by
  induction members generalizing data with
  | nil => simp [parseProperties_nil]
  | cons m members ih =>
    rw [parseProperties_cons_eq_ok]
    simp only [ih, List.mem_cons, forall_eq_or_imp, List.flatMap_cons]
    constructor
    · rintro ⟨schema, rest, hschema, ⟨hok, rfl⟩, rfl⟩
      exact ⟨⟨⟨schema, hschema⟩, hok⟩, by simp [contributed, hschema]⟩
    · rintro ⟨⟨⟨schema, hschema⟩, hok⟩, rfl⟩
      exact ⟨schema, _, hschema, ⟨hok, rfl⟩, by simp [contributed, hschema]⟩

theorem mem_data {schema : DataSchema Hir} (h : parseProperties parse members = .ok data)
    (hschema : schema ∈ data) :
    ∃ m ∈ members, parseProperty parse m.1 m.2 = .ok (some schema) := by
  obtain ⟨hok, rfl⟩ := parseProperties_eq_ok.mp h
  obtain ⟨m, hm, hcontributed⟩ := List.mem_flatMap.mp hschema
  obtain ⟨found, hfound⟩ := hok m hm
  simp only [contributed, hfound, Option.mem_toList] at hcontributed
  exact ⟨m, hm, hcontributed ▸ hfound⟩

theorem mem_data_of_parseProperty {m : String × Value} {schema : DataSchema Hir}
    (h : parseProperties parse members = .ok data) (hm : m ∈ members)
    (hschema : parseProperty parse m.1 m.2 = .ok (some schema)) : schema ∈ data := by
  obtain ⟨-, rfl⟩ := parseProperties_eq_ok.mp h
  exact List.mem_flatMap.mpr ⟨m, hm, by simp [contributed, hschema]⟩

theorem parseProperties_perm {members' : List (String × Value)} (hperm : members.Perm members')
    (h : parseProperties parse members = .ok data) :
    ∃ data', parseProperties parse members' = .ok data' ∧ data'.Perm data := by
  obtain ⟨hok, rfl⟩ := parseProperties_eq_ok.mp h
  refine ⟨members'.flatMap (contributed parse), parseProperties_eq_ok.mpr ⟨?_, rfl⟩, ?_⟩
  · exact fun m hm => hok m (hperm.mem_iff.mpr hm)
  · exact (hperm.symm.flatMap_right _)

end Properties

@[elab_as_elim]
theorem DataSchema.ind {P : DataSchema Hir → Prop} (empty : P .empty)
    (string : ∀ name constraints, P (.string name constraints))
    (integer : ∀ name constraints, P (.integer name constraints))
    (object : ∀ name data, (∀ schema ∈ data, P schema) → P (.object name data))
    (constantObject : ∀ name constraints, P (.constantObject name constraints))
    (array : ∀ name items constraints, (∀ schema ∈ items, P schema) →
      P (.array name items constraints)) (schema : DataSchema Hir) : P schema :=
  @DataSchema.rec Hir P (fun data => ∀ schema ∈ data, P schema) empty string integer object
    constantObject (fun name items constraints ih => array name items constraints ih)
    (fun _ h => absurd h List.not_mem_nil)
    (fun _ _ hhead htail => List.forall_mem_cons.mpr ⟨hhead, htail⟩) schema

def DataSchema.name : DataSchema Hir → Option String
  | .empty => none
  | .string name _ | .integer name _ => some name
  | .object name _ | .constantObject name _ | .array name _ _ => name

/-- What reading a document establishes about a schema: constraints can be read again,
names are there and differ, and an array has at most its one keyless item. -/
inductive Canonical (parse : String → Option Hir) : DataSchema Hir → Prop
  | string {name : String} {constraints : ConstraintMap Hir} :
    Readable parse constraints → Canonical parse (.string name constraints)
  | integer {name : String} {constraints : ConstraintMap Hir} :
    Readable parse constraints → Canonical parse (.integer name constraints)
  | object {name : String} {data : List (DataSchema Hir)} :
    (∀ schema ∈ data, Canonical parse schema) → (data.map DataSchema.name).Nodup →
      Canonical parse (.object (some name) data)
  | constantObject {name : String} {value : Value} :
    Canonical parse (.constantObject (some name)
      (ConstraintMap.insert (fun _ => none) .constant (.constantValue value)))
  | array {name : String} {item : Option (DataSchema Hir)} {constraints : ConstraintMap Hir} :
    (∀ schema ∈ item, Canonical parse schema) →
      (∀ schema ∈ item, schema.name = some keyForKeylessSchemas) →
      Readable parse constraints → Canonical parse (.array (some name) item.toList constraints)

theorem Parsed.name {schema : DataSchema Hir} (h : Parsed parse k v (some schema)) :
    schema.name = some k := by
  cases h <;> rfl

theorem Parsed.type_known {schema : DataSchema Hir} (h : Parsed parse k v (some schema)) :
    ∃ type, typeOf v = some type ∧ type ∈ knownTypes := by
  cases h with
  | object htype => exact ⟨_, htype, by decide⟩
  | constantObject htype => exact ⟨_, htype, by decide⟩
  | string htype => exact ⟨_, htype, by decide⟩
  | integer htype => exact ⟨_, htype, by decide⟩
  | array htype => exact ⟨_, htype, by decide⟩

theorem names_sublist (members : List (String × Value)) :
    ((members.flatMap (contributed parse)).map DataSchema.name).Sublist
      (members.map fun m => some m.1) := by
  induction members with
  | nil => simp
  | cons m members ih =>
    rw [List.flatMap_cons, List.map_append, List.map_cons, ← List.singleton_append]
    refine List.Sublist.append ?_ ih
    unfold contributed
    split
    · rename_i schema hschema
      cases schema with
      | none => simp
      | some schema => simp [(Parsed.of_parseProperty hschema).name]
    · simp

theorem nodup_names {members : List (String × Value)} {data : List (DataSchema Hir)}
    (hkeys : (members.map Prod.fst).Nodup) (hdata : parseProperties parse members = .ok data) :
    (data.map DataSchema.name).Nodup := by
  obtain ⟨-, rfl⟩ := parseProperties_eq_ok.mp hdata
  refine (names_sublist members).nodup ?_
  rw [← Function.comp_def some, ← List.map_map]
  exact hkeys.map fun _ _ => Option.some.inj

inductive Read (parse : String → Option Hir) : String → Value → DataSchema Hir → Prop
  | string {k : String} {v : Value} {constraints : ConstraintMap Hir} (hv : v.WellFormed)
    (htype : typeOf v = some "string") (hconstraints : getConstraints parse v = .ok constraints) :
    Read parse k v (.string k constraints)
  | integer {k : String} {v : Value} {constraints : ConstraintMap Hir} (hv : v.WellFormed)
    (htype : typeOf v = some "integer") (hconstraints : getConstraints parse v = .ok constraints) :
    Read parse k v (.integer k constraints)
  | constantObject {k : String} {v value : Value} (htype : typeOf v = some "object")
    (hproperties : v.get "properties" = none)
    (hconstant : v.get Keywords.constant.asStr = some value) :
    Read parse k v (.constantObject (some k)
      (ConstraintMap.insert (fun _ => none) .constant (.constantValue value)))
  | object {k : String} {v : Value} {members : List (String × Value)}
    {data : List (DataSchema Hir)} (htype : typeOf v = some "object")
    (hproperties : v.get "properties" = some (.object members))
    (hkeys : (members.map Prod.fst).Nodup) (hmembers : ∀ m ∈ members, m.2.WellFormed)
    (hdata : parseProperties parse members = .ok data)
    (h : ∀ m ∈ members, ∀ schema, parseProperty parse m.1 m.2 = .ok (some schema) →
      Read parse m.1 m.2 schema) :
    Read parse k v (.object (some k) data)
  | array {k : String} {v items : Value} {item : Option (DataSchema Hir)}
    {constraints : ConstraintMap Hir} (hv : v.WellFormed) (htype : typeOf v = some "array")
    (hitems : v.get "items" = some items)
    (hitem : parseProperty parse keyForKeylessSchemas items = .ok item)
    (hconstraints : getConstraints parse v = .ok constraints)
    (h : ∀ schema ∈ item, Read parse keyForKeylessSchemas items schema) :
    Read parse k v (.array (some k) item.toList constraints)

theorem Read.of_parseProperty {schema : DataSchema Hir} (hv : v.WellFormed)
    (h : parseProperty parse k v = .ok (some schema)) : Read parse k v schema := by
  induction schema using DataSchema.ind generalizing k v with
  | empty => cases Parsed.of_parseProperty h
  | string name constraints =>
    cases Parsed.of_parseProperty h with
    | string htype hconstraints => exact .string hv htype hconstraints
  | integer name constraints =>
    cases Parsed.of_parseProperty h with
    | integer htype hconstraints => exact .integer hv htype hconstraints
  | constantObject name constraints =>
    cases Parsed.of_parseProperty h with
    | constantObject htype hproperties hconstant =>
      exact .constantObject htype hproperties hconstant
  | object name data ih =>
    cases Parsed.of_parseProperty h with
    | object htype hproperties hdata =>
      cases hv.get hproperties with
      | object hkeys hmembers =>
        refine .object htype hproperties hkeys hmembers hdata fun m hm schema hschema => ?_
        exact ih schema (mem_data_of_parseProperty hdata hm hschema) (hmembers m hm) hschema
  | array name items constraints ih =>
    cases Parsed.of_parseProperty h with
    | array htype hitems hitem hconstraints =>
      refine .array hv htype hitems hitem hconstraints fun schema hschema => ?_
      cases hschema
      exact ih schema (by simp) (hv.get hitems) hitem

theorem Read.canonical {schema : DataSchema Hir} (h : Read parse k v schema) :
    Canonical parse schema := by
  induction h with
  | string hv _ hconstraints => exact .string (.of_getConstraints hv hconstraints)
  | integer hv _ hconstraints => exact .integer (.of_getConstraints hv hconstraints)
  | constantObject => exact .constantObject
  | object _ _ hkeys _ hdata _ ih =>
    refine .object (fun schema hschema => ?_) (nodup_names hkeys hdata)
    obtain ⟨m, hm, hfound⟩ := mem_data hdata hschema
    exact ih m hm schema hfound
  | array hv _ _ hitem hconstraints _ ih =>
    refine .array ih ?_ (.of_getConstraints hv hconstraints)
    rintro schema rfl
    exact (Parsed.of_parseProperty hitem).name

inductive Full : DataSchema Hir → Prop
  | empty : Full .empty
  | string {name : String} {constraints : ConstraintMap Hir} : Full (.string name constraints)
  | integer {name : String} {constraints : ConstraintMap Hir} : Full (.integer name constraints)
  | object {name : Option String} {data : List (DataSchema Hir)} :
    (∀ schema ∈ data, Full schema) → Full (.object name data)
  | constantObject {name : Option String} {constraints : ConstraintMap Hir} :
    Full (.constantObject name constraints)
  | array {name : Option String} {item : DataSchema Hir} {constraints : ConstraintMap Hir} :
    Full item → Full (.array name [item] constraints)

inductive Reaches : Value → Value → Prop
  | refl (v : Value) : Reaches v v
  | properties {v w x : Value} {members : List (String × Value)} {k : String} :
    typeOf v = some "object" → v.get "properties" = some (.object members) → (k, w) ∈ members →
      Reaches w x → Reaches v x
  | items {v w x : Value} :
    typeOf v = some "array" → v.get "items" = some w → Reaches w x → Reaches v x

def ItemsKnown (v : Value) : Prop :=
  ∀ x, Reaches v x → typeOf x = some "array" →
    ∃ items type, x.get "items" = some items ∧ typeOf items = some type ∧ type ∈ knownTypes

theorem itemsKnown_object {members : List (String × Value)} (htype : typeOf v = some "object")
    (hproperties : v.get "properties" = some (.object members)) :
    ItemsKnown v ↔ ∀ m ∈ members, ItemsKnown m.2 := by
  constructor
  · intro h m hm x hx
    exact h x (.properties (k := m.1) htype hproperties hm hx)
  · intro h x hx harray
    cases hx with
    | refl => simp [htype] at harray
    | properties htype' hproperties' hm hx =>
      rw [hproperties] at hproperties'
      cases hproperties'
      exact h _ hm x hx harray
    | items htype' => simp [htype] at htype'

theorem itemsKnown_array {items : Value} (htype : typeOf v = some "array")
    (hitems : v.get "items" = some items) :
    ItemsKnown v ↔
      (∃ type, typeOf items = some type ∧ type ∈ knownTypes) ∧ ItemsKnown items := by
  constructor
  · intro h
    refine ⟨?_, fun x hx => h x (.items htype hitems hx)⟩
    obtain ⟨items', type, hitems', htype', hknown⟩ := h v (.refl v) htype
    obtain rfl := Option.some.inj (hitems.symm.trans hitems')
    exact ⟨type, htype', hknown⟩
  · rintro ⟨⟨type, htype', hknown⟩, h⟩ x hx harray
    cases hx with
    | refl => exact ⟨items, type, hitems, htype', hknown⟩
    | properties htype'' => simp [htype] at htype''
    | items _ hitems' hx =>
      obtain rfl := Option.some.inj (hitems.symm.trans hitems')
      exact h x hx harray

theorem itemsKnown_of_leaf {type : String} (htype : typeOf v = some type)
    (hobject : type ≠ "object") (harray : type ≠ "array") : ItemsKnown v := by
  intro x hx hx'
  cases hx with
  | refl => simp_all
  | properties htype' => simp_all
  | items htype' => simp_all

theorem itemsKnown_of_constant (htype : typeOf v = some "object")
    (hproperties : v.get "properties" = none) : ItemsKnown v := by
  intro x hx hx'
  cases hx with
  | refl => simp [htype] at hx'
  | properties _ hproperties' => simp [hproperties] at hproperties'
  | items htype' => simp [htype] at htype'

theorem itemsKnown_of_unknown (h : parseProperty parse k v = .ok none) : ItemsKnown v := by
  cases Parsed.of_parseProperty h with
  | unknown htype hknown =>
    refine itemsKnown_of_leaf htype ?_ ?_ <;>
      · rintro rfl
        exact hknown (by decide)

theorem full_data_iff {members : List (String × Value)} {data : List (DataSchema Hir)}
    (hdata : parseProperties parse members = .ok data)
    (hfull : ∀ schema ∈ data, ∀ k v, parseProperty parse k v = .ok (some schema) →
      (Full schema ↔ ItemsKnown v)) :
    (∀ schema ∈ data, Full schema) ↔ ∀ m ∈ members, ItemsKnown m.2 := by
  constructor
  · intro h m hm
    obtain ⟨found, hfound⟩ := (parseProperties_eq_ok.mp hdata).1 m hm
    cases found with
    | none => exact itemsKnown_of_unknown hfound
    | some schema =>
      have hmem := mem_data_of_parseProperty hdata hm hfound
      exact (hfull schema hmem m.1 m.2 hfound).mp (h schema hmem)
  · intro h schema hschema
    obtain ⟨m, hm, hfound⟩ := mem_data hdata hschema
    exact (hfull schema hschema m.1 m.2 hfound).mpr (h m hm)

theorem full_iff_itemsKnown {schema : DataSchema Hir}
    (h : parseProperty parse k v = .ok (some schema)) : Full schema ↔ ItemsKnown v := by
  induction schema using DataSchema.ind generalizing k v with
  | empty => cases Parsed.of_parseProperty h
  | string name constraints =>
    cases Parsed.of_parseProperty h with
    | string htype =>
      exact iff_of_true .string (itemsKnown_of_leaf htype (by decide) (by decide))
  | integer name constraints =>
    cases Parsed.of_parseProperty h with
    | integer htype =>
      exact iff_of_true .integer (itemsKnown_of_leaf htype (by decide) (by decide))
  | constantObject name constraints =>
    cases Parsed.of_parseProperty h with
    | constantObject htype hproperties hvalue =>
      exact iff_of_true .constantObject (itemsKnown_of_constant htype hproperties)
  | object name data ih =>
    cases Parsed.of_parseProperty h with
    | object htype hproperties hdata =>
      rw [itemsKnown_object htype hproperties,
        ← full_data_iff hdata fun schema hschema k v => ih schema hschema]
      exact ⟨fun hfull => by cases hfull; assumption, .object⟩
  | array name items constraints ih =>
    cases Parsed.of_parseProperty h with
    | @array _ item _ htype hget hitem hconstraints =>
      rw [itemsKnown_array htype hget]
      cases item with
      | none =>
        refine iff_of_false (fun hfull => by cases hfull) ?_
        rintro ⟨⟨type, htype', hknown⟩, -⟩
        cases Parsed.of_parseProperty hitem with
        | unknown htype'' hknown' =>
          obtain rfl := Option.some.inj (htype'.symm.trans htype'')
          exact hknown' hknown
      | some schema =>
        have hschema := ih schema (by simp) hitem
        constructor
        · intro hfull
          cases hfull with
          | array hfull => exact ⟨(Parsed.of_parseProperty hitem).type_known, hschema.mp hfull⟩
        · exact fun h => .array (hschema.mpr h.2)

end Overload.Datagen
