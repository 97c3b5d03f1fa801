import Overload.Datagen.Parsed

namespace Overload.Datagen

open Json Calls

variable {Hir : Type} {parse : String → Option Hir} {order : HashOrder} {path : List String}

inductive Same : DataSchema Hir → DataSchema Hir → Prop
  | refl (schema : DataSchema Hir) : Same schema schema
  | object (name : Option String) {data data' data'' : List (DataSchema Hir)} :
    data.Perm data' → List.Forall₂ Same data' data'' →
      Same (.object name data) (.object name data'')
  | array (name : Option String) (constraints : ConstraintMap Hir) {item item' : DataSchema Hir} :
    Same item item' → Same (.array name [item] constraints) (.array name [item'] constraints)

theorem get_arranged (order : HashOrder) (path : List String) {members : List (String × Value)}
    {k : String} {v : Value} (hkeys : (members.map Prod.fst).Nodup) (hmem : (k, v) ∈ members) :
    (Value.object (order.arrange path members)).get k = some v := by
  rw [Value.get, lookup_perm (order.perm path members)]
  · exact (lookup_eq_some_iff hkeys).mpr hmem
  · exact ((order.perm path members).map Prod.fst).nodup_iff.mpr hkeys

theorem get_arranged_none {members : List (String × Value)} {k : String}
    (hmem : k ∉ members.map Prod.fst) :
    (Value.object (order.arrange path members)).get k = none := by
  cases hget : (Value.object (order.arrange path members)).get k with
  | none => rfl
  | some v =>
    have hfound := (order.perm path members).mem_iff.mp (mem_of_lookup hget)
    exact absurd (List.mem_map_of_mem hfound) hmem

theorem typeOf_arranged (order : HashOrder) (path : List String)
    {rest : List (String × Value)} {type : String}
    (hkeys : (((typeData, Value.string type) :: rest).map Prod.fst).Nodup) :
    typeOf (.object (order.arrange path ((typeData, .string type) :: rest))) = some type := by
  rw [typeOf, get_arranged order path hkeys List.mem_cons_self]
  rfl

theorem not_mem_toMembers {constraints : ConstraintMap Hir} {k : String}
    (hk : Keywords.ofStr k = none) : k ∉ constraints.toMembers.map Prod.fst := by
  intro hkey
  obtain ⟨⟨k', v⟩, hmem, rfl⟩ := List.mem_map.mp hkey
  obtain ⟨keyword, constraint, -, rfl, -⟩ := ConstraintMap.mem_toMembers.mp hmem
  simp [Keywords.ofStr_eq_some.mpr rfl] at hk

theorem nodup_typed (constraints : ConstraintMap Hir) (type : String) :
    (((typeData, Value.string type) :: constraints.toMembers).map Prod.fst).Nodup :=
  List.nodup_cons.mpr ⟨not_mem_toMembers rfl, constraints.nodup_toMembers⟩

theorem getConstraints_typed {constraints : ConstraintMap Hir} (hc : Readable parse constraints)
    (type : String) :
    getConstraints parse (.object (order.arrange path
      ((typeData, .string type) :: constraints.toMembers))) = .ok constraints := by
  refine hc.getConstraints [(typeData, .string type)] (order.perm _ _)
    (nodup_typed constraints type) ?_
  simp [show Keywords.ofStr typeData = none from rfl]

/-- A schema, what is written for it under its name, and what a reader makes of that:
the schema, or an error if one of its arrays has no item. -/
structure Writes (parse : String → Option Hir) (schema : DataSchema Hir) (m : String × Value) :
    Prop where
  name : schema.name = some m.1
  again : Full schema → ∃ schema', parseProperty parse m.1 m.2 = .ok (some schema') ∧
    Same schema' schema
  fails : ¬ Full schema → ∃ e, parseProperty parse m.1 m.2 = .error e

theorem Writes.of_parsed {schema : DataSchema Hir} {m : String × Value}
    (hfull : Full schema) (h : Parsed parse m.1 m.2 (some schema)) : Writes parse schema m where
  name := h.name
  again := fun _ => ⟨schema, h.parseProperty, .refl schema⟩
  fails := fun hnot => absurd hfull hnot

theorem Writes.string {name : String} {constraints : ConstraintMap Hir}
    (hc : Readable parse constraints) :
    Writes parse (.string name constraints) (name, .object (order.arrange path
      ((typeData, .string "string") :: constraints.toMembers))) :=
  .of_parsed .string (.string (typeOf_arranged order path (nodup_typed constraints _))
    (getConstraints_typed hc _))

theorem Writes.integer {name : String} {constraints : ConstraintMap Hir}
    (hc : Readable parse constraints) :
    Writes parse (.integer name constraints) (name, .object (order.arrange path
      ((typeData, .string "integer") :: constraints.toMembers))) :=
  .of_parsed .integer (.integer (typeOf_arranged order path (nodup_typed constraints _))
    (getConstraints_typed hc _))

theorem Writes.constantObject {name : String} {value : Value} :
    Writes parse (.constantObject (some name)
        (ConstraintMap.insert (fun _ => none) .constant (.constantValue value)))
      (name, .object (order.arrange path ((typeData, .string "object") ::
        (ConstraintMap.insert (fun _ => none) .constant
          (.constantValue value : Constraints Hir)).toMembers))) := by
  refine .of_parsed .constantObject (.constantObject ?_ ?_ ?_)
  · exact typeOf_arranged order path (nodup_typed _ _)
  · apply get_arranged_none
    rw [List.map_cons, List.mem_cons, not_or]
    exact ⟨by decide, not_mem_toMembers rfl⟩
  · exact get_arranged order path (nodup_typed _ _) (List.mem_cons_of_mem _
      (ConstraintMap.mem_toMembers.mpr ⟨.constant, .constantValue value, rfl, rfl, rfl⟩))

theorem names_written {data : List (DataSchema Hir)} {members : List (String × Value)}
    (h : List.Forall₂ (Writes parse) data members) :
    data.map DataSchema.name = members.map fun m => some m.1 := by
  induction h with
  | nil => rfl
  | cons hwrites _ ih => rw [List.map_cons, List.map_cons, ih, hwrites.name]

theorem exists_written {data : List (DataSchema Hir)}
    (hdata : ∀ schema ∈ data, ∃ m, convertDataSchema order path schema = some (some m) ∧
      Writes parse schema m) (hnames : (data.map DataSchema.name).Nodup) :
    ∃ members, convertDataSchemaToMap order path data = some members ∧
      List.Forall₂ (Writes parse) data members := by
  induction data with
  | nil => exact ⟨[], rfl, .nil⟩
  | cons schema data ih =>
    obtain ⟨hname, hnames⟩ := List.nodup_cons.mp hnames
    obtain ⟨m, hm, hwrites⟩ := hdata schema List.mem_cons_self
    obtain ⟨members, hmembers, hall⟩ :=
      ih (fun schema hschema => hdata schema (List.mem_cons_of_mem _ hschema)) hnames
    refine ⟨m :: members, ?_, .cons hwrites hall⟩
    have hnew : members.lookup m.1 = none := by
      cases hlookup : members.lookup m.1 with
      | none => rfl
      | some v =>
        rw [names_written hall, hwrites.name] at hname
        exact absurd (List.mem_map_of_mem (mem_of_lookup hlookup)) hname
    simp [convertDataSchemaToMap, hm, hmembers, insertBefore, hnew]

theorem parseProperties_written {data : List (DataSchema Hir)} {members : List (String × Value)}
    (h : List.Forall₂ (Writes parse) data members) (hfull : ∀ schema ∈ data, Full schema) :
    ∃ data', parseProperties parse members = .ok data' ∧ List.Forall₂ Same data' data := by
  induction h with
  | nil => exact ⟨[], parseProperties_nil, .nil⟩
  | cons hwrites _ ih =>
    obtain ⟨schema', hschema', hsame⟩ := hwrites.again (hfull _ List.mem_cons_self)
    obtain ⟨data', hdata', hall⟩ :=
      ih fun schema hschema => hfull schema (List.mem_cons_of_mem _ hschema)
    exact ⟨schema' :: data',
      parseProperties_cons_eq_ok.mpr ⟨some schema', data', hschema', hdata', rfl⟩, .cons hsame hall⟩

theorem exists_fails {data : List (DataSchema Hir)} {members : List (String × Value)}
    (h : List.Forall₂ (Writes parse) data members) (hfull : ¬ ∀ schema ∈ data, Full schema) :
    ∃ m ∈ members, ∃ e, parseProperty parse m.1 m.2 = .error e := by
  induction h with
  | nil => exact absurd (fun _ hmem => absurd hmem List.not_mem_nil) hfull
  | @cons schema m data members hwrites _ ih =>
    by_cases hhead : Full schema
    · have htail : ¬ ∀ schema ∈ data, Full schema := fun htail =>
        hfull (List.forall_mem_cons.mpr ⟨hhead, htail⟩)
      obtain ⟨m', hm', he⟩ := ih htail
      exact ⟨m', List.mem_cons_of_mem _ hm', he⟩
    · exact ⟨m, List.mem_cons_self, hwrites.fails hhead⟩

theorem parseProperties_fails {data : List (DataSchema Hir)}
    {members members' : List (String × Value)} (h : List.Forall₂ (Writes parse) data members)
    (hperm : members'.Perm members) (hfull : ¬ ∀ schema ∈ data, Full schema) :
    ∃ e, parseProperties parse members' = .error e := by
  obtain ⟨m, hm, e, he⟩ := exists_fails h hfull
  cases hparse : parseProperties parse members' with
  | error e => exact ⟨e, rfl⟩
  | ok data' =>
    obtain ⟨schema, hschema⟩ := (parseProperties_eq_ok.mp hparse).1 m (hperm.mem_iff.mpr hm)
    simp [he] at hschema

theorem parseProperties_arranged (order : HashOrder) (path : List String)
    {data : List (DataSchema Hir)} {members : List (String × Value)}
    (h : List.Forall₂ (Writes parse) data members) (hfull : ∀ schema ∈ data, Full schema) :
    ∃ data', parseProperties parse (order.arrange path members) = .ok data' ∧
      ∀ name, Same (.object name data') (.object name data) := by
  obtain ⟨data', hdata', hall⟩ := parseProperties_written h hfull
  obtain ⟨data'', hdata'', hperm⟩ := parseProperties_perm (order.perm path members).symm hdata'
  exact ⟨data'', hdata'', fun name => .object name hperm hall⟩

theorem parseProperty_object_fails {k : String} {v : Value} {members : List (String × Value)}
    {e : ParseError} (htype : typeOf v = some "object")
    (hproperties : v.get "properties" = some (.object members))
    (he : parseProperties parse members = .error e) : ∃ e, parseProperty parse k v = .error e := by
  cases hparse : parseProperty parse k v with
  | error e => exact ⟨e, rfl⟩
  | ok schema =>
    cases Parsed.of_parseProperty hparse with
    | object _ hproperties' hdata =>
      rw [hproperties] at hproperties'
      cases hproperties'
      simp [he] at hdata
    | constantObject _ hproperties' => simp [hproperties] at hproperties'
    | unknown htype' hknown =>
      rw [htype] at htype'
      cases htype'
      exact absurd (by decide) hknown
    | _ htype' => simp [htype] at htype'

theorem parseProperty_string (parse : String → Option Hir) (k s : String) :
    parseProperty parse k (.string s) = .error (.typeNotFound k) := by
  rw [parseProperty]
  rfl

theorem parseProperty_array_error {k : String} {v items : Value} {e : ParseError}
    (htype : typeOf v = some "array") (hitems : v.get "items" = some items)
    (he : parseProperty parse keyForKeylessSchemas items = .error e) :
    parseProperty parse k v = .error e := by
  rw [parseProperty, show (v.get typeData).bind Value.asStr = _ from htype]
  simp only
  split
  · rename_i items' hfound
    obtain rfl := Option.some.inj (hitems.symm.trans hfound)
    simp [he, bind, Except.bind]
  · rename_i hfound
    simp [hitems] at hfound

theorem full_object {name : Option String} {data : List (DataSchema Hir)} :
    Full (.object name data) ↔ ∀ schema ∈ data, Full schema :=
  ⟨fun h => by cases h; assumption, .object⟩

theorem Writes.object (order : HashOrder) (path : List String) {name : String}
    {data : List (DataSchema Hir)} {members : List (String × Value)}
    (h : List.Forall₂ (Writes parse) data members) :
    Writes parse (.object (some name) data)
      (name, .object (order.arrange path [(typeData, .string "object"),
        ("properties", .object (order.arrange path members))])) := by
  have hkeys : (([(typeData, Value.string "object"),
      ("properties", .object (order.arrange path members))]).map Prod.fst).Nodup := by
    simp [typeData]
  have htype := typeOf_arranged order path hkeys
  have hproperties := get_arranged order path hkeys
    (List.mem_cons_of_mem _ List.mem_cons_self)
  refine ⟨rfl, fun hfull => ?_, fun hfull => ?_⟩
  · obtain ⟨data', hdata', hsame⟩ := parseProperties_arranged order path h (full_object.mp hfull)
    exact ⟨.object (some name) data', (Parsed.object htype hproperties hdata').parseProperty,
      hsame (some name)⟩
  · rw [full_object] at hfull
    obtain ⟨e, he⟩ := parseProperties_fails h (order.perm path members) hfull
    exact parseProperty_object_fails htype hproperties he

theorem nodup_array (constraints : ConstraintMap Hir) (items : Value) :
    (((typeData, Value.string "array") :: ("items", items) :: constraints.toMembers).map
      Prod.fst).Nodup := by
  refine List.nodup_cons.mpr ⟨?_, List.nodup_cons.mpr ⟨not_mem_toMembers rfl,
    constraints.nodup_toMembers⟩⟩
  rw [List.map_cons, List.mem_cons, not_or]
  exact ⟨by simp [typeData], not_mem_toMembers rfl⟩

theorem Writes.array (order : HashOrder) (path : List String) {name : String}
    {item : Option (DataSchema Hir)} (items : Value) {constraints : ConstraintMap Hir}
    (hc : Readable parse constraints)
    (hitem : ∀ schema ∈ item, Writes parse schema (keyForKeylessSchemas, items))
    (hnone : item = none → items = .string "\x7b\x7d") :
    Writes parse (.array (some name) item.toList constraints)
      (name, .object (order.arrange path ((typeData, .string "array") ::
        ("items", items) :: constraints.toMembers))) := by
  have hkeys := nodup_array constraints items
  have htype := typeOf_arranged order path hkeys
  have hitems := get_arranged order path hkeys
    (List.mem_cons_of_mem _ List.mem_cons_self)
  cases item with
  | none =>
    refine ⟨rfl, (fun hfull => by cases hfull), fun _ => ?_⟩
    have he := parseProperty_string parse keyForKeylessSchemas "\x7b\x7d"
    rw [← hnone rfl] at he
    exact ⟨_, parseProperty_array_error htype hitems he⟩
  | some schema =>
    have hwrites := hitem schema rfl
    refine ⟨rfl, fun hfull => ?_, fun hfull => ?_⟩
    · cases hfull with
      | array hfull =>
        obtain ⟨schema', hschema', hsame⟩ := hwrites.again hfull
        have hconstraints := hc.getConstraints
          [(typeData, .string "array"), ("items", items)] (order.perm path _) hkeys
          (by simp [show Keywords.ofStr typeData = none from rfl,
            show Keywords.ofStr "items" = none from rfl])
        exact ⟨_, (Parsed.array htype hitems hschema' hconstraints).parseProperty,
          .array (some name) constraints hsame⟩
    · obtain ⟨e, he⟩ := hwrites.fails fun hfull' => hfull (.array hfull')
      exact ⟨e, parseProperty_array_error htype hitems he⟩

theorem Canonical.writes {schema : DataSchema Hir} (h : Canonical parse schema)
    (order : HashOrder) (path : List String) :
    ∃ m, convertDataSchema order path schema = some (some m) ∧ Writes parse schema m := by
  induction schema using DataSchema.ind generalizing path with
  | empty => cases h
  | string name constraints =>
    cases h with
    | string hc => exact ⟨_, rfl, .string hc⟩
  | integer name constraints =>
    cases h with
    | integer hc => exact ⟨_, rfl, .integer hc⟩
  | constantObject name constraints =>
    cases h with
    | constantObject => exact ⟨_, rfl, .constantObject⟩
  | object name data ih =>
    cases h with
    | @object name _ hdata hnames =>
      obtain ⟨members, hmembers, hall⟩ := exists_written
        (fun schema hschema => ih schema hschema (hdata schema hschema) (name :: path)) hnames
      exact ⟨_, by simp [convertDataSchema, hmembers], .object order (name :: path) hall⟩
  | array name items constraints ih =>
    cases h with
    | @array name item _ hitem hname hc =>
      cases item with
      | none => exact ⟨_, rfl, .array order (name :: path) _ hc (by simp) (fun _ => rfl)⟩
      | some schema =>
        obtain ⟨⟨k, items⟩, hm, hwrites⟩ := ih schema (by simp) (hitem schema rfl) (name :: path)
        obtain rfl : keyForKeylessSchemas = k :=
          Option.some.inj ((hname schema rfl).symm.trans hwrites.name)
        refine ⟨_, ?_, .array order (name :: path) items hc ?_ (by simp)⟩
        · simp [convertDataSchema, convertDataSchemaToMap, hm, insertBefore]
        · intro schema' hschema'
          obtain rfl := Option.mem_some_iff.mp hschema'
          exact hwrites

theorem dataSchemaFromValue_eq_ok {v : Value} {schema : DataSchema Hir} :
    dataSchemaFromValue parse v = .ok schema ↔
      ∃ members data, v.get "properties" = some (.object members) ∧
        parseProperties parse members = .ok data ∧ schema = .object none data := by
  unfold dataSchemaFromValue
  split
  · rename_i members hmembers
    simp only [Option.bind_eq_some_iff, asObject_eq_some] at hmembers
    obtain ⟨_, hproperties, rfl⟩ := hmembers
    rw [bind_eq_ok]
    constructor
    · rintro ⟨data, hdata, hschema⟩
      cases hschema
      exact ⟨members, data, hproperties, hdata, rfl⟩
    · rintro ⟨members', data, hproperties', hdata, rfl⟩
      rw [hproperties] at hproperties'
      cases hproperties'
      exact ⟨data, hdata, rfl⟩
  · rename_i hnone
    simp only [reduceCtorEq, false_iff]
    rintro ⟨members, data, hproperties, -⟩
    simp [hproperties, Value.asObject] at hnone

def DocumentItemsKnown (v : Value) : Prop :=
  ∀ members, v.get "properties" = some (.object members) → ∀ m ∈ members, ItemsKnown m.2

/-- What is read from a document can be written and read again, up to the order of
properties, exactly when no array of the document has items of an unknown type. -/
theorem round_trip_iff (parse : String → Option Hir) (order : HashOrder) (v : Value)
    (schema : DataSchema Hir) (hv : v.WellFormed)
    (h : dataSchemaFromValue parse v = .ok schema) :
    (∃ v' schema', dataValueFromSchema order schema = some v' ∧
      dataSchemaFromValue parse v' = .ok schema' ∧ Same schema' schema) ↔
      DocumentItemsKnown v := by
  obtain ⟨members, data, hproperties, hdata, rfl⟩ := dataSchemaFromValue_eq_ok.mp h
  have hknown : DocumentItemsKnown v ↔ ∀ schema ∈ data, Full schema := by
    rw [full_data_iff hdata fun schema _ k v => full_iff_itemsKnown]
    constructor
    · exact fun h => h members hproperties
    · intro h members' hproperties'
      rw [hproperties] at hproperties'
      cases hproperties'
      exact h
  obtain ⟨written, hwritten, hall⟩ :
      ∃ written, convertDataSchemaToMap order [] data = some written ∧
        List.Forall₂ (Writes parse) data written := by
    cases hv.get hproperties with
    | object hkeys hmembers =>
      refine exists_written (fun schema hschema => ?_) (nodup_names hkeys hdata)
      obtain ⟨m, hm, hfound⟩ := mem_data hdata hschema
      exact (Read.of_parseProperty (hmembers m hm) hfound).canonical.writes order []
  have hvalue : dataValueFromSchema order (.object none data) =
      some (.object [("properties", .object (order.arrange [] written))]) := by
    simp [dataValueFromSchema, hwritten]
  rw [hknown]
  constructor
  · rintro ⟨v', schema', hv', hschema', -⟩
    rw [hvalue] at hv'
    cases hv'
    obtain ⟨members', data', hproperties', hdata', -⟩ := dataSchemaFromValue_eq_ok.mp hschema'
    cases hproperties'
    by_contra hfull
    obtain ⟨e, he⟩ := parseProperties_fails hall (order.perm [] written) hfull
    simp [he] at hdata'
  · intro hfull
    obtain ⟨data', hdata', hsame⟩ := parseProperties_arranged order [] hall hfull
    exact ⟨_, .object none data', hvalue,
      dataSchemaFromValue_eq_ok.mpr ⟨_, data', rfl, hdata', rfl⟩, hsame none⟩

def anyRegex (_pattern : String) : Option Unit := some ()

def insertionOrder : HashOrder := ⟨fun _ members => members, fun _ members => .refl members⟩

def arrayOf (items : Value) : Value :=
  .object [("properties", .object [("a", .object [("type", .string "array"), ("items", items)])])]

def arraySchema (items : List (DataSchema Unit)) : DataSchema Unit :=
  .object none [.array (some "a") items fun _ => none]

theorem dataSchemaFromValue_arrayOf {items : Value} (item : Option (DataSchema Unit))
    (hitem : parseProperty anyRegex keyForKeylessSchemas items = .ok item) :
    dataSchemaFromValue anyRegex (arrayOf items) = .ok (arraySchema item.toList) := by
  refine dataSchemaFromValue_eq_ok.mpr ⟨_, _, rfl, ?_, rfl⟩
  refine parseProperties_cons_eq_ok.mpr
    ⟨some (.array (some "a") item.toList fun _ => none), [], ?_, parseProperties_nil, rfl⟩
  exact Parsed.parseProperty (.array rfl rfl hitem rfl)

theorem wellFormed_arrayOf {items : Value} (hitems : items.WellFormed) :
    (arrayOf items).WellFormed := by
  refine .object (by simp) ?_
  rintro _ (_ | ⟨_, ⟨⟩⟩)
  refine .object (by simp) ?_
  rintro _ (_ | ⟨_, ⟨⟩⟩)
  refine .object (by simp) ?_
  simp [Value.WellFormed.string, hitems]

def stringItems : Value := .object [("type", .string "string")]

theorem documentItemsKnown_stringItems : DocumentItemsKnown (arrayOf stringItems) := by
  rintro _ ⟨⟩ _ (_ | ⟨_, ⟨⟩⟩)
  refine (itemsKnown_array rfl rfl).mpr ⟨⟨"string", rfl, by decide⟩, ?_⟩
  exact itemsKnown_of_leaf rfl (show "string" ≠ _ by decide) (by decide)

theorem round_trip_stringItems :
    ∃ v' schema',
      dataValueFromSchema insertionOrder (arraySchema [.string "__" fun _ => none]) = some v' ∧
      dataSchemaFromValue anyRegex v' = .ok schema' ∧
      Same schema' (arraySchema [.string "__" fun _ => none]) := by
  refine (round_trip_iff anyRegex insertionOrder (arrayOf stringItems) _ ?_ ?_).mpr
    documentItemsKnown_stringItems
  · exact wellFormed_arrayOf (.object (by decide) (by simp [Value.WellFormed.string]))
  · exact dataSchemaFromValue_arrayOf (some _) (Parsed.string rfl rfl).parseProperty

def booleanItems : Value := .object [("type", .string "boolean")]

theorem booleanItems_refused :
    dataSchemaFromValue anyRegex (arrayOf booleanItems) = .ok (arraySchema []) ∧
      dataValueFromSchema insertionOrder (arraySchema []) =
        some (arrayOf (.string "\x7b\x7d")) ∧
      dataSchemaFromValue anyRegex (arrayOf (.string "\x7b\x7d")) =
        .error (.typeNotFound keyForKeylessSchemas) := by
  refine ⟨?_, rfl, ?_⟩
  · exact dataSchemaFromValue_arrayOf none (Parsed.unknown rfl (by decide)).parseProperty
  · have ha : parseProperty anyRegex "a"
        (.object [("type", .string "array"), ("items", .string "\x7b\x7d")]) =
          .error (.typeNotFound keyForKeylessSchemas) :=
      parseProperty_array_error rfl rfl (parseProperty_string anyRegex _ _)
    simp [dataSchemaFromValue, arrayOf, Value.get, Value.asObject, parseProperties, ha, bind,
      Except.bind]

end Overload.Datagen
