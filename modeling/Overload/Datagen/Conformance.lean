import Overload.Datagen.Generation

namespace Overload.Datagen

open Json

def Supported (v : Value) : Bool := (typeOf v).any knownTypes.contains

def supportedNames (members : List (String × Value)) : List String :=
  (members.filter fun m => Supported m.2).map Prod.fst

def Ranged (v : Value) : Prop :=
  v.get Keywords.constant.asStr = none ∧ v.get Keywords.pattern.asStr = none

/-- The property `v` may have the data `x`. -/
inductive Conforms : Value → Value → Prop
  | string {v : Value} {text : String} : typeOf v = some "string" →
    (Ranged v → (declaredBound v .minLength 1).toInt ≤ text.length ∧
      text.length ≤ (declaredBound v .maxLength 20).toInt) → Conforms v (.string text)
  | integer {v : Value} {n : Int64} : typeOf v = some "integer" →
    (Ranged v → declaredBound v .minimum 0 ≤ n ∧ n ≤ declaredBound v .maximum 100) →
      Conforms v (.number (.ofI64 n))
  | object {v : Value} {members map : List (String × Value)} : typeOf v = some "object" →
    v.get "properties" = some (.object members) →
    (map.map Prod.fst).Perm (supportedNames members) →
    (∀ m ∈ members, ∀ x, map.lookup m.1 = some x → Conforms m.2 x) → Conforms v (.object map)
  | constantObject {v c : Value} : typeOf v = some "object" → v.get "properties" = none →
    v.get Keywords.constant.asStr = some c → Conforms v c
  | array {v items : Value} {elems : List Value} : typeOf v = some "array" →
    v.get "items" = some items →
    max 0 (declaredBound v .minLength 1).toInt ≤ elems.length →
    elems.length ≤ max 0 (declaredBound v .maxLength 20).toInt →
    (∀ x ∈ elems, Conforms items x) → Conforms v (.array elems)

structure ConformsAll (members map : List (String × Value)) : Prop where
  names : (map.map Prod.fst).Perm (supportedNames members)
  each : ∀ m ∈ members, ∀ x, map.lookup m.1 = some x → Conforms m.2 x

section Draws

theorem drawI64_yields (min max : Int64) :
    (drawI64 min max).Yields fun x => min ≤ x ∧ x ≤ max := by
  by_cases h : max < min
  · rw [drawI64, if_pos h]
    exact .panic
  · exact (drawI64_ensures h).yields

theorem drawLetters_yields (size : UInt64) :
    (drawLetters size).Yields fun text => size.toNat ≤ isizeMax ∧ text.length = size.toNat := by
  by_cases h : isizeMax < size.toNat
  · rw [drawLetters, if_pos h]
    exact .panic
  · exact (drawLetters_ensures h).yields.mono fun _ htext => ⟨Nat.not_lt.mp h, htext⟩

theorem toInt_eq_of_le_isizeMax {n : Int64} (h : n.toUInt64.toNat ≤ isizeMax) :
    n.toInt = n.toUInt64.toNat := by
  rw [show n.toInt = n.toBitVec.toInt from rfl, BitVec.toInt_eq_toNat_cond]
  rw [show n.toUInt64.toNat = n.toBitVec.toNat from rfl, isizeMax] at h
  split
  · rfl
  · omega

end Draws

section Leaves

variable {Hir : Type} {parse : String → Option Hir} {regex : RegexGenerate Hir} {v : Value}
  {constraints : ConstraintMap Hir}

theorem generateStringData_yields (hv : v.WellFormed) (htype : typeOf v = some "string")
    (h : getConstraints parse v = .ok constraints) :
    (generateStringData parse regex constraints).Yields fun s => Conforms v (.string s) := by
  have hfree : ∀ s : String, ¬ Ranged v → Conforms v (.string s) :=
    fun s hranged => .string htype fun h => absurd h hranged
  rw [generateStringData]
  split
  · rename_i hc
    refine .pure (hfree _ fun hranged => ?_)
    cases (constraints_none hv h hranged.1).symm.trans hc
  · split
    · rename_i hp
      refine Choice.Yields.of_forall fun s => hfree s fun hranged => ?_
      rw [constraints_none hv h hranged.2] at hp
      cases hp
    · rw [bound_eq hv h (by decide), bound_eq hv h (by decide)]
      refine (drawI64_yields _ _).bind fun size hsize => ?_
      refine (drawLetters_yields _).mono fun text htext => .string htype fun _ => ?_
      rw [htext.2, ← toInt_eq_of_le_isizeMax htext.1]
      exact ⟨Int64.le_iff_toInt_le.mp hsize.1, Int64.le_iff_toInt_le.mp hsize.2⟩

theorem generateIntegerData_yields (hv : v.WellFormed) (htype : typeOf v = some "integer")
    (h : getConstraints parse v = .ok constraints) :
    (generateIntegerData parse regex constraints).Yields
      fun x => Conforms v (.number (.ofI64 x)) := by
  have hfree : ∀ x : Int64, ¬ Ranged v → Conforms v (.number (.ofI64 x)) :=
    fun x hranged => .integer htype fun h => absurd h hranged
  rw [generateIntegerData]
  split
  · rename_i hc
    refine .pure (hfree _ fun hranged => ?_)
    cases (constraints_none hv h hranged.1).symm.trans hc
  · split
    · rename_i hp
      refine Choice.Yields.of_forall fun x => hfree x fun hranged => ?_
      cases (constraints_none hv h hranged.2).symm.trans hp
    · rw [bound_eq hv h (by decide), bound_eq hv h (by decide)]
      exact (drawI64_yields _ _).mono fun x hx => .integer htype fun _ => hx

end Leaves

section Data

variable {Hir : Type} {parse : String → Option Hir} {regex : RegexGenerate Hir} {v x : Value}
  {members map : List (String × Value)} {data : List (DataSchema Hir)} {k : String}

theorem supported_of_parseProperty {item : Option (DataSchema Hir)}
    (h : parseProperty parse k v = .ok item) : Supported v = item.isSome := by
  rw [Bool.eq_iff_iff, ← type_known_iff h, Supported]
  simp [Option.any_eq_true]

theorem ConformsAll.nil : ConformsAll [] [] :=
  ⟨.nil, fun _ hm => absurd hm List.not_mem_nil⟩

theorem ConformsAll.cons (h : ConformsAll members map) (hk : k ∉ members.map Prod.fst)
    (hv : Supported v) (hx : Conforms v x) :
    ConformsAll ((k, v) :: members) ((k, x) :: map) where
  names := by simpa [supportedNames, hv] using h.names
  each := (forall_lookup_cons hk).mpr ⟨hx, h.each⟩

theorem ConformsAll.skip (h : ConformsAll members map) (hkeys : KeysIn map members)
    (hk : k ∉ members.map Prod.fst) (hv : Supported v = false) :
    ConformsAll ((k, v) :: members) map where
  names := by simpa [supportedNames, hv] using h.names
  each := (forall_lookup_skip hkeys hk).mpr h.each

def DatumYields (regex : RegexGenerate Hir) (parse : String → Option Hir) (k : String)
    (v : Value) (schema : DataSchema Hir) : Prop :=
  (generateDatum parse regex schema).Yields fun entry => ∃ x, entry = some (k, x) ∧ Conforms v x

theorem generateObjectData_yields (hmembers : Members parse members data)
    (h : ∀ m ∈ members, ∀ schema, parseProperty parse m.1 m.2 = .ok (some schema) →
      DatumYields regex parse m.1 m.2 schema) :
    (generateObjectData parse regex data).Yields
      fun map => KeysIn map members ∧ ConformsAll members map := by
  induction hmembers with
  | nil => exact .pure ⟨fun m hm => absurd hm List.not_mem_nil, .nil⟩
  | skip hk hschema _ ih =>
    have hrest := ih fun m' hm' => h m' (List.mem_cons_of_mem _ hm')
    have hsupported := supported_of_parseProperty hschema
    exact hrest.mono fun map hmap => ⟨hmap.1.weaken, hmap.2.skip hmap.1 hk hsupported⟩
  | cons hk hschema _ ih =>
    have hrest := ih fun m' hm' => h m' (List.mem_cons_of_mem _ hm')
    have hsupported := supported_of_parseProperty hschema
    refine (h _ List.mem_cons_self _ hschema).bind fun entry hentry => ?_
    obtain ⟨x, rfl, hx⟩ := hentry
    refine hrest.bind fun map hmap => .pure ?_
    rw [insertBefore_eq_cons hmap.1 hk]
    exact ⟨hmap.1.cons, hmap.2.cons hk hsupported hx⟩

theorem generateItem_yields {item : Option (DataSchema Hir)}
    (h : ∀ schema ∈ item, DatumYields regex parse keyForKeylessSchemas v schema) :
    (generateItem (generateObjectData parse regex item.toList)).Yields (Conforms v) := by
  cases item with
  | none =>
    simp only [generateItem, Option.toList_none, generateObjectData, pure_bind, List.lookup_nil]
    exact .panic
  | some schema =>
    simp only [generateItem, Option.toList_some, generateObjectData, bind_assoc, pure_bind]
    refine (h schema rfl).bind fun entry hentry => ?_
    obtain ⟨x, rfl, hx⟩ := hentry
    exact .pure hx

theorem Read.yields {schema : DataSchema Hir} (h : Read parse k v schema) :
    DatumYields regex parse k v schema := by
  induction h with
  | string hv htype hconstraints =>
    rw [DatumYields, generateDatum]
    exact (generateStringData_yields hv htype hconstraints).bind fun s hs => .pure ⟨_, rfl, hs⟩
  | integer hv htype hconstraints =>
    rw [DatumYields, generateDatum]
    exact (generateIntegerData_yields hv htype hconstraints).bind fun x hx => .pure ⟨_, rfl, hx⟩
  | constantObject htype hproperties hconstant =>
    simp only [DatumYields, generateDatum, Choice.unwrap, pure_bind]
    exact .pure ⟨_, rfl, .constantObject htype hproperties hconstant⟩
  | object htype hproperties hkeys _ hdata _ ih =>
    simp only [DatumYields, generateDatum, Choice.unwrap, pure_bind]
    exact (generateObjectData_yields (.of_parseProperties hkeys hdata) ih).bind
      fun map hmap => .pure ⟨_, rfl, .object htype hproperties hmap.2.names hmap.2.each⟩
  | array hv htype hget _ hconstraints _ ih =>
    simp only [DatumYields, generateDatum, Choice.unwrap, pure_bind]
    rw [bound_eq hv hconstraints (by decide), bound_eq hv hconstraints (by decide)]
    refine (drawI64_yields _ _).bind fun len hlen => ?_
    refine ((generateItem_yields ih).repeated _).bind fun elems helems => .pure ⟨_, rfl, ?_⟩
    have hmin := Int64.le_iff_toInt_le.mp hlen.1
    have hmax := Int64.le_iff_toInt_le.mp hlen.2
    exact .array htype hget (by omega) (by omega) helems.2

end Data

section Documents

variable {Hir : Type} {parse : String → Option Hir} {regex : RegexGenerate Hir}

/-- What is generated from an accepted document conforms to it. -/
theorem generateData_conforms {document x : Value} {schema : DataSchema Hir}
    {draws rest : List Draw} (hdocument : document.WellFormed)
    (haccepted : dataSchemaFromValue parse document = .ok schema)
    (hreturns : generateData parse regex schema draws = .ok (x, rest)) :
    ∃ members map, document.get "properties" = some (.object members) ∧ x = .object map ∧
      ConformsAll members map := by
  obtain ⟨members, data, hproperties, hdata, rfl⟩ := dataSchemaFromValue_eq_ok.mp haccepted
  cases hdocument.get hproperties with
  | object hkeys hmembers =>
    have hyields : (generateData parse regex (.object none data)).Yields fun x =>
        ∃ members map, document.get "properties" = some (.object members) ∧ x = .object map ∧
          ConformsAll members map := by
      rw [generateData]
      refine (generateObjectData_yields (.of_parseProperties hkeys hdata)
        fun m hm schema hschema => ?_).bind
          fun map hmap => .pure ⟨members, map, hproperties, rfl, hmap.2⟩
      exact (Read.of_parseProperty (hmembers m hm) hschema).yields
    exact hyields draws x rest hreturns

theorem generateData_conforms_stringItems :
    generateData anyRegex anyText (arraySchema [.string "__" fun _ => none])
        [.int 2, .int 1, .letters "x", .int 3, .letters "xyz"] =
      .ok (.object [("a", .array [.string "x", .string "xyz"])], []) ∧
    ∃ members map, (arrayOf stringItems).get "properties" = some (.object members) ∧
      Value.object [("a", .array [.string "x", .string "xyz"])] = .object map ∧
        ConformsAll members map := by
  have hv : (arrayOf stringItems).WellFormed :=
    wellFormed_arrayOf (.object (by decide) (by simp [Value.WellFormed.string]))
  have h := dataSchemaFromValue_arrayOf (some _)
    (Parsed.string rfl rfl : Parsed anyRegex keyForKeylessSchemas stringItems _).parseProperty
  have hreturns : generateData anyRegex anyText (arraySchema [.string "__" fun _ => none])
        [.int 2, .int 1, .letters "x", .int 3, .letters "xyz"] =
      .ok (.object [("a", .array [.string "x", .string "xyz"])], []) := rfl
  exact ⟨hreturns, generateData_conforms hv h hreturns⟩

end Documents

end Overload.Datagen
