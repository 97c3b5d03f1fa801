import Overload.Datagen.RoundTrip
import Overload.Datagen.Sound

namespace Overload.Datagen

open Json

section Leaves

variable {Hir : Type} {parse : String → Option Hir} {regex : RegexGenerate Hir} {v : Value}
  {constraints : ConstraintMap Hir}

theorem asStr_eq_some {s : String} : v.asStr = some s ↔ v = .string s := by
  cases v <;> simp [Value.asStr]

theorem sameConstant_none {x : Value} (c : Value) (h : none = some c) : SameConstant c x := by
  cases h

theorem generateStringData_settles (constraints : ConstraintMap Hir) :
    (generateStringData parse regex constraints).Refutes fun _ => False := by
  rw [generateStringData]
  split
  · exact .pure id
  · split
    · exact generatePattern_settles _ _
    · exact (drawI64_settles _ _).bind fun size _ => drawLetters_settles _

theorem generateIntegerData_settles (constraints : ConstraintMap Hir) :
    (generateIntegerData parse regex constraints).Refutes fun _ => False := by
  rw [generateIntegerData]
  split
  · exact .pure id
  · split
    · split
      · exact (generatePattern_settles _ _).bind fun _ _ => .pure id
      · exact .pure id
    · exact drawI64_settles _ _

theorem drawI64_within (min max : Int64) : (drawI64 min max).Within 1 := by
  rw [drawI64]
  split
  · exact Choice.Within.panic.mono (Nat.zero_le 1)
  · exact .ask _

theorem drawLetters_within (size : UInt64) : (drawLetters size).Within 1 := by
  rw [drawLetters]
  split
  · exact Choice.Within.panic.mono (Nat.zero_le 1)
  · exact .ask _

theorem generatePattern_within (pattern : String) (hir : Option Hir) :
    (generatePattern parse regex pattern hir).Within 1 := by
  rw [generatePattern]
  split
  · exact (Choice.Within.ask _).map
  · exact (Choice.Within.pure _).mono (Nat.zero_le 1)

theorem generateStringData_within (constraints : ConstraintMap Hir) :
    (generateStringData parse regex constraints).Within 2 := by
  rw [generateStringData]
  split
  · exact (Choice.Within.pure _).mono (Nat.zero_le 2)
  · split
    · exact (generatePattern_within _ _).mono (Nat.le_succ 1)
    · exact (drawI64_within _ _).bind fun size => drawLetters_within _

theorem generateIntegerData_within (constraints : ConstraintMap Hir) :
    (generateIntegerData parse regex constraints).Within 1 := by
  rw [generateIntegerData]
  split
  · exact (Choice.Within.pure _).mono (Nat.zero_le 1)
  · split
    · split
      · exact (generatePattern_within _ _).map
      · exact (Choice.Within.pure _).mono (Nat.zero_le 1)
    · exact drawI64_within _ _

mutual

theorem generateDatum_within : ∀ schema : DataSchema Hir,
    ∃ n, (generateDatum parse regex schema).Within n
  | .empty => ⟨0, .pure none⟩
  | .string _ constraints => ⟨2, (generateStringData_within constraints).map⟩
  | .integer _ constraints => ⟨1, (generateIntegerData_within constraints).map⟩
  | .object k data =>
    have ⟨n, hdata⟩ := generateObjectData_within data
    ⟨0 + n, (Choice.Within.unwrap k).bind fun _ => hdata.map⟩
  | .array k items _ => by
    obtain ⟨n, hitems⟩ := generateObjectData_within items
    -- no length is above that of the longest
    have hlength : ∀ len : Int64, len.toInt.toNat * (n + 0) ≤ 2 ^ 63 * (n + 0) :=
      fun len => Nat.mul_le_mul_right _ (by have := len.toInt_lt; omega)
    have hitem : (generateItem (generateObjectData parse regex items)).Within (n + 0) :=
      hitems.bind fun map => .unwrap _
    exact ⟨_, (Choice.Within.unwrap k).bind fun _ => (drawI64_within _ _).bind fun len =>
      ((hitem.repeated _).mono (hlength len)).map⟩
  | .constantObject k _ => ⟨0, (Choice.Within.unwrap k).map⟩

theorem generateObjectData_within : ∀ data : List (DataSchema Hir),
    ∃ n, (generateObjectData parse regex data).Within n
  | [] => ⟨0, .pure []⟩
  | datum :: data => by
    obtain ⟨n, hdatum⟩ := generateDatum_within datum
    obtain ⟨m, hdata⟩ := generateObjectData_within data
    refine ⟨n + (m + 0), hdatum.bind fun entry => hdata.bind fun map => ?_⟩
    cases entry with
    | none => exact .pure map
    | some entry => exact .pure _

end

theorem generateData_within (parse : String → Option Hir) (regex : RegexGenerate Hir)
    (schema : DataSchema Hir) : ∃ n, (generateData parse regex schema).Within n := by
  rw [generateData.eq_def]
  split
  · obtain ⟨n, hdata⟩ := generateObjectData_within _
    exact ⟨n, hdata.map⟩
  · exact ⟨0, .pure _⟩

theorem constraints_none (hv : v.WellFormed) (h : getConstraints parse v = .ok constraints)
    {keyword : Keywords} (hnone : v.get keyword.asStr = none) : constraints keyword = none := by
  rw [constraints_eq hv h, hnone, Option.bind_none]

theorem constraints_some (hv : v.WellFormed) (h : getConstraints parse v = .ok constraints)
    {keyword : Keywords} {w : Value} (hw : v.get keyword.asStr = some w) :
    constraints keyword = parseConstraint parse w keyword := by
  rw [constraints_eq hv h, hw, Option.bind_some]

theorem pattern_of_get (hv : v.WellFormed) (h : getConstraints parse v = .ok constraints)
    {w : Value} (hw : v.get Keywords.pattern.asStr = some w) :
    ∃ text hir, constraints .pattern = some (.pattern text (some hir)) := by
  obtain ⟨constraint, hconstraint⟩ :=
    Option.isSome_iff_exists.mp (parseConstraint_isSome hv h hw)
  rw [constraints_some hv h hw, hconstraint]
  simp only [parseConstraint, Option.bind_eq_bind, Option.bind_eq_some_iff] at hconstraint
  obtain ⟨text, -, hir, -, heq⟩ := hconstraint
  exact ⟨text, hir, heq.symm⟩

theorem generateStringData_ensures (hv : v.WellFormed) (htype : typeOf v = some "string")
    (h : getConstraints parse v = .ok constraints) (hsound : Sound v) :
    (generateStringData parse regex constraints).Ensures fun s => Fits v (.string s) := by
  simp only [fits_leaf (.inl htype)]
  rw [generateStringData]
  cases hc : v.get Keywords.constant.asStr with
  | some c =>
    obtain ⟨s, hs⟩ := Option.isSome_iff_exists.mp (hsound.stringConstant htype c hc)
    obtain rfl := asStr_eq_some.mp hs
    rw [constraints_some hv h hc]
    refine .pure ?_
    rintro _ ⟨⟩
    exact .inl rfl
  | none =>
    rw [constraints_none hv h hc]
    cases hp : v.get Keywords.pattern.asStr with
    | some w =>
      obtain ⟨text, hir, hpattern⟩ := pattern_of_get hv h hp
      rw [hpattern]
      exact (generatePattern_ensures text (some hir)).mono fun _ _ => sameConstant_none
    | none =>
      rw [constraints_none hv h hp]
      refine (drawI64_ensures (bounds_ordered hv h).2).bind fun size hsize => ?_
      have hsize : ¬ size < 0 := by
        have := hsound.length htype hc hp
        rw [← bound_eq hv h (by decide)] at this
        rw [Int64.lt_iff_toInt_lt] at this ⊢
        have := Int64.le_iff_toInt_le.mp hsize.1
        omega
      exact (drawLetters_ensures (not_isizeMax_lt_of_nonneg hsize)).mono
        fun _ _ => sameConstant_none

theorem sound_string (htype : typeOf v = some "string") :
    Sound v ↔ (∀ c, v.get Keywords.constant.asStr = some c → c.asStr.isSome) ∧
      (v.get Keywords.constant.asStr = none → v.get Keywords.pattern.asStr = none →
        ¬ declaredBound v .minLength 1 < 0) :=
  ⟨fun h => ⟨h.stringConstant htype, h.length htype⟩, fun h =>
    ⟨fun _ => h.1, by simp [htype], fun _ => h.2, by simp [htype]⟩⟩

theorem sound_integer (htype : typeOf v = some "integer") :
    Sound v ↔ ∀ c, v.get Keywords.constant.asStr = some c → c.asI64.isSome :=
  ⟨fun h => h.integerConstant htype, fun h =>
    ⟨by simp [htype], fun _ => h, by simp [htype], by simp [htype]⟩⟩

theorem generateStringData_refutes (hv : v.WellFormed) (htype : typeOf v = some "string")
    (h : getConstraints parse v = .ok constraints) (hsound : ¬ Sound v) :
    (generateStringData parse regex constraints).Refutes fun s => Fits v (.string s) := by
  simp only [fits_leaf (.inl htype)]
  rw [sound_string htype] at hsound
  rw [generateStringData]
  cases hc : v.get Keywords.constant.asStr with
  | some c =>
    have hstr : ∀ s, c ≠ .string s := by
      rintro s rfl
      refine hsound ⟨fun c' hc' => ?_, fun hnone => ?_⟩
      · cases hc.symm.trans hc'
        rfl
      · cases hc.symm.trans hnone
    rw [constraints_some hv h hc]
    have hpure : ∀ s, Choice.Refutes (pure s : Choice Draw String) fun s => ∀ c',
        some c = some c' → SameConstant c' (.string s) := by
      refine fun s => .pure fun hsame => ?_
      rcases hsame c rfl with heq | ⟨n, -, hn⟩
      · exact hstr s heq.symm
      · cases hn
    simp only [parseConstraint]
    split
    · exact hpure _
    · rename_i hnone
      split at hnone <;> cases hnone
  | none =>
    have hstr : ∀ c, v.get Keywords.constant.asStr = some c → c.asStr.isSome := by
      intro c hc'
      cases hc.symm.trans hc'
    have hp : v.get Keywords.pattern.asStr = none := by
      by_contra hp
      exact hsound ⟨hstr, fun _ hnone => absurd hnone hp⟩
    have hmin : declaredBound v .minLength 1 < 0 := by
      by_contra hmin
      exact hsound ⟨hstr, fun _ _ => hmin⟩
    rw [constraints_none hv h hc, constraints_none hv h hp]
    rw [← bound_eq hv h (by decide)] at hmin
    have hnegative : (drawI64 (bound constraints .minLength 1)
        (bound constraints .maxLength 20)).Refutes fun size => ¬ size < 0 :=
      drawI64_refutes (Int64.le_refl _) (Int64.not_lt.mp (bounds_ordered hv h).2)
        (not_not_intro hmin)
    refine hnegative.bind fun size hsize => ?_
    rw [drawLetters, if_pos (isizeMax_lt_of_neg (not_not.mp hsize))]
    exact .panic

theorem generateIntegerData_ensures (hv : v.WellFormed) (htype : typeOf v = some "integer")
    (h : getConstraints parse v = .ok constraints) (hsound : Sound v) :
    (generateIntegerData parse regex constraints).Ensures
      fun x => Fits v (.number (.ofI64 x)) := by
  simp only [fits_leaf (.inr htype)]
  rw [generateIntegerData]
  cases hc : v.get Keywords.constant.asStr with
  | some c =>
    obtain ⟨n, hn⟩ := Option.isSome_iff_exists.mp (hsound.integerConstant htype c hc)
    rw [constraints_some hv h hc]
    simp only [parseConstraint, hn]
    refine .pure ?_
    rintro _ ⟨⟩
    exact .inr ⟨n, hn, Number.asI64_ofI64 n⟩
  | none =>
    rw [constraints_none hv h hc]
    cases hp : v.get Keywords.pattern.asStr with
    | some w =>
      obtain ⟨text, hir, hpattern⟩ := pattern_of_get hv h hp
      rw [hpattern]
      exact (generatePattern_ensures text (some hir)).bind
        fun _ _ => .pure sameConstant_none
    | none =>
      rw [constraints_none hv h hp]
      exact (drawI64_ensures (bounds_ordered hv h).1).mono fun _ _ => sameConstant_none

theorem generateIntegerData_refutes (hv : v.WellFormed) (htype : typeOf v = some "integer")
    (h : getConstraints parse v = .ok constraints) (hsound : ¬ Sound v) :
    (generateIntegerData parse regex constraints).Refutes
      fun x => Fits v (.number (.ofI64 x)) := by
  simp only [fits_leaf (.inr htype)]
  rw [sound_integer htype] at hsound
  rw [generateIntegerData]
  obtain ⟨c, hc, hn⟩ : ∃ c, v.get Keywords.constant.asStr = some c ∧ c.asI64 = none := by
    simpa using hsound
  rw [constraints_some hv h hc]
  have hpure : ∀ x, Choice.Refutes (pure x : Choice Draw Int64) fun x => ∀ c',
      v.get Keywords.constant.asStr = some c' → SameConstant c' (.number (.ofI64 x)) := by
    refine fun x => .pure fun hsame => ?_
    rcases hsame c hc with rfl | ⟨n, hn', -⟩
    · cases (Number.asI64_ofI64 x).symm.trans hn
    · cases hn'.symm.trans hn
  simp only [parseConstraint, hn]
  split
  · exact hpure _
  · rename_i hnone
    split at hnone <;> cases hnone

end Leaves

section Data

variable {Hir : Type} {parse : String → Option Hir} {regex : RegexGenerate Hir} {v : Value}
  {members map : List (String × Value)} {data : List (DataSchema Hir)} {k : String} {x : Value}

def KeysIn (map members : List (String × Value)) : Prop :=
  ∀ m ∈ map, m.1 ∈ members.map Prod.fst

theorem lookup_eq_none (hkeys : KeysIn map members) (hk : k ∉ members.map Prod.fst) :
    map.lookup k = none := by
  cases hlookup : map.lookup k with
  | none => rfl
  | some x => exact absurd (hkeys _ (mem_of_lookup hlookup)) hk

theorem insertBefore_eq_cons (hkeys : KeysIn map members) (hk : k ∉ members.map Prod.fst) :
    insertBefore (k, x) map = (k, x) :: map := by
  simp [insertBefore, lookup_eq_none hkeys hk]

theorem KeysIn.cons (hkeys : KeysIn map members) :
    KeysIn ((k, x) :: map) ((k, v) :: members) := by
  intro m hm
  rcases List.mem_cons.mp hm with rfl | hm
  · simp
  · exact List.mem_cons_of_mem _ (hkeys m hm)

theorem KeysIn.weaken (hkeys : KeysIn map members) : KeysIn map ((k, v) :: members) :=
  fun m hm => List.mem_cons_of_mem _ (hkeys m hm)

theorem forall_lookup_cons {R : Value → Value → Prop} (hk : k ∉ members.map Prod.fst) :
    (∀ m ∈ (k, v) :: members, ∀ y, ((k, x) :: map).lookup m.1 = some y → R m.2 y) ↔
      R v x ∧ ∀ m ∈ members, ∀ y, map.lookup m.1 = some y → R m.2 y := by
  have hlookup : ∀ m ∈ members, ((k, x) :: map).lookup m.1 = map.lookup m.1 := by
    intro m hm
    have hne : m.1 ≠ k := by
      rintro rfl
      exact hk (List.mem_map_of_mem hm)
    rw [List.lookup_cons, beq_false_of_ne hne]
  simp only [List.forall_mem_cons, List.lookup_cons_self, Option.some.injEq, forall_eq']
  refine and_congr_right fun _ => forall₂_congr fun m hm => ?_
  rw [hlookup m hm]

theorem forall_lookup_skip {R : Value → Value → Prop} (hkeys : KeysIn map members)
    (hk : k ∉ members.map Prod.fst) :
    (∀ m ∈ (k, v) :: members, ∀ y, map.lookup m.1 = some y → R m.2 y) ↔
      ∀ m ∈ members, ∀ y, map.lookup m.1 = some y → R m.2 y := by
  simp [lookup_eq_none hkeys hk]

def DatumEnsures (regex : RegexGenerate Hir) (parse : String → Option Hir) (k : String)
    (v : Value) (schema : DataSchema Hir) : Prop :=
  (generateDatum parse regex schema).Ensures fun entry => ∃ x, entry = some (k, x) ∧ Fits v x

def DatumRefutes (regex : RegexGenerate Hir) (parse : String → Option Hir) (k : String)
    (v : Value) (schema : DataSchema Hir) : Prop :=
  (generateDatum parse regex schema).Refutes fun entry => ∀ x, entry = some (k, x) → Fits v x

def DatumSettles (regex : RegexGenerate Hir) (parse : String → Option Hir) (k : String)
    (schema : DataSchema Hir) : Prop :=
  (generateDatum parse regex schema).Refutes fun entry => ∀ x, entry ≠ some (k, x)

theorem generateObjectData_ensures (hmembers : Members parse members data)
    (h : ∀ m ∈ members, ∀ schema, parseProperty parse m.1 m.2 = .ok (some schema) →
      DatumEnsures regex parse m.1 m.2 schema) :
    (generateObjectData parse regex data).Ensures
      fun map => KeysIn map members ∧ FitsAll members map := by
  induction hmembers with
  | nil =>
    exact .pure ⟨fun m hm => absurd hm List.not_mem_nil, fun m hm => absurd hm List.not_mem_nil⟩
  | skip hk _ _ ih =>
    have hrest := ih fun m' hm' => h m' (List.mem_cons_of_mem _ hm')
    exact hrest.mono fun map hmap => ⟨hmap.1.weaken, (forall_lookup_skip hmap.1 hk).mpr hmap.2⟩
  | cons hk hschema _ ih =>
    have hrest := ih fun m' hm' => h m' (List.mem_cons_of_mem _ hm')
    refine (h _ List.mem_cons_self _ hschema).bind fun entry hentry => ?_
    obtain ⟨x, rfl, hx⟩ := hentry
    refine hrest.bind fun map hmap => .pure ?_
    rw [insertBefore_eq_cons hmap.1 hk]
    exact ⟨hmap.1.cons, (forall_lookup_cons hk).mpr ⟨hx, hmap.2⟩⟩

theorem generateObjectData_settles (hmembers : Members parse members data)
    (h : ∀ m ∈ members, ∀ schema, parseProperty parse m.1 m.2 = .ok (some schema) →
      DatumSettles regex parse m.1 schema) :
    (generateObjectData parse regex data).Refutes fun map => ¬ KeysIn map members := by
  induction hmembers with
  | nil => exact .pure fun hnot => hnot fun m hm => absurd hm List.not_mem_nil
  | skip _ _ _ ih =>
    have hrest := ih fun m' hm' => h m' (List.mem_cons_of_mem _ hm')
    exact hrest.mono fun map hnot hmap => hnot hmap.weaken
  | @cons m _ _ _ hk hschema _ ih =>
    have hrest := ih fun m' hm' => h m' (List.mem_cons_of_mem _ hm')
    refine (h m List.mem_cons_self _ hschema).bind fun entry hentry => ?_
    obtain ⟨x, rfl⟩ : ∃ x, entry = some (m.1, x) := by simpa using hentry
    refine hrest.bind fun map hmap => .pure (not_not_intro ?_)
    rw [not_not] at hmap
    rw [insertBefore_eq_cons hmap hk]
    exact hmap.cons

theorem generateObjectData_refutes (hmembers : Members parse members data)
    (hsettles : ∀ m ∈ members, ∀ schema, parseProperty parse m.1 m.2 = .ok (some schema) →
      DatumSettles regex parse m.1 schema)
    {m : String × Value} (hm : m ∈ members) {schema : DataSchema Hir}
    (hschema : parseProperty parse m.1 m.2 = .ok (some schema))
    (hrefutes : DatumRefutes regex parse m.1 m.2 schema) :
    (generateObjectData parse regex data).Refutes
      fun map => KeysIn map members → FitsAll members map := by
  induction hmembers with
  | nil => cases hm
  | skip hk hschema' _ ih =>
    have hsettles' := fun m'' hm'' => hsettles m'' (List.mem_cons_of_mem _ hm'')
    rcases List.mem_cons.mp hm with rfl | hm
    · cases hschema.symm.trans hschema'
    · refine (ih hsettles' hm).mono fun map hfits hmap => ?_
      exact (forall_lookup_skip hmap hk).mp (hfits hmap.weaken)
  | @cons m' _ _ _ hk hschema' hrest ih =>
    have hsettles' := fun m'' hm'' => hsettles m'' (List.mem_cons_of_mem _ hm'')
    rcases List.mem_cons.mp hm with rfl | hm
    · cases hschema.symm.trans hschema'
      refine hrefutes.bind fun entry hentry => ?_
      obtain ⟨x, rfl, hx⟩ : ∃ x, entry = some (m.1, x) ∧ ¬ Fits m.2 x := by
        simpa using hentry
      refine (generateObjectData_settles hrest hsettles').bind fun map hmap => .pure ?_
      rw [not_not] at hmap
      rw [insertBefore_eq_cons hmap hk]
      exact fun hfits => hx ((forall_lookup_cons hk).mp (hfits hmap.cons)).1
    · refine (hsettles m' List.mem_cons_self _ hschema').bind fun entry hentry => ?_
      obtain ⟨x, rfl⟩ : ∃ x, entry = some (m'.1, x) := by simpa using hentry
      refine (ih hsettles' hm).bind fun map hmap => .pure ?_
      obtain ⟨hkeys, hnot⟩ := Classical.not_imp.mp hmap
      rw [insertBefore_eq_cons hkeys hk]
      exact fun hfits => hnot ((forall_lookup_cons hk).mp (hfits hkeys.cons)).2

theorem generateItem_none {post : Value → Prop} :
    (generateItem (generateObjectData parse regex [])).Refutes post := by
  simp only [generateItem, generateObjectData, pure_bind, List.lookup_nil]
  exact .panic

theorem generateItem_ensures {schema : DataSchema Hir}
    (h : DatumEnsures regex parse keyForKeylessSchemas v schema) :
    (generateItem (generateObjectData parse regex [schema])).Ensures (Fits v) := by
  simp only [generateItem, generateObjectData, bind_assoc, pure_bind]
  refine h.bind fun entry hentry => ?_
  obtain ⟨x, rfl, hx⟩ := hentry
  exact .pure hx

theorem generateItem_refutes {schema : DataSchema Hir}
    (h : DatumRefutes regex parse keyForKeylessSchemas v schema) :
    (generateItem (generateObjectData parse regex [schema])).Refutes (Fits v) := by
  simp only [generateItem, generateObjectData, bind_assoc, pure_bind]
  refine h.bind fun entry hentry => ?_
  obtain ⟨x, rfl, hx⟩ : ∃ x, entry = some (keyForKeylessSchemas, x) ∧ ¬ Fits v x := by
    simpa using hentry
  exact .pure hx

theorem generateItem_settles {item : Option (DataSchema Hir)}
    (h : ∀ schema ∈ item, DatumSettles regex parse keyForKeylessSchemas schema) :
    (generateItem (generateObjectData parse regex item.toList)).Refutes fun _ => False := by
  cases item with
  | none => exact generateItem_none
  | some schema =>
    simp only [generateItem, Option.toList_some, generateObjectData, bind_assoc, pure_bind]
    refine (h schema rfl).bind fun entry hentry => ?_
    obtain ⟨x, rfl⟩ : ∃ x, entry = some (keyForKeylessSchemas, x) := by simpa using hentry
    exact .pure id

theorem Read.settles {schema : DataSchema Hir} (h : Read parse k v schema) :
    DatumSettles regex parse k schema := by
  induction h with
  | string =>
    rw [DatumSettles, generateDatum]
    exact (generateStringData_settles _).bind fun s _ => .pure fun h => h _ rfl
  | integer =>
    rw [DatumSettles, generateDatum]
    exact (generateIntegerData_settles _).bind fun x _ => .pure fun h => h _ rfl
  | constantObject =>
    simp only [DatumSettles, generateDatum, Choice.unwrap, pure_bind]
    exact .pure fun h => h _ rfl
  | object _ _ hkeys _ hdata _ ih =>
    simp only [DatumSettles, generateDatum, Choice.unwrap, pure_bind]
    exact (generateObjectData_settles (.of_parseProperties hkeys hdata) ih).bind
      fun map _ => .pure fun h => h _ rfl
  | array _ _ _ _ _ _ ih =>
    simp only [DatumSettles, generateDatum, Choice.unwrap, pure_bind]
    refine (drawI64_settles _ _).bind fun len _ => ?_
    exact ((generateItem_settles ih).repeated _).bind fun elems _ => .pure fun h => h _ rfl

theorem pos_of_toNat_pos {n : Int64} (h : 0 < n.toInt.toNat) : 0 < n := by
  rw [Int64.lt_iff_toInt_lt, show (0 : Int64).toInt = 0 from rfl]
  omega

theorem toNat_eq_succ_of_pos {n : Int64} (h : 0 < n) : ∃ count, n.toInt.toNat = count + 1 := by
  rw [Int64.lt_iff_toInt_lt, show (0 : Int64).toInt = 0 from rfl] at h
  exact ⟨n.toInt.toNat - 1, by omega⟩

theorem type_known_iff {items : Value} {item : Option (DataSchema Hir)}
    (h : parseProperty parse k items = .ok item) :
    (∃ type, typeOf items = some type ∧ type ∈ knownTypes) ↔ item.isSome := by
  cases item with
  | some schema => simpa using (Parsed.of_parseProperty h).type_known
  | none =>
    cases Parsed.of_parseProperty h with
    | unknown htype hknown => simp [htype, hknown]

theorem Read.ensures {schema : DataSchema Hir} (h : Read parse k v schema) (hsound : AllSound v) :
    DatumEnsures regex parse k v schema := by
  induction h with
  | string hv htype hconstraints =>
    rw [allSound_leaf (.inl htype)] at hsound
    rw [DatumEnsures, generateDatum]
    exact (generateStringData_ensures hv htype hconstraints hsound).bind
      fun s hs => .pure ⟨_, rfl, hs⟩
  | integer hv htype hconstraints =>
    rw [allSound_leaf (.inr htype)] at hsound
    rw [DatumEnsures, generateDatum]
    exact (generateIntegerData_ensures hv htype hconstraints hsound).bind
      fun x hx => .pure ⟨_, rfl, hx⟩
  | constantObject htype hproperties _ =>
    simp only [DatumEnsures, generateDatum, Choice.unwrap, pure_bind]
    exact .pure ⟨_, rfl, fits_constantObject htype hproperties⟩
  | object htype hproperties hkeys _ hdata _ ih =>
    rw [allSound_object htype hproperties] at hsound
    simp only [DatumEnsures, generateDatum, Choice.unwrap, pure_bind]
    refine (generateObjectData_ensures (.of_parseProperties hkeys hdata)
      fun m hm schema hschema => ?_).bind
        fun map hmap => .pure ⟨_, rfl, (fits_object htype hproperties).mpr hmap.2⟩
    exact ih m hm schema hschema (hsound m hm)
  | array hv htype hget hitem hconstraints _ ih =>
    rw [allSound_array htype hget, type_known_iff hitem,
      ← bound_eq hv hconstraints (by decide)] at hsound
    simp only [DatumEnsures, generateDatum, Choice.unwrap, pure_bind]
    refine (drawI64_ensures (bounds_ordered hv hconstraints).2).bind fun len hlen => ?_
    refine (Choice.Ensures.repeated fun hpos => ?_).bind
      fun elems helems => .pure ⟨_, rfl, (fits_array htype hget).mpr helems⟩
    obtain ⟨hsome, hitems⟩ := hsound (Int64.lt_of_lt_of_le (pos_of_toNat_pos hpos) hlen.2)
    obtain ⟨schema, rfl⟩ := Option.isSome_iff_exists.mp hsome
    exact generateItem_ensures (ih schema rfl hitems)

theorem generateObjectData_refutes_of_not_sound (hnodup : (members.map Prod.fst).Nodup)
    (hmembers : ∀ m ∈ members, m.2.WellFormed)
    (hdata : parseProperties parse members = .ok data)
    (hrefutes : ∀ m ∈ members, ∀ schema, parseProperty parse m.1 m.2 = .ok (some schema) →
      ¬ AllSound m.2 → DatumRefutes regex parse m.1 m.2 schema)
    (hsound : ¬ ∀ m ∈ members, AllSound m.2) :
    (generateObjectData parse regex data).Refutes
      fun map => KeysIn map members → FitsAll members map := by
  simp only [not_forall] at hsound
  obtain ⟨m, hm, hsound⟩ := hsound
  obtain ⟨schema, hschema⟩ := (parseProperties_eq_ok.mp hdata).1 m hm
  cases schema with
  | none =>
    cases Parsed.of_parseProperty hschema with
    | unknown htype hknown => exact absurd (allSound_unknown htype hknown) hsound
  | some schema =>
    exact generateObjectData_refutes (.of_parseProperties hnodup hdata)
      (fun m hm schema hschema => (Read.of_parseProperty (hmembers m hm) hschema).settles)
      hm hschema
      (hrefutes m hm schema hschema hsound)

theorem Read.refutes {schema : DataSchema Hir} (h : Read parse k v schema)
    (hsound : ¬ AllSound v) : DatumRefutes regex parse k v schema := by
  induction h with
  | string hv htype hconstraints =>
    rw [allSound_leaf (.inl htype)] at hsound
    rw [DatumRefutes, generateDatum]
    exact (generateStringData_refutes hv htype hconstraints hsound).bind
      fun s hs => .pure fun h => hs (h _ rfl)
  | integer hv htype hconstraints =>
    rw [allSound_leaf (.inr htype)] at hsound
    rw [DatumRefutes, generateDatum]
    exact (generateIntegerData_refutes hv htype hconstraints hsound).bind
      fun x hx => .pure fun h => hx (h _ rfl)
  | constantObject htype hproperties _ =>
    exact absurd (allSound_constantObject htype hproperties) hsound
  | object htype hproperties hkeys hmembers hdata _ ih =>
    rw [allSound_object htype hproperties] at hsound
    simp only [DatumRefutes, generateDatum, Choice.unwrap, pure_bind]
    refine (generateObjectData_refutes_of_not_sound hkeys hmembers hdata ih hsound).bind
      fun map hmap => .pure fun h => ?_
    exact hmap fun _ => (fits_object htype hproperties).mp (h _ rfl)
  | @array _ _ items item constraints hv htype hget hitem hconstraints hread ih =>
    rw [allSound_array htype hget, type_known_iff hitem,
      ← bound_eq hv hconstraints (by decide)] at hsound
    obtain ⟨hmax, hitems⟩ := Classical.not_imp.mp hsound
    obtain ⟨count, hcount⟩ := toNat_eq_succ_of_pos hmax
    have hlongest : (drawI64 (bound constraints .minLength 1)
        (bound constraints .maxLength 20)).Refutes (· ≠ bound constraints .maxLength 20) :=
      drawI64_refutes (Int64.not_lt.mp (bounds_ordered hv hconstraints).2) (Int64.le_refl _)
        (not_not_intro rfl)
    have hsettles : (generateItem (generateObjectData parse regex item.toList)).Refutes
        fun _ => False := generateItem_settles fun schema hschema => (hread schema hschema).settles
    have hround : (generateItem (generateObjectData parse regex item.toList)).Refutes
        (Fits items) := by
      cases item with
      | none => exact generateItem_none
      | some schema =>
        exact generateItem_refutes (ih schema rfl fun hsound => hitems ⟨rfl, hsound⟩)
    simp only [DatumRefutes, generateDatum, Choice.unwrap, pure_bind]
    refine hlongest.bind fun len hlen => ?_
    rw [not_not.mp hlen, hcount]
    refine (hround.repeated_succ hsettles count).bind fun elems helems => .pure fun h => ?_
    exact helems ((fits_array htype hget).mp (h _ rfl))

end Data

section Documents

variable {Hir : Type} {parse : String → Option Hir}

def DocumentConstantAt (v x c z : Value) : Prop :=
  ∃ members k w y, v.get "properties" = some (.object members) ∧ (k, w) ∈ members ∧
    x.get k = some y ∧ ConstantAt w y c z

def DocumentSound (v : Value) : Prop :=
  ∀ members, v.get "properties" = some (.object members) → ∀ m ∈ members, AllSound m.2

theorem documentConstants_iff {v : Value} {members map : List (String × Value)}
    (hproperties : v.get "properties" = some (.object members)) :
    (∀ c z, DocumentConstantAt v (.object map) c z → SameConstant c z) ↔ FitsAll members map := by
  constructor
  · exact fun h m hm x hx c z hz => h c z ⟨members, m.1, m.2, x, hproperties, hm, hx, hz⟩
  · rintro h c z ⟨members', k, w, y, hproperties', hm, hx, hz⟩
    cases hproperties.symm.trans hproperties'
    exact h (k, w) hm y hx c z hz

section Accepted

variable {regex : RegexGenerate Hir} {v : Value} {schema : DataSchema Hir} (hv : v.WellFormed)
  (h : dataSchemaFromValue parse v = .ok schema)

include hv h

theorem generateData_ensures (hsound : DocumentSound v) :
    (generateData parse regex schema).Ensures
      fun x => ∀ c z, DocumentConstantAt v x c z → SameConstant c z := by
  obtain ⟨members, data, hproperties, hdata, rfl⟩ := dataSchemaFromValue_eq_ok.mp h
  cases hv.get hproperties with
  | object hkeys hmembers =>
    rw [generateData]
    refine (generateObjectData_ensures (.of_parseProperties hkeys hdata)
      fun m hm schema hschema => ?_).bind
        fun map hmap => .pure ((documentConstants_iff hproperties).mpr hmap.2)
    exact (Read.of_parseProperty (hmembers m hm) hschema).ensures (hsound members hproperties m hm)

theorem generateData_settles : (generateData parse regex schema).Refutes fun _ => False := by
  obtain ⟨members, data, hproperties, hdata, rfl⟩ := dataSchemaFromValue_eq_ok.mp h
  cases hv.get hproperties with
  | object hkeys hmembers =>
    have hsettles : (generateObjectData parse regex data).Refutes fun map => ¬ KeysIn map members :=
      generateObjectData_settles (.of_parseProperties hkeys hdata)
        fun m hm schema hschema => (Read.of_parseProperty (hmembers m hm) hschema).settles
    rw [generateData]
    exact hsettles.bind fun map _ => .pure id

theorem generateData_delivers (hsound : DocumentSound v) :
    (generateData parse regex schema).Delivers
      fun x => ∀ c z, DocumentConstantAt v x c z → SameConstant c z := by
  obtain ⟨n, hwithin⟩ := generateData_within parse regex schema
  exact (generateData_ensures hv h hsound).delivers hwithin (generateData_settles hv h)

end Accepted

/-- An accepted document generates data with its constants, whatever is drawn, exactly if
what reading it leaves unchecked holds of each property that a generation can come to. -/
theorem generation_right_iff (parse : String → Option Hir) (regex : RegexGenerate Hir)
    {v : Value} {schema : DataSchema Hir} (hv : v.WellFormed)
    (h : dataSchemaFromValue parse v = .ok schema) :
    ((generateData parse regex schema).Ensures
      fun x => ∀ c z, DocumentConstantAt v x c z → SameConstant c z) ↔ DocumentSound v := by
  obtain ⟨members, data, hproperties, hdata, rfl⟩ := dataSchemaFromValue_eq_ok.mp h
  cases hv.get hproperties with
  | object hkeys hmembers =>
    have hsound : DocumentSound v ↔ ∀ m ∈ members, AllSound m.2 := by
      refine ⟨fun h => h members hproperties, fun h members' hproperties' => ?_⟩
      cases hproperties.symm.trans hproperties'
      exact h
    rw [hsound]
    constructor
    · intro hensures
      by_contra hnot
      rw [generateData] at hensures
      refine hensures.not_refutes ((generateObjectData_refutes_of_not_sound hkeys hmembers hdata
        (fun m hm schema hschema => (Read.of_parseProperty (hmembers m hm) hschema).refutes)
          hnot).bind
          fun map hmap => .pure fun hfits => ?_)
      exact hmap fun _ => (documentConstants_iff hproperties).mp hfits
    · exact fun hall => generateData_ensures hv h (hsound.mpr hall)

def anyText : RegexGenerate Unit := ⟨fun _ _ => true, fun _ => ⟨none, rfl⟩⟩

theorem documentSound_stringItems : DocumentSound (arrayOf stringItems) := by
  rintro _ ⟨⟩ _ (_ | ⟨_, ⟨⟩⟩)
  refine (allSound_array rfl rfl).mpr fun _ => ⟨⟨"string", rfl, by decide⟩, ?_⟩
  refine (allSound_leaf (.inl rfl)).mpr ((sound_string rfl).mpr ⟨?_, fun _ _ => by decide⟩)
  rintro c ⟨⟩

theorem generation_right_stringItems :
    (arrayOf stringItems).WellFormed ∧
      dataSchemaFromValue anyRegex (arrayOf stringItems) =
        .ok (arraySchema [.string "__" fun _ => none]) ∧
      (generateData anyRegex anyText (arraySchema [.string "__" fun _ => none])).Ensures
        fun x => ∀ c z, DocumentConstantAt (arrayOf stringItems) x c z → SameConstant c z := by
  have hv : (arrayOf stringItems).WellFormed :=
    wellFormed_arrayOf (.object (by decide) (by simp [Value.WellFormed.string]))
  have h := dataSchemaFromValue_arrayOf (some _)
    (Parsed.string rfl rfl : Parsed anyRegex keyForKeylessSchemas stringItems _).parseProperty
  exact ⟨hv, h, (generation_right_iff anyRegex anyText hv h).mpr documentSound_stringItems⟩

def oneProperty (property : Value) : Value :=
  .object [("properties", .object [("a", property)])]

theorem dataSchemaFromValue_oneProperty {property : Value} {schema : DataSchema Unit}
    (h : Parsed anyRegex "a" property (some schema)) :
    dataSchemaFromValue anyRegex (oneProperty property) = .ok (.object none [schema]) :=
  dataSchemaFromValue_eq_ok.mpr ⟨_, _, rfl,
    parseProperties_cons_eq_ok.mpr ⟨_, _, h.parseProperty, parseProperties_nil, rfl⟩, rfl⟩

def minusOne : Value := .number (.negInt (-1))

def negativeLength : Value :=
  .object [("type", .string "string"), ("minLength", minusOne), ("maxLength", minusOne)]

def negativeLengthSchema : DataSchema Unit :=
  .object none [.string "a"
    (ConstraintMap.insert (ConstraintMap.insert (fun _ => none) .minLength (.minLength (-1)))
      .maxLength (.maxLength (-1)))]

def textConstant : Value := .object [("type", .string "integer"), ("constant", .string "5")]

def textConstantSchema : DataSchema Unit :=
  .object none [.integer "a" (ConstraintMap.insert (fun _ => none) .constant (.constantStr "5"))]

/-- Accepted documents: an array without an item and a string of negative length panic,
and an integer's constant that is a text comes out as the least integer. -/
theorem accepted_not_generated :
    (dataSchemaFromValue anyRegex (arrayOf booleanItems) = .ok (arraySchema []) ∧
      generateData anyRegex anyText (arraySchema []) [.int 1] = .error .panic) ∧
    (dataSchemaFromValue anyRegex (oneProperty negativeLength) = .ok negativeLengthSchema ∧
      generateData anyRegex anyText negativeLengthSchema [.int (-1)] = .error .panic) ∧
    (dataSchemaFromValue anyRegex (oneProperty textConstant) = .ok textConstantSchema ∧
      generateData anyRegex anyText textConstantSchema [] =
        .ok (.object [("a", .number (.negInt Int64.minValue))], [])) := by
  refine ⟨⟨?_, rfl⟩, ⟨?_, rfl⟩, ⟨?_, rfl⟩⟩
  · exact dataSchemaFromValue_arrayOf none (Parsed.unknown rfl (by decide)).parseProperty
  · exact dataSchemaFromValue_oneProperty (.string rfl rfl)
  · exact dataSchemaFromValue_oneProperty (.integer rfl rfl)

end Documents

end Overload.Datagen
