import Overload.Datagen.Conformance
import Overload.Request.Transport

namespace Overload.Request

open Json (Value)
open Datagen (ConformsAll DataSchema DocumentConstantAt DocumentSound Draw RegexGenerate
  SameConstant dataSchemaFromValue generateData)

namespace RandomDataRequest

variable {x : Externals}

def requestUrl (generate : x.Schema → Choice Draw Value) (self : RandomDataRequest x) :
    Choice Draw String :=
  match self.uriParamSchema, self.urlParamPos with
  | some schema, some positions => do
    let data ← generate schema
    let url ← .unwrap (substituteParamWithData self.url.toList positions data)
    return .ofList url
  | _, _ => return self.url

def requestBody (generate : x.Schema → Choice Draw Value) (display : Value → String)
    (self : RandomDataRequest x) : Choice Draw (Option String) :=
  if self.method.text = "POST" then
    match self.bodySchema with
    | some schema => do
      let value ← generate schema
      return some (display value)
    | none => return none
  else return none

def request (generate : x.Schema → Choice Draw Value) (display : Value → String)
    (self : RandomDataRequest x) : Choice Draw HttpReq := do
  let url ← self.requestUrl generate
  let body ← self.requestBody generate display
  return { id := "", method := self.method, url, body, headers := self.headers }

def start (self : RandomDataRequest x) : Choice Draw (RandomDataRequest x) :=
  if self.init then return self
  else if self.uriParamSchema.isSome then do
    let positions ← .unwrap (findParamPositions self.url.toList)
    return { self with init := true, urlParamPos := some positions }
  else return { self with init := true }

def getN (generate : x.Schema → Choice Draw Value) (display : Value → String)
    (self : RandomDataRequest x) (n : Nat) : Choice Draw (List HttpReq × RandomDataRequest x) := do
  let self ← self.start
  let requests ← (self.request generate display).repeated n
  return (requests, self)

def getEach (generate : x.Schema → Choice Draw Value) (display : Value → String) :
    RandomDataRequest x → List Nat → Choice Draw (List (List HttpReq))
  | _, [] => return []
  | self, n :: ns => do
    let (requests, self) ← self.getN generate display n
    let rest ← getEach generate display self ns
    return requests :: rest

end RandomDataRequest

section Data

variable {Hir : Type} {parse : String → Option Hir} {regex : RegexGenerate Hir}

/-- A document that is read as a schema, and the rest of what a generation needs. -/
structure Accepted (parse : String → Option Hir) (document : Value) (schema : DataSchema Hir) :
    Prop where
  wellFormed : document.WellFormed
  accepted : dataSchemaFromValue parse document = .ok schema
  sound : DocumentSound document

def Fulfils (document value : Value) : Prop :=
  (∃ members map, document.get "properties" = some (.object members) ∧ value = .object map ∧
    ConformsAll members map) ∧
  ∀ c z, DocumentConstantAt document value c z → SameConstant c z

theorem generateData_fulfils {document : Value} {schema : DataSchema Hir}
    (h : Accepted parse document schema) :
    (generateData parse regex schema).Ensures (Fulfils document) := by
  obtain ⟨members, data, hproperties, hdata, rfl⟩ :=
    Datagen.dataSchemaFromValue_eq_ok.mp h.accepted
  cases h.wellFormed.get hproperties with
  | object hkeys hmembers =>
    have hread {m : String × Value} (hm : m ∈ members) {schema : DataSchema Hir}
        (hschema : Datagen.parseProperty parse m.1 m.2 = .ok (some schema)) :=
      Datagen.Read.of_parseProperty (hmembers m hm) hschema
    have hensures : (Datagen.generateObjectData parse regex data).Ensures fun map =>
        Datagen.KeysIn map members ∧ Datagen.FitsAll members map :=
      Datagen.generateObjectData_ensures (.of_parseProperties hkeys hdata)
        fun m hm schema hschema => (hread hm hschema).ensures (h.sound members hproperties m hm)
    have hyields : (Datagen.generateObjectData parse regex data).Yields fun map =>
        Datagen.KeysIn map members ∧ ConformsAll members map :=
      Datagen.generateObjectData_yields (.of_parseProperties hkeys hdata)
        fun m hm schema hschema => (hread hm hschema).yields
    rw [generateData]
    refine (hensures.and_yields hyields).bind fun map hmap => .pure ⟨?_, ?_⟩
    · exact ⟨members, map, hproperties, rfl, hmap.2.2⟩
    · exact (Datagen.documentConstants_iff hproperties).mpr hmap.1.2

end Data

namespace RandomDataRequest

section Calls

variable {x : Externals} {generate : x.Schema → Choice Draw Value} {display : Value → String}
  {fulfils : x.Schema → Value → Prop} {given current : RandomDataRequest x}

/-- A request of a provider: every parameter of the url that has data is replaced, and only a
`POST` has a body. -/
structure Made (fulfils : x.Schema → Value → Prop) (display : Value → String)
    (given : RandomDataRequest x) (req : HttpReq) : Prop where
  id : req.id = ""
  method : req.method = given.method
  headers : req.headers = given.headers
  plainUrl : given.uriParamSchema = none → req.url = given.url
  filledUrl : ∀ schema, given.uriParamSchema = some schema →
    ∃ data, fulfils schema data ∧ req.url.toList =
      substituted data (paramMatches given.url.toList).1 (paramMatches given.url.toList).2
  noBody : given.method.text ≠ "POST" ∨ given.bodySchema = none → req.body = none
  body : given.method.text = "POST" → ∀ schema, given.bodySchema = some schema →
    ∃ value, fulfils schema value ∧ req.body = some (display value)

def Answers (fulfils : x.Schema → Value → Prop) (display : Value → String)
    (given : RandomDataRequest x) (ns : List Nat) (batches : List (List HttpReq)) : Prop :=
  batches.map List.length = ns ∧ ∀ batch ∈ batches, ∀ req ∈ batch, Made fulfils display given req

structure Called (given current : RandomDataRequest x) : Prop where
  method : current.method = given.method
  url : current.url = given.url
  headers : current.headers = given.headers
  bodySchema : current.bodySchema = given.bodySchema
  uriParamSchema : current.uriParamSchema = given.uriParamSchema
  positions : current.init = true → given.uriParamSchema.isSome = true →
    current.urlParamPos = findParamPositions given.url.toList

theorem start_ensures (h : Called given current) :
    current.start.Ensures fun next => Called given next ∧ next.init = true := by
  rw [start]
  split_ifs with hinit hsome
  · exact .pure ⟨h, hinit⟩
  · rw [findParamPositions_eq]
    refine .pure ⟨⟨h.method, h.url, h.headers, h.bodySchema, h.uriParamSchema, fun _ _ => ?_⟩, rfl⟩
    rw [findParamPositions_eq, h.url]
  · refine .pure ⟨⟨h.method, h.url, h.headers, h.bodySchema, h.uriParamSchema, ?_⟩, rfl⟩
    exact fun _ hsome' => absurd (h.uriParamSchema ▸ hsome') hsome

theorem getN_called (h : Called given current) (n : Nat) :
    (current.getN generate display n).Yields fun answer => Called given answer.2 := by
  refine (start_ensures h).yields.bind fun next hnext => ?_
  exact (Choice.Yields.of_forall fun _ => trivial).bind fun _ _ => .pure hnext.1

section Within

variable {bound : Nat}
  (hwithin : ∀ schema, given.uriParamSchema = some schema ∨ given.bodySchema = some schema →
    (generate schema).Within bound)

theorem start_within (current : RandomDataRequest x) : current.start.Within 0 := by
  rw [start]
  split_ifs
  · exact .pure _
  · exact (Choice.Within.unwrap _).map
  · exact .pure _

include hwithin

theorem requestUrl_within (h : Called given current) :
    (current.requestUrl generate).Within bound := by
  rw [requestUrl.eq_def]
  split
  · rename_i schema _ hschema _
    exact (hwithin schema (.inl (h.uriParamSchema ▸ hschema))).bind
      fun data => (Choice.Within.unwrap _).map
  · exact (Choice.Within.pure _).mono (Nat.zero_le _)

theorem requestBody_within (h : Called given current) :
    (current.requestBody generate display).Within bound := by
  rw [requestBody]
  split_ifs
  · split
    · rename_i schema hschema
      exact (hwithin schema (.inr (h.bodySchema ▸ hschema))).map
    · exact (Choice.Within.pure _).mono (Nat.zero_le _)
  · exact (Choice.Within.pure _).mono (Nat.zero_le _)

theorem getN_within (h : Called given current) (n : Nat) :
    (current.getN generate display n).Within (0 + n * (bound + bound)) := by
  refine (start_within current).bind_of_yields (start_ensures h).yields fun next hnext => ?_
  have hrequest : (next.request generate display).Within (bound + bound) :=
    (requestUrl_within hwithin hnext.1).bind fun url => (requestBody_within hwithin hnext.1).map
  exact (hrequest.repeated n).map

theorem getEach_within (h : Called given current) (ns : List Nat) :
    ∃ n, (getEach generate display current ns).Within n := by
  suffices hall : ∃ n, ∀ current, Called given current →
      (getEach generate display current ns).Within n by
    obtain ⟨n, hall⟩ := hall
    exact ⟨n, hall current h⟩
  induction ns with
  | nil => exact ⟨0, fun _ _ => .pure []⟩
  | cons count ns ih =>
    obtain ⟨n, hrest⟩ := ih
    refine ⟨_, fun current h => (getN_within hwithin h count).bind_of_yields (getN_called h count)
      fun answer hanswer => (hrest answer.2 hanswer).map⟩

end Within

section Settles

variable
  (hsettles : ∀ schema, given.uriParamSchema = some schema ∨ given.bodySchema = some schema →
    (generate schema).Refutes fun _ => False)

theorem start_settles (current : RandomDataRequest x) :
    current.start.Refutes fun _ => False := by
  rw [start]
  split_ifs
  · exact .pure id
  · exact (Choice.Refutes.unwrap _).bind fun _ _ => .pure id
  · exact .pure id

include hsettles

theorem requestUrl_settles (h : Called given current) :
    (current.requestUrl generate).Refutes fun _ => False := by
  rw [requestUrl.eq_def]
  split
  · rename_i schema _ hschema _
    exact (hsettles schema (.inl (h.uriParamSchema ▸ hschema))).bind
      fun data _ => (Choice.Refutes.unwrap _).bind fun _ _ => .pure id
  · exact .pure id

theorem requestBody_settles (h : Called given current) :
    (current.requestBody generate display).Refutes fun _ => False := by
  rw [requestBody]
  split_ifs
  · split
    · rename_i schema hschema
      exact (hsettles schema (.inr (h.bodySchema ▸ hschema))).bind fun _ _ => .pure id
    · exact .pure id
  · exact .pure id

theorem getN_settles (h : Called given current) (n : Nat) :
    (current.getN generate display n).Refutes fun answer => ¬ Called given answer.2 := by
  refine ((start_settles current).of_ensures (start_ensures h)).bind fun next hnext => ?_
  have hcalled : Called given next := (not_not.mp hnext).1
  have hrequest : (next.request generate display).Refutes fun _ => False :=
    (requestUrl_settles hsettles hcalled).bind fun url _ =>
      (requestBody_settles hsettles hcalled).bind fun body _ => .pure id
  exact (hrequest.repeated n).bind fun _ _ => .pure (not_not_intro hcalled)

theorem getEach_settles (h : Called given current) (ns : List Nat) :
    (getEach generate display current ns).Refutes fun _ => False := by
  induction ns generalizing current with
  | nil => exact .pure id
  | cons n ns ih =>
    refine (getN_settles hsettles h n).bind fun answer hanswer => ?_
    exact (ih (not_not.mp hanswer)).bind fun _ _ => .pure id

end Settles

section Ensures

variable (hplace : ∀ schema, given.uriParamSchema = some schema → ∀ data, fulfils schema data →
    InPlace given.url.toList data)
  (hgenerate : ∀ schema, given.uriParamSchema = some schema ∨ given.bodySchema = some schema →
    (generate schema).Ensures (fulfils schema))

include hplace hgenerate

theorem requestUrl_ensures (h : Called given current) (hinit : current.init = true) :
    (current.requestUrl generate).Ensures fun url =>
      (given.uriParamSchema = none → url = given.url) ∧
      ∀ schema, given.uriParamSchema = some schema → ∃ data, fulfils schema data ∧
        url.toList =
          substituted data (paramMatches given.url.toList).1 (paramMatches given.url.toList).2 := by
  rw [requestUrl, h.uriParamSchema, h.url]
  cases huri : given.uriParamSchema with
  | none => exact .pure ⟨fun _ => rfl, fun schema hschema => absurd hschema (by simp)⟩
  | some schema =>
    have hpositions := h.positions hinit (by rw [huri]; rfl)
    rw [findParamPositions_eq] at hpositions
    rw [hpositions]
    refine (hgenerate schema (.inl huri)).bind fun data hdata => ?_
    have hsubstitutes := substitutes_of_inPlace (hplace schema huri data hdata)
    rw [Substitutes, findParamPositions_eq, Option.bind_some] at hsubstitutes
    rw [hsubstitutes]
    refine .pure ⟨fun hnone => absurd hnone (by simp), fun schema' hschema => ?_⟩
    cases hschema
    exact ⟨data, hdata, String.toList_ofList⟩

omit hplace in
theorem requestBody_ensures (h : Called given current) :
    (current.requestBody generate display).Ensures fun body =>
      (given.method.text ≠ "POST" ∨ given.bodySchema = none → body = none) ∧
      (given.method.text = "POST" → ∀ schema, given.bodySchema = some schema →
        ∃ value, fulfils schema value ∧ body = some (display value)) := by
  rw [requestBody, h.method, h.bodySchema]
  split_ifs with hpost
  · cases hbody : given.bodySchema with
    | none =>
      exact .pure ⟨fun _ => rfl, fun _ schema hschema => absurd hschema (by simp)⟩
    | some schema =>
      refine (hgenerate schema (.inr hbody)).bind fun value hvalue => .pure ⟨?_, ?_⟩
      · rintro (hnot | hnot)
        · exact absurd hpost hnot
        · cases hnot
      · intro _ schema' hschema
        cases hschema
        exact ⟨value, hvalue, rfl⟩
  · exact .pure ⟨fun _ => rfl, fun hpost' => absurd hpost' hpost⟩

theorem request_ensures (h : Called given current) (hinit : current.init = true) :
    (current.request generate display).Ensures (Made fulfils display given) := by
  refine (requestUrl_ensures hplace hgenerate h hinit).bind fun url hurl => ?_
  refine (requestBody_ensures hgenerate h).bind fun body hbody => .pure ?_
  exact ⟨rfl, h.method, h.headers, hurl.1, hurl.2, hbody.1, hbody.2⟩

theorem getN_ensures (h : Called given current) (n : Nat) :
    (current.getN generate display n).Ensures fun answer =>
      (answer.1.length = n ∧ ∀ req ∈ answer.1, Made fulfils display given req) ∧
        Called given answer.2 := by
  refine (start_ensures h).bind fun next hnext => ?_
  have hrequest : (next.request generate display).Ensures (Made fulfils display given) :=
    request_ensures hplace hgenerate hnext.1 hnext.2
  have hlength := (hrequest.yields.repeated n).mono fun _ h => h.1
  refine ((Choice.Ensures.repeated fun _ => hrequest).and_yields hlength).bind
    fun requests hrequests => .pure ?_
  exact ⟨⟨hrequests.2, hrequests.1⟩, hnext.1⟩

theorem getEach_ensures (h : Called given current) (ns : List Nat) :
    (getEach generate display current ns).Ensures (Answers fulfils display given ns) := by
  induction ns generalizing current with
  | nil => exact .pure ⟨rfl, List.forall_mem_nil _⟩
  | cons n ns ih =>
    refine (getN_ensures hplace hgenerate h n).bind fun answer hanswer => ?_
    refine (ih hanswer.2).bind fun rest hrest => .pure ⟨?_, ?_⟩
    · rw [List.map_cons, hanswer.1.1, hrest.1]
    · exact List.forall_mem_cons.mpr ⟨hanswer.1.2, hrest.2⟩

end Ensures

end Calls

end RandomDataRequest

def Externals.withSchemas {Hir : Type} (x : Externals)
    (schema : Serde.Codec Host (DataSchema Hir)) : Externals :=
  { x with Schema := DataSchema Hir, schema }

def FulfilsAll {Hir : Type} (parse : String → Option Hir) (schema : DataSchema Hir)
    (value : Value) : Prop :=
  ∀ document, Accepted parse document schema → Fulfils document value

theorem generateData_fulfilsAll {Hir : Type} {parse : String → Option Hir}
    {regex : RegexGenerate Hir} {document : Value} {schema : DataSchema Hir}
    (h : Accepted parse document schema) :
    (generateData parse regex schema).Ensures (FulfilsAll parse schema) := by
  -- one document is enough for a return, and then the data fulfils all that the schema is read of
  have hyields : (generateData parse regex schema).Yields (FulfilsAll parse schema) :=
    fun answers value rest hrun document haccepted =>
      (generateData_fulfils haccepted).yields answers value rest hrun
  exact ((generateData_fulfils h).and_yields hyields).mono fun _ h => h.2

theorem generateData_within_of_some {Hir : Type} (parse : String → Option Hir)
    (regex : RegexGenerate Hir) (given : Option (DataSchema Hir)) :
    ∃ n, ∀ schema, given = some schema → (generateData parse regex schema).Within n := by
  cases given with
  | none => exact ⟨0, fun schema hschema => absurd hschema (by simp)⟩
  | some schema =>
    obtain ⟨n, hwithin⟩ := Datagen.generateData_within parse regex schema
    refine ⟨n, ?_⟩
    rintro _ ⟨⟩
    exact hwithin

def itemDocument : Value := Datagen.oneProperty (.object [("type", .string "integer")])

def itemSchema : DataSchema Unit := .object none [.integer "a" fun _ => none]

theorem accepted_itemDocument : Accepted Datagen.anyRegex itemDocument itemSchema where
  wellFormed := by
    refine .object (by simp) ?_
    rintro _ (_ | ⟨_, ⟨⟩⟩)
    refine .object (by simp) ?_
    rintro _ (_ | ⟨_, ⟨⟩⟩)
    exact .object (by simp) (by simp [Value.WellFormed.string])
  accepted := Datagen.dataSchemaFromValue_oneProperty (.integer rfl rfl)
  sound := by
    rintro _ ⟨⟩ _ (_ | ⟨_, ⟨⟩⟩)
    refine (Datagen.allSound_leaf (.inr rfl)).mpr ((Datagen.sound_integer rfl).mpr ?_)
    rintro c ⟨⟩

theorem isMethod_post : isMethod "POST" = true := by decide

def itemCodec : Serde.Codec Host (DataSchema Unit) := ⟨fun _ => .null, fun _ _ => none⟩

def itemExternals : Externals := Transport.plainExternals.withSchemas itemCodec

def itemRequest : RandomDataRequest itemExternals where
  init := false
  method := ⟨"POST", isMethod_post⟩
  url := "/items/{a}"
  urlParamPos := none
  headers := ∅
  bodySchema := some itemSchema
  uriParamSchema := some itemSchema

end Overload.Request
