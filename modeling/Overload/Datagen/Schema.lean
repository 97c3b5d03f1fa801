import Overload.Json

/-! Data schemas (`datagen/src/lib.rs`): how they are read from JSON and written back.
The regex parser and the order in which hash maps are walked are parameters. -/

namespace Overload.Datagen

open Json

inductive Keywords
  | minLength
  | maxLength
  | minimum
  | maximum
  | constant
  | pattern
  deriving DecidableEq, Repr

namespace Keywords

def asStr : Keywords → String
  | .minLength => "minLength"
  | .maxLength => "maxLength"
  | .minimum => "minimum"
  | .maximum => "maximum"
  | .constant => "constant"
  | .pattern => "pattern"

def ofStr : String → Option Keywords
  | "minimum" => some .minimum
  | "maximum" => some .maximum
  | "minLength" => some .minLength
  | "maxLength" => some .maxLength
  | "constant" => some .constant
  | "pattern" => some .pattern
  | _ => none

def all : List Keywords := [.minLength, .maxLength, .minimum, .maximum, .constant, .pattern]

end Keywords

inductive Constraints (Hir : Type)
  | minLength (x : Int64)
  | maxLength (x : Int64)
  | minimum (x : Int64)
  | maximum (x : Int64)
  | constantInt (x : Int64)
  | constantStr (s : String)
  | constantValue (v : Value)
  | pattern (pattern : String) (hir : Option Hir)

namespace Constraints

variable {Hir : Type}

def asI64 : Constraints Hir → Option Int64
  | .minLength x | .maxLength x | .minimum x | .maximum x | .constantInt x => some x
  | _ => none

def toValue : Constraints Hir → Value
  | .minLength x | .maxLength x | .minimum x | .maximum x | .constantInt x =>
    .number (.ofI64 x)
  | .constantStr s => .string s
  | .constantValue v => v
  | .pattern regex _ => .string regex

end Constraints

abbrev ConstraintMap (Hir : Type) := Keywords → Option (Constraints Hir)

def ConstraintMap.insert {Hir : Type} (constraints : ConstraintMap Hir) (keyword : Keywords)
    (constraint : Constraints Hir) : ConstraintMap Hir :=
  fun k => if k = keyword then some constraint else constraints k

def ConstraintMap.toMembers {Hir : Type} (constraints : ConstraintMap Hir) :
    List (String × Value) :=
  Keywords.all.filterMap fun keyword =>
    (constraints keyword).map fun constraint => (keyword.asStr, constraint.toValue)

inductive DataSchema (Hir : Type)
  | empty
  | string (name : String) (constraints : ConstraintMap Hir)
  | integer (name : String) (constraints : ConstraintMap Hir)
  | object (name : Option String) (data : List (DataSchema Hir))
  | constantObject (name : Option String) (constraints : ConstraintMap Hir)
  | array (name : Option String) (items : List (DataSchema Hir)) (constraints : ConstraintMap Hir)

inductive ParseError
  | propertiesNotFound
  | typeNotFound (k : String)
  | objectPropertiesNotFound (k : String)
  | objectShouldHavePropertiesOrConstant
  | arrayItemsNotFound (k : String)
  | invalidConstraints (property : Value)
  | requiresBothRange (property : Value)
  | minimumAboveMaximum (property : Value)
  | requiresBothLength (property : Value)
  | minLengthAboveMaxLength (property : Value)

def ParseError.message (print : Value → String) (quote : String → String) : ParseError → String
  | .propertiesNotFound => "properties not found"
  | .typeNotFound k => "type not found for " ++ k
  | .objectPropertiesNotFound k => "object properties not found for : " ++ k
  | .objectShouldHavePropertiesOrConstant => "object should have properties or constant"
  | .arrayItemsNotFound k => "array items not found for : " ++ k
  | .invalidConstraints property => "invalid constraints: " ++ quote (print property)
  | .requiresBothRange property =>
    "requires both minimum & maximum constraints - " ++ print property
  | .minimumAboveMaximum property =>
    "invalid constraints - minimum > maximum - " ++ print property
  | .requiresBothLength property =>
    "requires both minLength & maxLength constraints - " ++ print property
  | .minLengthAboveMaxLength property =>
    "invalid constraints - minLength > maxLength - " ++ print property

def typeData : String := "type"

def keyForKeylessSchemas : String := "__"

section Decode

variable {Hir : Type} (parse : String → Option Hir)

def parseConstraint (v : Value) : Keywords → Option (Constraints Hir)
  | .minimum => v.asI64.map .minimum
  | .maximum => v.asI64.map .maximum
  | .minLength => v.asI64.map .minLength
  | .maxLength => v.asI64.map .maxLength
  | .constant =>
    match v.asI64, v.asStr with
    | some val, _ => some (.constantInt val)
    | none, some s => some (.constantStr s)
    | none, none => some (.constantValue v)
  | .pattern => do
    let pattern ← v.asStr
    let hir ← parse pattern
    some (.pattern pattern (some hir))

def parseMember (constraints : ConstraintMap Hir) (member : String × Value) :
    Option (ConstraintMap Hir) :=
  match Keywords.ofStr member.1 with
  | some keyword => (parseConstraint parse member.2 keyword).map (constraints.insert keyword)
  | none => some constraints

def parseConstraints (property : Value) : Option (ConstraintMap Hir) := do
  (← property.asObject).foldlM (parseMember parse) fun _ => none

def below : Option Int64 → Option Int64 → Bool
  | none, some _ => true
  | some a, some b => a < b
  | _, none => false

def validateRange (constraints : ConstraintMap Hir) (least greatest : Keywords)
    (requiresBoth inverted : ParseError) : Except ParseError Unit :=
  let min := constraints least
  let max := constraints greatest
  if min.isSome ≠ max.isSome then .error requiresBoth
  else
    match min, max with
    | some min, some max => if below max.asI64 min.asI64 then .error inverted else .ok ()
    | _, _ => .ok ()

def validateConstraints (constraints : ConstraintMap Hir) (properties : Value) :
    Except ParseError Unit := do
  validateRange constraints .minimum .maximum (.requiresBothRange properties)
    (.minimumAboveMaximum properties)
  validateRange constraints .minLength .maxLength (.requiresBothLength properties)
    (.minLengthAboveMaxLength properties)

def getConstraints (property : Value) : Except ParseError (ConstraintMap Hir) := do
  match parseConstraints parse property with
  | some constraints =>
    validateConstraints constraints property
    .ok constraints
  | none => .error (.invalidConstraints property)

mutual

def parseProperty (k : String) (v : Value) : Except ParseError (Option (DataSchema Hir)) :=
  match (v.get typeData).bind Value.asStr with
  | none => .error (.typeNotFound k)
  | some "object" =>
    match _hget : v.get "properties" with
    | some properties =>
      match _hobject : properties.asObject with
      | some members => do
        let data ← parseProperties members
        .ok (some (.object (some k) data))
      | none => .error (.objectPropertiesNotFound k)
    | none =>
      match v.get Keywords.constant.asStr with
      | some value =>
        .ok (some (.constantObject (some k)
          (ConstraintMap.insert (fun _ => none) .constant (.constantValue value))))
      | none => .error .objectShouldHavePropertiesOrConstant
  | some "string" => do
    let constraints ← getConstraints parse v
    .ok (some (.string k constraints))
  | some "integer" => do
    let constraints ← getConstraints parse v
    .ok (some (.integer k constraints))
  | some "array" =>
    match _hget : v.get "items" with
    | some items => do
      -- the items are read as the only property of a map
      let item ← parseProperty keyForKeylessSchemas items
      let constraints ← getConstraints parse v
      .ok (some (.array (some k) item.toList constraints))
    | none => .error (.arrayItemsNotFound k)
  -- a type that is not known gives nothing
  | some _ => .ok none
termination_by sizeOf v
decreasing_by
  · exact Nat.lt_trans (Value.sizeOf_asObject_lt _hobject) (Value.sizeOf_get_lt _hget)
  · exact Value.sizeOf_get_lt _hget

def parseProperties (properties : List (String × Value)) :
    Except ParseError (List (DataSchema Hir)) :=
  match properties with
  | [] => .ok []
  | (k, v) :: rest => do
    let schema ← parseProperty k v
    let data ← parseProperties rest
    .ok (schema.toList ++ data)
termination_by sizeOf properties

end

end Decode

/-- The order in which a hash map is walked when it becomes a JSON object.  The path
of names from the root tells the maps of one document apart. -/
structure HashOrder where
  arrange : List String → List (String × Value) → List (String × Value)
  perm : ∀ path members, (arrange path members).Perm members

section Encode

variable {Hir : Type} (order : HashOrder)

def insertBefore (entry : String × Value) (rest : List (String × Value)) :
    List (String × Value) :=
  if (rest.lookup entry.1).isSome then rest else entry :: rest

mutual

/-- What one schema adds to the map; the outer `none` is a failed `unwrap`. -/
def convertDataSchema (path : List String) :
    DataSchema Hir → Option (Option (String × Value))
  | .empty => some none
  | .string name constraints =>
    some (some (name, .object (order.arrange (name :: path)
      ((typeData, .string "string") :: constraints.toMembers))))
  | .integer name constraints =>
    some (some (name, .object (order.arrange (name :: path)
      ((typeData, .string "integer") :: constraints.toMembers))))
  | .object name data => do
    let name ← name
    let serializedObj ← convertDataSchemaToMap (name :: path) data
    some (some (name, .object (order.arrange (name :: path)
      [(typeData, .string "object"),
        ("properties", .object (order.arrange (name :: path) serializedObj))])))
  | .array name items constraints => do
    let name ← name
    let items ← convertDataSchemaToMap (name :: path) items
    some (some (name, .object (order.arrange (name :: path)
      ((typeData, .string "array") ::
        ("items", (items.lookup keyForKeylessSchemas).getD (.string "\x7b\x7d")) ::
          constraints.toMembers))))
  | .constantObject name constraints => do
    let name ← name
    some (some (name, .object (order.arrange (name :: path)
      ((typeData, .string "object") :: constraints.toMembers))))

def convertDataSchemaToMap (path : List String) :
    List (DataSchema Hir) → Option (List (String × Value))
  | [] => some []
  | schema :: schemas => do
    let entry ← convertDataSchema path schema
    let properties ← convertDataSchemaToMap path schemas
    some (match entry with
      | some entry => insertBefore entry properties
      | none => properties)

end

def dataValueFromSchema : DataSchema Hir → Option Value
  | .object _ schemas => do
    let map ← convertDataSchemaToMap order [] schemas
    some (.object [("properties", .object (order.arrange [] map))])
  | _ => some (.string "\x7b\x7d")

end Encode

def dataSchemaFromValue {Hir : Type} (parse : String → Option Hir) (schema : Value) :
    Except ParseError (DataSchema Hir) :=
  match (schema.get "properties").bind Value.asObject with
  | some properties => do
    let data ← parseProperties parse properties
    .ok (.object none data)
  | none => .error .propertiesNotFound

end Overload.Datagen
