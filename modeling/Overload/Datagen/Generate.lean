import Mathlib.Algebra.Group.Nat.Defs
import Overload.Choice
import Overload.Datagen.Parsed

namespace Overload.Datagen

open Json Calls

/-- What `generate_from_hir` can leave in its buffer: a text, or nothing that is one. -/
structure RegexGenerate (Hir : Type) where
  outcomes : Hir → Option String → Bool
  total : ∀ hir, ∃ text, outcomes hir text = true

inductive Draw
  | int (x : Int64)
  | letters (text : String)
  | generated (text : Option String)
  deriving DecidableEq, Repr

def drawI64 (min max : Int64) : Choice Draw Int64 :=
  if max < min then .panic
  else .ask fun
    | .int x => if min ≤ x ∧ x ≤ max then some x else none
    | _ => none

def isizeMax : Nat := 2 ^ 63 - 1

def drawLetters (size : UInt64) : Choice Draw String :=
  if isizeMax < size.toNat then .panic
  else .ask fun
    | .letters text =>
      if text.length = size.toNat ∧ text.toList.all Char.isAlpha then some text else none
    | _ => none

def parseI64 (text : String) : Option Int64 :=
  let (negative, digits) :=
    match text.toList with
    | '-' :: digits => (true, digits)
    | '+' :: digits => (false, digits)
    | digits => (false, digits)
  if digits.isEmpty || !digits.all Char.isDigit then none
  else
    let magnitude : Int := Nat.ofDigitChars 10 digits 0
    let n := if negative then -magnitude else magnitude
    if Int64.minValue.toInt ≤ n ∧ n ≤ Int64.maxValue.toInt then some (.ofInt n) else none

def Constraints.asStr {Hir : Type} : Constraints Hir → Option String
  | .constantStr s => some s
  | _ => none

def Constraints.asPattern {Hir : Type} : Constraints Hir → Option (String × Option Hir)
  | .pattern text hir => some (text, hir)
  | _ => none

def Constraints.asSerdeValue {Hir : Type} : Constraints Hir → Option Value
  | .constantValue v => some v
  | _ => none

def bound {Hir : Type} (constraints : ConstraintMap Hir) (keyword : Keywords)
    (default : Int64) : Int64 :=
  ((constraints keyword).bind Constraints.asI64).getD default

section Generate

variable {Hir : Type} (parse : String → Option Hir) (regex : RegexGenerate Hir)

def generatePattern (pattern : String) (hir : Option Hir) : Choice Draw String := do
  let failure := "Couldn't generate string for: " ++ pattern
  match hir <|> parse pattern with
  | some hir =>
    let text ← .ask fun
      | .generated text => if regex.outcomes hir text then some text else none
      | _ => none
    return text.getD failure
  | none => return failure

def generateIntegerData (constraints : ConstraintMap Hir) : Choice Draw Int64 :=
  match constraints .constant with
  | some constraint => return constraint.asI64.getD Int64.minValue
  | none =>
    match constraints .pattern with
    | some constraint =>
      match constraint.asPattern with
      | some (pattern, hir) => do
        let randInt ← generatePattern parse regex pattern hir
        return (parseI64 randInt).getD 0
      | none => return constraint.asI64.getD Int64.minValue
    | none => drawI64 (bound constraints .minimum 0) (bound constraints .maximum 100)

def generateStringData (constraints : ConstraintMap Hir) : Choice Draw String :=
  match constraints .constant with
  | some constraint => return constraint.asStr.getD "Error: invalid constant constraint"
  | none =>
    match (constraints .pattern).bind Constraints.asPattern with
    | some (pattern, hir) => generatePattern parse regex pattern hir
    | none => do
      let size ← drawI64 (bound constraints .minLength 1) (bound constraints .maxLength 20)
      drawLetters size.toUInt64

/-- What is done for each element of an array: the keyless entry of a map is taken out. -/
def generateItem (item : Choice Draw (List (String × Value))) : Choice Draw Value := do
  let map ← item
  .unwrap (map.lookup keyForKeylessSchemas)

mutual

def generateDatum : DataSchema Hir → Choice Draw (Option (String × Value))
  | .empty => return none
  | .string k c => do
    let s ← generateStringData parse regex c
    return some (k, .string s)
  | .integer k c => do
    let x ← generateIntegerData parse regex c
    return some (k, .number (.ofI64 x))
  | .object k data => do
    let k ← .unwrap k
    let map ← generateObjectData data
    return some (k, .object map)
  | .array k items constraints => do
    let k ← .unwrap k
    let len ← drawI64 (bound constraints .minLength 1) (bound constraints .maxLength 20)
    let arrayValues ← (generateItem (generateObjectData items)).repeated len.toInt.toNat
    return some (k, .array arrayValues)
  | .constantObject k c => do
    let k ← .unwrap k
    return some (k, ((c .constant).bind Constraints.asSerdeValue).getD (.object []))

def generateObjectData : List (DataSchema Hir) → Choice Draw (List (String × Value))
  | [] => return []
  | datum :: data => do
    let entry ← generateDatum datum
    let map ← generateObjectData data
    match entry with
    | some entry => return insertBefore entry map
    | none => return map

end

def generateData : DataSchema Hir → Choice Draw Value
  | .object none data => do
    let map ← generateObjectData parse regex data
    return .object map
  | _ => return .null

end Generate

section Draws

variable {min max x : Int64} {size : UInt64} {post : Int64 → Prop}

theorem drawI64_ensures (h : ¬ max < min) :
    (drawI64 min max).Ensures fun x => min ≤ x ∧ x ≤ max := by
  rw [drawI64, if_neg h]
  refine .ask fun d x hd => ?_
  cases d with
  | int y =>
    simp only [Option.ite_none_right_eq_some, Option.some.injEq] at hd
    obtain ⟨hrange, rfl⟩ := hd
    exact hrange
  | _ => cases hd

theorem drawI64_refutes (hmin : min ≤ x) (hmax : x ≤ max) (hx : ¬ post x) :
    (drawI64 min max).Refutes post := by
  rw [drawI64]
  split
  · exact .panic
  · exact .ask (.int x) (if_pos ⟨hmin, hmax⟩) hx

theorem drawI64_settles (min max : Int64) : (drawI64 min max).Refutes fun _ => False := by
  by_cases h : max < min
  · rw [drawI64, if_pos h]
    exact .panic
  · exact drawI64_refutes (Int64.le_refl min) (Int64.not_lt.mp h) id

theorem drawLetters_ensures (h : ¬ isizeMax < size.toNat) :
    (drawLetters size).Ensures fun text => text.length = size.toNat := by
  rw [drawLetters, if_neg h]
  refine .ask fun d text hd => ?_
  cases d with
  | letters letters =>
    simp only [Option.ite_none_right_eq_some, Option.some.injEq] at hd
    obtain ⟨⟨hlength, _⟩, rfl⟩ := hd
    exact hlength
  | _ => cases hd

theorem drawLetters_settles (size : UInt64) : (drawLetters size).Refutes fun _ => False := by
  rw [drawLetters]
  split
  · exact .panic
  · let text := String.ofList (List.replicate size.toNat 'a')
    exact .ask (.letters text) (if_pos ⟨by simp [text], by simp [text]⟩) id

theorem isizeMax_lt_of_neg {n : Int64} (hn : n < 0) : isizeMax < n.toUInt64.toNat := by
  rw [Int64.lt_iff_toInt_lt, show n.toInt = n.toBitVec.toInt from rfl,
    BitVec.toInt_eq_toNat_cond, show (0 : Int64).toInt = 0 from rfl] at hn
  rw [show n.toUInt64.toNat = n.toBitVec.toNat from rfl, isizeMax]
  split at hn <;> omega

theorem not_isizeMax_lt_of_nonneg {n : Int64} (hn : ¬ n < 0) : ¬ isizeMax < n.toUInt64.toNat := by
  have := UInt64.le_iff_toNat_le.mp (toUInt64_le_of_nonneg hn)
  exact Nat.not_lt.mpr this

variable {Hir : Type} {parse : String → Option Hir} {regex : RegexGenerate Hir}

theorem generatePattern_ensures (pattern : String) (hir : Option Hir) :
    (generatePattern parse regex pattern hir).Ensures fun _ => True := by
  rw [generatePattern]
  split
  · exact (Choice.Ensures.ask fun _ _ _ => trivial).bind fun _ _ => .pure trivial
  · exact .pure trivial

theorem generatePattern_settles (pattern : String) (hir : Option Hir) :
    (generatePattern parse regex pattern hir).Refutes fun _ => False := by
  rw [generatePattern]
  split
  · rename_i hir _
    obtain ⟨text, htext⟩ := regex.total hir
    refine Choice.Refutes.bind (?_ : Choice.Refutes _ fun _ => False) fun _ _ => .pure id
    exact .ask (.generated text) (if_pos htext) id
  · exact .pure id

end Draws

section Constraints

variable {Hir : Type} {parse : String → Option Hir} {v : Value} {constraints : ConstraintMap Hir}

theorem constraints_eq (hv : v.WellFormed) (h : getConstraints parse v = .ok constraints)
    (keyword : Keywords) :
    constraints keyword = (v.get keyword.asStr).bind (parseConstraint parse · keyword) := by
  cases hv with
  | object hkeys hmembers =>
    obtain ⟨hspells, rfl, hvalid⟩ := (getConstraints_eq_ok hkeys).mp h
    rw [spelled, Value.get]
    split
    · rename_i w hw
      rw [hw, Option.bind_some]
    · rename_i hnone
      rw [hnone, Option.bind_none]
  | _ => cases h

theorem parseConstraint_isSome (hv : v.WellFormed) (h : getConstraints parse v = .ok constraints)
    {keyword : Keywords} {w : Value} (hw : v.get keyword.asStr = some w) :
    (parseConstraint parse w keyword).isSome := by
  cases hv with
  | object hkeys hmembers =>
    exact ((getConstraints_eq_ok hkeys).mp h).1 keyword w (mem_of_lookup hw)
  | _ => cases h

def declaredBound (v : Value) (keyword : Keywords) (default : Int64) : Int64 :=
  ((v.get keyword.asStr).bind Value.asI64).getD default

theorem bound_eq (hv : v.WellFormed) (h : getConstraints parse v = .ok constraints)
    {keyword : Keywords} (hkeyword : keyword ∉ [.constant, .pattern]) (default : Int64) :
    bound constraints keyword default = declaredBound v keyword default := by
  have hparse : ∀ w, (parseConstraint parse w keyword).bind Constraints.asI64 = w.asI64 := by
    intro w
    cases keyword with
    | constant => simp at hkeyword
    | pattern => simp at hkeyword
    | _ => cases hw : w.asI64 <;> simp [parseConstraint, hw, Constraints.asI64]
  rw [bound, declaredBound, constraints_eq hv h]
  cases v.get keyword.asStr with
  | none => rfl
  | some w => rw [Option.bind_some, Option.bind_some, hparse]

theorem asI64_isSome (hv : v.WellFormed) (h : getConstraints parse v = .ok constraints)
    {keyword : Keywords} (hkeyword : keyword ∉ [.constant, .pattern])
    {constraint : Constraints Hir} (hconstraint : constraints keyword = some constraint) :
    constraint.asI64.isSome := by
  rw [constraints_eq hv h, Option.bind_eq_some_iff] at hconstraint
  obtain ⟨w, -, hw⟩ := hconstraint
  cases keyword with
  | constant => simp at hkeyword
  | pattern => simp at hkeyword
  | _ =>
    obtain ⟨x, -, rfl⟩ := Option.map_eq_some_iff.mp hw
    rfl

theorem not_bound_lt {least greatest : Keywords} {e e' : ParseError} {low high : Int64}
    (hleast : ∀ constraint, constraints least = some constraint → constraint.asI64.isSome)
    (hgreatest : ∀ constraint, constraints greatest = some constraint → constraint.asI64.isSome)
    (hvalid : validateRange constraints least greatest e e' = .ok ()) (hdefault : ¬ high < low) :
    ¬ bound constraints greatest high < bound constraints least low := by
  simp only [validateRange] at hvalid
  rw [bound, bound]
  cases hl : constraints least with
  | none =>
    cases hg : constraints greatest with
    | none => exact hdefault
    | some max => simp [hl, hg] at hvalid
  | some min =>
    cases hg : constraints greatest with
    | none => simp [hl, hg] at hvalid
    | some max =>
      obtain ⟨x, hx⟩ := Option.isSome_iff_exists.mp (hleast min hl)
      obtain ⟨y, hy⟩ := Option.isSome_iff_exists.mp (hgreatest max hg)
      simpa [hl, hg, hx, hy, below] using hvalid

theorem bounds_ordered (hv : v.WellFormed) (h : getConstraints parse v = .ok constraints) :
    ¬ bound constraints .maximum 100 < bound constraints .minimum 0 ∧
      ¬ bound constraints .maxLength 20 < bound constraints .minLength 1 := by
  obtain ⟨hrange, hlength⟩ :
      validateRange constraints .minimum .maximum (.requiresBothRange v)
        (.minimumAboveMaximum v) = .ok () ∧
      validateRange constraints .minLength .maxLength (.requiresBothLength v)
        (.minLengthAboveMaxLength v) = .ok () := by
    rw [getConstraints] at h
    split at h
    · obtain ⟨_, hvalid, hok⟩ := bind_eq_ok.mp h
      cases hok
      obtain ⟨_, hrange, hlength⟩ := bind_eq_ok.mp hvalid
      exact ⟨hrange, hlength⟩
    · cases h
  constructor
  · exact not_bound_lt (fun _ => asI64_isSome hv h (by decide))
      (fun _ => asI64_isSome hv h (by decide)) hrange (by decide)
  · exact not_bound_lt (fun _ => asI64_isSome hv h (by decide))
      (fun _ => asI64_isSome hv h (by decide)) hlength (by decide)

end Constraints

end Overload.Datagen
