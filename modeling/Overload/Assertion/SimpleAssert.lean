import Mathlib.Data.List.Zip
import Overload.Calls
import Overload.Request.Transport

namespace Overload.Assertion

open Json (Value)
open Request (Externals)
open Transport (Actual Assertion Expectation JsonPath ResponseAssertion plainExternals)

structure Uri where
  path : List Char
  query : Option (List Char)

inductive AssertionError
  | invalidExpectation (id : UInt32) (text : String)
  | failedAssert (id : UInt32) (text : String)
  | invalidActual (id : UInt32) (text : String)
  | luaAssertionFailure (id : UInt32) (text : String)
  deriving DecidableEq, Repr

def AssertionError.getId : AssertionError → UInt32
  | .invalidExpectation id _ => id
  | .failedAssert id _ => id
  | .invalidActual id _ => id
  | .luaAssertionFailure id _ => id

/-- What other crates do: the selection along a JSON path, the equality of values, and the
texts that `Debug` writes. -/
structure Library (x : Externals) where
  select : x.CompiledPath → Value → Except String (List Value)
  eqv : Value → Value → Bool
  eqv_comm : ∀ a b, eqv a b = eqv b a
  debugAssertion : Assertion x → String
  debugExpectation : Expectation x → String
  debugActual : Actual x → String
  debugValue : Value → String
  debugValues : List Value → String

/-- The variables of the loop.  A map is the list of its insertions, the latest first. -/
structure State where
  errors : List AssertionError
  paths : Option (List (List Char))
  params : Option (List (List Char × List Char))
  allMatched : Bool

def State.start : State := ⟨[], none, none, true⟩

def State.push (s : State) (error : AssertionError) : State :=
  { s with errors := s.errors ++ [error] }

def State.result (s : State) : Except (List AssertionError) Unit :=
  if s.allMatched then .ok () else .error s.errors

def cut (query : List Char) : Option (List Char × List Char) := do
  let pos ← query.findIdx? (· == '=')
  let (s1, s2) := query.splitAt pos
  some (s1, s2.drop 1)

def queryMap (queries : List Char) : Option (List (List Char × List Char)) :=
  ((queries.splitOn '&').mapM cut).map List.reverse

def Uri.queryParams (uri : Uri) : Option (List (List Char × List Char)) :=
  match uri.query with
  | none => some []
  | some queries => queryMap queries

def State.split (uri : Uri) (s : State) : List (List Char) :=
  match s.paths with
  | some paths => paths
  | none => uri.path.splitOn '/'

def State.queryParams (uri : Uri) (s : State) : Option (List (List Char × List Char)) :=
  match s.params with
  | some params => some params
  | none => uri.queryParams

section Model

variable {x : Externals} (lib : Library x) (uri : Uri) (body : Option Value) (response : Value)

def same (as bs : List Value) : Bool :=
  as.length == bs.length && (as.zip bs).all fun pair => lib.eqv pair.1 pair.2

def expect (assertion : Assertion x) (s : State) : Option (Option (List Value) × State) :=
  let id := assertion.id
  match assertion.expectation with
  | .requestPath segment =>
    let split := s.split uri
    let s := { s with paths := some split }
    let pos := segment.1.toNat
    if split.length < pos + 1 then
      some (none, s.push (.invalidExpectation id
        ("Assertion: " ++ lib.debugAssertion assertion ++ " - " ++
          lib.debugExpectation assertion.expectation ++ ": SegmentNumber too big.")))
    else
      (split[pos]?).map fun t => (some [.string (String.ofList t)], s)
  | .requestQueryParam paramName => do
    let params ← s.queryParams uri
    let s := { s with params := some params }
    match params.lookup paramName.toList with
    | some t => some (some [.string (String.ofList t)], s)
    | none =>
      some (none, s.push (.invalidExpectation id
        ("Assertion: " ++ lib.debugAssertion assertion ++ " - " ++
          lib.debugExpectation assertion.expectation ++ ": query param not found.")))
  | .constant val => some (some [val], s)
  | .requestBody path =>
    match body with
    | some body =>
      match lib.select path.inner body with
      | .ok values => some (some values, s)
      | .error e =>
        some (none, s.push (.invalidExpectation id
          ("Assertion: " ++ lib.debugAssertion assertion ++ " - " ++
            lib.debugExpectation assertion.expectation ++ ": failed to extract value: " ++ e ++
            ".")))
    | none =>
      some (none, s.push (.invalidExpectation id
        (lib.debugAssertion assertion ++ " - no request body")))

def compare (assertion : Assertion x) (expect : List Value) (s : State) : Bool × State :=
  let id := assertion.id
  if !expect.isEmpty then
    match assertion.actual with
    | .fromJsonResponse path =>
      match lib.select path.inner response with
      | .ok actual =>
        let matched := same lib actual expect
        (matched, if !matched then
          s.push (.failedAssert id (lib.debugAssertion assertion ++ " - expected: " ++
            lib.debugValues expect ++ ", actual: " ++ lib.debugValues actual))
          else s)
      | .error e =>
        (false, s.push (.invalidActual id (lib.debugAssertion assertion ++ " - " ++
          lib.debugActual assertion.actual ++ ": error: " ++ e)))
    | .constant val =>
      let matched := same lib expect [val]
      (matched, if !matched then
        s.push (.failedAssert id (lib.debugAssertion assertion ++ " - expected: " ++
          lib.debugValues expect ++ ", actual: " ++ lib.debugValue val))
        else s)
  else
    (false, s.push (.invalidExpectation id (lib.debugAssertion assertion ++
      " - expectation not found or empty - " ++ lib.debugValues expect)))

def turn (s : State) (assertion : Assertion x) : Option State := do
  let (expectation, s) ← expect lib uri body assertion s
  let (matched, s) :=
    match expectation with
    | none => (false, s)
    | some expect => compare lib response assertion expect s
  match matched with
  | false => some { s with allMatched := false }
  | true => some s

def simpleAssert (assertions : ResponseAssertion x) : Option (Except (List AssertionError) Unit) :=
  ((assertions.simpleAssertions.getD []).foldlM (turn lib uri body response) State.start).map
    State.result

def param (name : List Char) : Option (List Char) :=
  ((((uri.query.map fun q => q.splitOn '&').getD []).filterMap cut).reverse).lookup name

def expectedValues : Expectation x → Option (List Value)
  | .requestPath segment =>
    ((uri.path.splitOn '/')[segment.1.toNat]?).map fun t => [.string (String.ofList t)]
  | .requestQueryParam name =>
    (param uri name.toList).map fun t => [.string (String.ofList t)]
  | .requestBody path => body.bind fun body => (lib.select path.inner body).toOption
  | .constant val => some [val]

def actualValues : Actual x → Option (List Value)
  | .fromJsonResponse path => (lib.select path.inner response).toOption
  | .constant val => some [val]

/-- The expectation exists, is not empty, and equals the actual value. -/
def holds (assertion : Assertion x) : Bool :=
  match expectedValues lib uri body assertion.expectation,
    actualValues lib response assertion.actual with
  | some expect, some actual => !expect.isEmpty && same lib expect actual
  | _, _ => false

end Model

def State.add (s t : State) : State where
  errors := s.errors ++ t.errors
  paths := t.paths <|> s.paths
  params := t.params <|> s.params
  allMatched := s.allMatched && t.allMatched

structure Sound (uri : Uri) (s : State) : Prop where
  paths : ∀ split ∈ s.paths, split = uri.path.splitOn '/'
  params : ∀ params ∈ s.params, uri.queryParams = some params

section Turns

variable {x : Externals} {lib : Library x} {uri : Uri} {body : Option Value} {response : Value}
  {assertion : Assertion x} {s t u : State}

theorem State.add_start : s.add .start = s := by
  simp [add, start]

theorem State.add_assoc : (s.add t).add u = s.add (t.add u) := by
  obtain ⟨_, paths, params, _⟩ := u
  cases paths <;> cases params <;> simp [add, Bool.and_assoc]

theorem State.push_add (error : AssertionError) : (s.add t).push error = s.add (t.push error) := by
  simp [add, push]

theorem sound_start : Sound uri .start := by
  constructor
  · rintro _ ⟨⟩
  · rintro _ ⟨⟩

theorem Sound.add (hs : Sound uri s) (ht : Sound uri t) : Sound uri (s.add t) := by
  obtain ⟨_, paths, params, _⟩ := t
  constructor
  · cases paths with
    | none => exact hs.paths
    | some split => exact ht.paths
  · cases params with
    | none => exact hs.params
    | some params => exact ht.params

theorem Sound.split_eq (hs : Sound uri s) : s.split uri = uri.path.splitOn '/' := by
  rw [State.split]
  cases h : s.paths with
  | none => rfl
  | some split => exact hs.paths split h

theorem Sound.queryParams_eq (hs : Sound uri s) : s.queryParams uri = uri.queryParams := by
  rw [State.queryParams]
  cases h : s.params with
  | none => rfl
  | some params => exact (hs.params params h).symm

theorem expect_add (hs : Sound uri s) : expect lib uri body assertion s =
    (expect lib uri body assertion .start).map fun (values, t) => (values, s.add t) := by
  obtain ⟨id, expectation, actual⟩ := assertion
  cases expectation with
  | requestPath segment =>
    simp only [expect, hs.split_eq, sound_start.split_eq]
    split
    · simp [State.add, State.start, State.push]
    · simp [State.add, State.start, Function.comp_def]
  | requestQueryParam name =>
    simp only [expect, hs.queryParams_eq, sound_start.queryParams_eq]
    cases uri.queryParams with
    | none => rfl
    | some params =>
      cases h : params.lookup name.toList <;> simp [h, State.add, State.start, State.push]
  | requestBody path =>
    cases body with
    | none => simp [expect, State.add, State.start, State.push]
    | some body =>
      cases h : lib.select path.inner body <;>
        simp [expect, h, State.add, State.start, State.push]
  | constant val => simp [expect, State.add_start]

theorem compare_add (values : List Value) : compare lib response assertion values (s.add t) =
    ((compare lib response assertion values t).1,
      s.add (compare lib response assertion values t).2) := by
  unfold compare
  split
  · split
    · split
      · dsimp only
        split <;> simp [State.push_add]
      · simp [State.push_add]
    · dsimp only
      split <;> simp [State.push_add]
  · simp [State.push_add]

theorem turn_add (hs : Sound uri s) : turn lib uri body response s assertion =
    (turn lib uri body response .start assertion).map s.add := by
  rw [turn, turn, expect_add hs]
  cases expect lib uri body assertion .start with
  | none => rfl
  | some found =>
    obtain ⟨values, t⟩ := found
    cases values with
    | none => simp [State.add]
    | some values =>
      simp only [Option.map_some, Option.bind_eq_bind, Option.bind_some, compare_add]
      split <;> simp [State.add]

end Turns

section Queries

variable {name value segment queries : List Char} {uri : Uri}

theorem cut_cons (c : Char) (segment : List Char) : cut (c :: segment) =
    if c = '=' then some ([], segment)
    else (cut segment).map fun (name, value) => (c :: name, value) := by
  by_cases hc : c = '='
  · simp [cut, List.findIdx?_cons, hc]
  · rw [cut, cut, List.findIdx?_cons]
    cases segment.findIdx? (· == '=') <;> simp [hc]

theorem cut_eq_some_iff :
    cut segment = some (name, value) ↔ segment = name ++ '=' :: value ∧ '=' ∉ name := by
  induction segment generalizing name with
  | nil => simp [cut]
  | cons c segment ih =>
    rw [cut_cons]
    by_cases hc : c = '='
    · cases name with
      | nil => simp [hc]
      | cons d name => simp +contextual [hc, eq_comm]
    · cases name with
      | nil => simp [hc]
      | cons d name =>
        rw [if_neg hc, Option.map_eq_some_iff]
        constructor
        · rintro ⟨⟨_, _⟩, hcut, ⟨⟩⟩
          obtain ⟨rfl, hname⟩ := ih.mp hcut
          simp [hname, Ne.symm hc]
        · rintro ⟨⟨⟩, hname⟩
          exact ⟨(name, value), ih.mpr ⟨rfl, fun h => hname (List.mem_cons_of_mem _ h)⟩, rfl⟩

theorem cut_isSome_iff : (cut segment).isSome ↔ '=' ∈ segment := by
  induction segment with
  | nil => simp [cut]
  | cons c segment ih =>
    rw [cut_cons, List.mem_cons, ← ih]
    by_cases hc : c = '='
    · simp [hc]
    · simp [hc, Ne.symm hc]

def Uri.WellFormed (uri : Uri) : Prop :=
  ∀ queries ∈ uri.query, ∀ segment ∈ queries.splitOn '&', '=' ∈ segment

theorem queryMap_eq (queries : List Char) : queryMap queries =
    if (queries.splitOn '&').all fun segment => (cut segment).isSome then
      some ((queries.splitOn '&').filterMap cut).reverse
    else none := by
  rw [queryMap, Calls.mapM_eq_ite]
  split <;> rfl

theorem Uri.queryParams_eq_none : uri.queryParams = none ↔ ¬ uri.WellFormed := by
  rw [queryParams, WellFormed]
  cases uri.query with
  | none => simp
  | some queries => simp [queryMap_eq, cut_isSome_iff]

theorem Uri.lookup_queryParams {params : List (List Char × List Char)}
    (h : uri.queryParams = some params) : params.lookup name = param uri name := by
  rw [queryParams] at h
  rw [param]
  split at h
  · rename_i hquery
    cases h
    simp [hquery]
  · rename_i queries hquery
    rw [queryMap_eq] at h
    split at h
    · cases h
      simp [hquery]
    · cases h

def LastOccurs (queries name value : List Char) : Prop :=
  ∃ before after, queries.splitOn '&' = before ++ (name ++ '=' :: value) :: after ∧
    '=' ∉ name ∧ ∀ segment ∈ after, ∀ other, segment ≠ name ++ '=' :: other

theorem param_of_lastOccurs (hquery : uri.query = some queries)
    (h : LastOccurs queries name value) : param uri name = some value := by
  obtain ⟨before, after, hsegments, hname, hafter⟩ := h
  have hcut : cut (name ++ '=' :: value) = some (name, value) := cut_eq_some_iff.mpr ⟨rfl, hname⟩
  rw [param, hquery, Option.map_some, Option.getD_some, hsegments, List.filterMap_append,
    List.filterMap_cons_some hcut, List.reverse_append, List.reverse_cons, List.append_assoc]
  refine List.lookup_eq_some_iff.mpr ⟨(after.filterMap cut).reverse, _, rfl, fun pair hpair => ?_⟩
  obtain ⟨segment, hsegment, hpair⟩ := List.mem_filterMap.mp (List.mem_reverse.mp hpair)
  rw [bne_iff_ne]
  rintro rfl
  exact hafter segment hsegment pair.2 (cut_eq_some_iff.mp hpair).1

end Queries

section Verdicts

variable {x : Externals} {lib : Library x} {uri : Uri} {body : Option Value} {response : Value}
  {assertion : Assertion x} {s t u : State}

theorem same_comm (as bs : List Value) : same lib as bs = same lib bs as := by
  have hswap : bs.zip as = (as.zip bs).map Prod.swap := (List.zip_swap as bs).symm
  simp only [same, hswap, List.all_map, Function.comp_def, Prod.fst_swap, Prod.snd_swap]
  simp only [lib.eqv_comm, BEq.comm]

theorem expect_start_eq_none : expect lib uri body assertion .start = none ↔
    ∃ name, assertion.expectation = .requestQueryParam name ∧ ¬ uri.WellFormed := by
  obtain ⟨id, expectation, actual⟩ := assertion
  cases expectation with
  | requestPath segment =>
    simp only [expect]
    split
    · simp
    · simp only [Option.map_eq_none_iff, List.getElem?_eq_none_iff]
      simp
      omega
  | requestQueryParam name =>
    rw [← Uri.queryParams_eq_none]
    simp only [expect, sound_start.queryParams_eq]
    cases uri.queryParams with
    | none => simp
    | some params => cases h : params.lookup name.toList <;> simp [h]
  | requestBody path =>
    cases body with
    | none => simp [expect]
    | some body => cases h : lib.select path.inner body <;> simp [expect, h]
  | constant val => simp [expect]

theorem sound_paths : Sound uri { State.start with paths := some (uri.path.splitOn '/') } := by
  constructor
  · rintro _ ⟨⟩
    rfl
  · rintro _ ⟨⟩

theorem sound_params {params : List (List Char × List Char)}
    (h : uri.queryParams = some params) :
    Sound uri { State.start with params := some params } := by
  constructor
  · rintro _ ⟨⟩
  · rintro _ ⟨⟩
    exact h

theorem Sound.push (hs : Sound uri s) (error : AssertionError) : Sound uri (s.push error) :=
  ⟨hs.paths, hs.params⟩

theorem expect_start {values : Option (List Value)}
    (h : expect lib uri body assertion .start = some (values, t)) :
    Sound uri t ∧ t.allMatched = true ∧
      values = expectedValues lib uri body assertion.expectation ∧
      if values.isSome then t.errors = []
      else ∃ error, error.getId = assertion.id ∧ t.errors = [error] := by
  obtain ⟨id, expectation, actual⟩ := assertion
  cases expectation with
  | requestPath segment =>
    simp only [expect, sound_start.split_eq] at h
    split at h
    · rename_i hlength
      cases h
      have hnone : (uri.path.splitOn '/')[segment.1.toNat]? = none :=
        List.getElem?_eq_none (by omega)
      exact ⟨sound_paths.push _, rfl, by rw [expectedValues, hnone]; rfl, _, rfl, rfl⟩
    · obtain ⟨text, htext, heq⟩ := Option.map_eq_some_iff.mp h
      cases heq
      exact ⟨sound_paths, rfl, by rw [expectedValues, htext]; rfl, rfl⟩
  | requestQueryParam name =>
    simp only [expect, sound_start.queryParams_eq] at h
    obtain ⟨params, hparams, h⟩ := Option.bind_eq_some_iff.mp h
    rw [Uri.lookup_queryParams hparams] at h
    split at h
    · rename_i text hparam
      cases h
      exact ⟨sound_params hparams, rfl, by rw [expectedValues, hparam]; rfl, rfl⟩
    · rename_i hparam
      cases h
      exact ⟨(sound_params hparams).push _, rfl, by rw [expectedValues, hparam]; rfl, _, rfl, rfl⟩
  | requestBody path =>
    simp only [expect] at h
    split at h
    · rename_i body
      split at h
      · rename_i values hselect
        cases h
        exact ⟨sound_start, rfl, by rw [expectedValues, Option.bind_some, hselect]; rfl, rfl⟩
      · rename_i e hselect
        cases h
        exact ⟨sound_start.push _, rfl, by rw [expectedValues, Option.bind_some, hselect]; rfl,
          _, rfl, rfl⟩
    · cases h
      exact ⟨sound_start.push _, rfl, rfl, _, rfl, rfl⟩
  | constant val =>
    cases h
    exact ⟨sound_start, rfl, rfl, rfl⟩

theorem holds_eq {values : List Value}
    (h : expectedValues lib uri body assertion.expectation = some values) :
    holds lib uri body response assertion =
      match actualValues lib response assertion.actual with
      | some actual => !values.isEmpty && same lib values actual
      | none => false := by
  rw [holds, h]
  cases actualValues lib response assertion.actual <;> rfl

theorem compare_eq {values : List Value}
    (h : expectedValues lib uri body assertion.expectation = some values) :
    compare lib response assertion values s = (true, s) ∧
        holds lib uri body response assertion = true ∨
      ∃ error, error.getId = assertion.id ∧
        compare lib response assertion values s = (false, s.push error) ∧
        holds lib uri body response assertion = false := by
  rw [holds_eq h, compare]
  cases values.isEmpty with
  | true =>
    refine .inr ⟨_, rfl, rfl, ?_⟩
    cases actualValues lib response assertion.actual <;> rfl
  | false =>
    cases assertion.actual with
    | fromJsonResponse path =>
      simp only [actualValues]
      cases lib.select path.inner response with
      | ok actual =>
        simp only [Except.toOption, same_comm values actual]
        cases same lib actual values with
        | true => exact .inl ⟨rfl, rfl⟩
        | false => exact .inr ⟨_, rfl, rfl, rfl⟩
      | error e => exact .inr ⟨_, rfl, rfl, rfl⟩
    | constant val =>
      simp only [actualValues]
      cases same lib values [val] with
      | true => exact .inl ⟨rfl, rfl⟩
      | false => exact .inr ⟨_, rfl, rfl, rfl⟩

theorem turn_start (h : turn lib uri body response .start assertion = some t) :
    Sound uri t ∧ t.allMatched = holds lib uri body response assertion ∧
      if holds lib uri body response assertion then t.errors = []
      else ∃ error, error.getId = assertion.id ∧ t.errors = [error] := by
  rw [turn, Option.bind_eq_bind, Option.bind_eq_some_iff] at h
  obtain ⟨⟨values, u⟩, hexpect, hmatch⟩ := h
  obtain ⟨hsound, hmatched, hvalues, herrors⟩ := expect_start hexpect
  cases values with
  | none =>
    cases hmatch
    have hfails : holds lib uri body response assertion = false := by
      rw [holds, ← hvalues]
    rw [hfails]
    exact ⟨⟨hsound.paths, hsound.params⟩, rfl, herrors⟩
  | some values =>
    have herrors : u.errors = [] := herrors
    rcases compare_eq (s := u) hvalues.symm with ⟨hcompare, hholds⟩ | ⟨error, hid, hcompare, hholds⟩
    · dsimp only at hmatch
      rw [hcompare] at hmatch
      cases hmatch
      rw [hholds]
      exact ⟨hsound, hmatched, herrors⟩
    · dsimp only at hmatch
      rw [hcompare] at hmatch
      cases hmatch
      rw [hholds]
      exact ⟨⟨hsound.paths, hsound.params⟩, rfl, error, hid, by simp [State.push, herrors]⟩

end Verdicts

def sameString : Value → Value → Bool
  | .string s, .string t => s == t
  | _, _ => false

theorem sameString_comm (a b : Value) : sameString a b = sameString b a := by
  cases a <;> cases b <;> simp [sameString, BEq.comm]

def plainLibrary : Library plainExternals where
  select path value := .ok (value.get path).toList
  eqv := sameString
  eqv_comm := sameString_comm
  debugAssertion _ := "Assertion"
  debugExpectation _ := "Expectation"
  debugActual _ := "Actual"
  debugValue _ := "Value"
  debugValues _ := "Values"

def anything : Uri := ⟨['/', 'a', '/', 'b'], some ['i', 'd', '=', '5', '&', 'i', 'd', '=', '6']⟩

theorem second_within : (1 : UInt64) ≤ 2 ∧ (2 : UInt64) ≤ 0xff := by decide

def anythingAssertions : List (Assertion plainExternals) :=
  [⟨1, .requestPath ⟨2, second_within⟩, .constant (.string "b")⟩,
    ⟨2, .requestQueryParam "id", .constant (.string "5")⟩]

section Runs

variable {x : Externals} {lib : Library x} {uri : Uri} {body : Option Value} {response : Value}
  {s t : State}

theorem run_add (hs : Sound uri s) (xs : List (Assertion x)) :
    xs.foldlM (turn lib uri body response) s =
      (xs.foldlM (turn lib uri body response) .start).map s.add := by
  induction xs generalizing s with
  | nil =>
    change some s = some (s.add .start)
    rw [State.add_start]
  | cons a xs ih =>
    rw [List.foldlM_cons, List.foldlM_cons, turn_add hs]
    cases hturn : turn lib uri body response .start a with
    | none => rfl
    | some t =>
      have ht := (turn_start hturn).1
      simp only [Option.map_some, Option.bind_eq_bind, Option.bind_some]
      rw [ih (hs.add ht), ih ht, Option.map_map]
      exact congrArg (Option.map · _) (funext fun u => State.add_assoc)

theorem run_start (xs : List (Assertion x))
    (h : xs.foldlM (turn lib uri body response) .start = some s) :
    Sound uri s ∧ s.allMatched = xs.all (holds lib uri body response) ∧
      s.errors.map AssertionError.getId =
        (xs.filter fun a => !holds lib uri body response a).map Assertion.id := by
  induction xs generalizing s with
  | nil =>
    cases h
    exact ⟨sound_start, rfl, rfl⟩
  | cons a xs ih =>
    rw [List.foldlM_cons, Option.bind_eq_bind, Option.bind_eq_some_iff] at h
    obtain ⟨t, hturn, hrun⟩ := h
    obtain ⟨ht, hmatched, herrors⟩ := turn_start hturn
    rw [run_add ht, Option.map_eq_some_iff] at hrun
    obtain ⟨u, hu, rfl⟩ := hrun
    obtain ⟨husound, humatched, huerrors⟩ := ih hu
    refine ⟨ht.add husound, ?_, ?_⟩
    · rw [State.add, List.all_cons, hmatched, humatched]
    · rw [State.add, List.map_append, huerrors, List.filter_cons]
      cases hholds : holds lib uri body response a with
      | true =>
        rw [hholds, if_pos rfl] at herrors
        rw [herrors]
        rfl
      | false =>
        rw [hholds, if_neg Bool.false_ne_true] at herrors
        obtain ⟨error, hid, herrors⟩ := herrors
        rw [herrors]
        simp [hid]

theorem run_append (xs ys : List (Assertion x)) :
    (xs ++ ys).foldlM (turn lib uri body response) .start = (do
      let s ← xs.foldlM (turn lib uri body response) .start
      let t ← ys.foldlM (turn lib uri body response) .start
      some (s.add t)) := by
  rw [List.foldlM_append]
  cases hrun : xs.foldlM (turn lib uri body response) .start with
  | none => rfl
  | some s =>
    simp only [Option.bind_eq_bind, Option.bind_some]
    rw [run_add (run_start xs hrun).1]
    cases ys.foldlM (turn lib uri body response) .start <;> rfl

def errorsOf : Except (List AssertionError) Unit → List AssertionError
  | .ok () => []
  | .error errors => errors

theorem simpleAssert_eq_some {xs : List (Assertion x)} {lua : Option (List String)}
    {result : Except (List AssertionError) Unit} :
    simpleAssert lib uri body response ⟨some xs, lua⟩ = some result ↔
      ∃ s, xs.foldlM (turn lib uri body response) .start = some s ∧ s.result = result :=
  Option.map_eq_some_iff

theorem errorsOf_result (xs : List (Assertion x))
    (h : xs.foldlM (turn lib uri body response) .start = some s) :
    errorsOf s.result = s.errors := by
  obtain ⟨_, hmatched, herrors⟩ := run_start xs h
  rw [State.result]
  split
  · rename_i hall
    rw [hmatched, List.all_eq_true] at hall
    have hnone : (xs.filter fun a => !holds lib uri body response a) = [] :=
      List.filter_eq_nil_iff.mpr fun a ha => by simp [hall a ha]
    rw [hnone] at herrors
    exact (List.map_eq_nil_iff.mp herrors).symm
  · rfl

/-- Where the assertions return, they report those that do not hold, one error for each, and
do so part by part. -/
theorem simpleAssert_exact (xs : List (Assertion x)) (lua : Option (List String))
    {result : Except (List AssertionError) Unit}
    (h : simpleAssert lib uri body response ⟨some xs, lua⟩ = some result) :
    (result = .ok () ↔ ∀ a ∈ xs, holds lib uri body response a = true) ∧
    (errorsOf result).map AssertionError.getId =
      (xs.filter fun a => !holds lib uri body response a).map Assertion.id ∧
    ∀ ys zs, xs = ys ++ zs → ∃ former latter,
      simpleAssert lib uri body response ⟨some ys, lua⟩ = some former ∧
      simpleAssert lib uri body response ⟨some zs, lua⟩ = some latter ∧
      errorsOf result = errorsOf former ++ errorsOf latter := by
  obtain ⟨s, hrun, rfl⟩ := simpleAssert_eq_some.mp h
  obtain ⟨_, hmatched, herrors⟩ := run_start xs hrun
  rw [errorsOf_result xs hrun]
  refine ⟨?_, herrors, fun ys zs hxs => ?_⟩
  · rw [← List.all_eq_true, ← hmatched, State.result]
    cases s.allMatched <;> simp
  · subst hxs
    rw [run_append] at hrun
    obtain ⟨t, ht, hrun⟩ := Option.bind_eq_some_iff.mp hrun
    obtain ⟨u, hu, hrun⟩ := Option.bind_eq_some_iff.mp hrun
    cases hrun
    refine ⟨t.result, u.result, simpleAssert_eq_some.mpr ⟨t, ht, rfl⟩,
      simpleAssert_eq_some.mpr ⟨u, hu, rfl⟩, ?_⟩
    rw [errorsOf_result ys ht, errorsOf_result zs hu]
    rfl

theorem simpleAssert_exact_anything :
    simpleAssert plainLibrary anything none .null ⟨some anythingAssertions, none⟩ =
      some (.error [.failedAssert 2 "Assertion - expected: Values, actual: Value"]) ∧
    (anythingAssertions.filter fun a => !holds plainLibrary anything none .null a).map
      Assertion.id = [2] := by
  have hreturns : simpleAssert plainLibrary anything none .null ⟨some anythingAssertions, none⟩ =
      some (.error [.failedAssert 2 "Assertion - expected: Values, actual: Value"]) := rfl
  exact ⟨hreturns, (simpleAssert_exact anythingAssertions none hreturns).2.1.symm⟩

theorem turn_start_isSome {a : Assertion x} :
    (turn lib uri body response .start a).isSome ↔
      ∀ name, a.expectation = .requestQueryParam name → uri.WellFormed := by
  have hturn : (turn lib uri body response .start a).isSome ↔
      (expect lib uri body a .start).isSome := by
    rw [turn]
    cases expect lib uri body a .start with
    | none => rfl
    | some found =>
      simp only [Option.bind_eq_bind, Option.bind_some]
      split <;> rfl
  rw [hturn, Option.isSome_iff_ne_none, ne_eq, expect_start_eq_none]
  simp only [not_exists, not_and, not_not]

theorem run_isSome (xs : List (Assertion x)) :
    (xs.foldlM (turn lib uri body response) .start).isSome ↔
      ∀ a ∈ xs, (turn lib uri body response .start a).isSome := by
  induction xs with
  | nil => simp
  | cons a xs ih =>
    rw [List.foldlM_cons, List.forall_mem_cons, ← ih]
    cases hturn : turn lib uri body response .start a with
    | none => simp
    | some t => simp [run_add (turn_start hturn).1]

theorem simpleAssert_isSome (xs : List (Assertion x)) (lua : Option (List String)) :
    (simpleAssert lib uri body response ⟨some xs, lua⟩).isSome ↔
      ((∃ a ∈ xs, ∃ name, a.expectation = .requestQueryParam name) → uri.WellFormed) := by
  rw [simpleAssert, Option.isSome_map, Option.getD_some, run_isSome]
  simp only [turn_start_isSome]
  constructor
  · rintro h ⟨a, ha, name, hname⟩
    exact h a ha name hname
  · exact fun h a ha name hname => h ⟨a, ha, name, hname⟩

def ExpectsLast (lib : Library x) (uri : Uri) (body : Option Value) (response : Value)
    (xs : List (Assertion x)) : Prop :=
  ∀ ys a zs s name queries value, xs = ys ++ a :: zs →
    ys.foldlM (turn lib uri body response) .start = some s →
    a.expectation = .requestQueryParam name → uri.query = some queries →
    LastOccurs queries name.toList value →
    ∃ t, expect lib uri body a s = some (some [.string (String.ofList value)], t)

theorem expectsLast_of_wellFormed (h : uri.WellFormed) (xs : List (Assertion x)) :
    ExpectsLast lib uri body response xs := by
  intro ys a zs s name queries value _ hrun hname hquery hlast
  have hs := (run_start ys hrun).1
  obtain ⟨params, hparams⟩ : ∃ params, uri.queryParams = some params :=
    Option.ne_none_iff_exists'.mp fun hnone => Uri.queryParams_eq_none.mp hnone h
  have hlookup := (Uri.lookup_queryParams hparams).trans (param_of_lastOccurs hquery hlast)
  obtain ⟨id, expectation, actual⟩ := a
  subst hname
  simp only [expect, hs.queryParams_eq, hparams, Option.bind_eq_bind, Option.bind_some, hlookup]
  exact ⟨_, rfl⟩

/-- The assertions return unless one asks for a parameter of a query that has a segment
without a `=`. -/
theorem simpleAssert_returns_iff (lib : Library x) (uri : Uri) (body : Option Value)
    (response : Value) (xs : List (Assertion x)) (lua : Option (List String)) :
    (simpleAssert lib uri body response ⟨some xs, lua⟩).isSome ∧
        ExpectsLast lib uri body response xs ↔
      ((∃ a ∈ xs, ∃ name, a.expectation = .requestQueryParam name) → uri.WellFormed) := by
  rw [simpleAssert_isSome]
  refine ⟨And.left, fun h => ⟨h, ?_⟩⟩
  intro ys a zs s name queries value hxs hrun hname
  have ha : a ∈ xs := hxs ▸ List.mem_append_right _ List.mem_cons_self
  exact expectsLast_of_wellFormed (h ⟨a, ha, name, hname⟩) xs ys a zs s name queries value hxs
    hrun hname

theorem simpleAssert_panics :
    simpleAssert plainLibrary ⟨['/'], some ['b']⟩ none .null
      ⟨some [⟨1, .requestQueryParam "b", .constant .null⟩], none⟩ = none := rfl

end Runs

end Overload.Assertion
