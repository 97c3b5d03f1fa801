import Mathlib.Data.List.Forall2
import Overload.Calls
import Overload.Request.Transport

namespace Overload.Request

open Calls (Outcome)
open Json (Value)
open Transport (plainExternals)
open Datagen (capturedExpression compileOrMessage isSome_capturedExpression parseTemplates_string)

variable {x : Externals}

/-- The scripting engine: what may come of an expression, which can depend on random numbers, and
how a result is written as JSON.  A function that an expression calls can panic, and a loop in it
need not end. -/
structure Engine (x : Externals) where
  Dynamic : Type
  evalAst : x.Ast → Outcome (Except String Dynamic) → Prop
  answers : ∀ ast, ∃ outcome, evalAst ast outcome
  toValue : Dynamic → Except String Value

namespace Engine

def evalResult (engine : Engine x) : Except String engine.Dynamic → Value
  | .error e => .string e
  | .ok v =>
    match engine.toValue v with
    | .error e => .string e
    | .ok v => v

abbrev Outcomes (engine : Engine x) := List (String × Outcome (Except String engine.Dynamic))

/-- An expression is evaluated when its path leads somewhere. -/
def populateData (engine : Engine x) : engine.Outcomes → Value → Outcome Value
  | [], json => .returned json
  | (path, outcome) :: rest, json =>
    match Json.Pointer.set json path .null with
    | none => engine.populateData rest json
    | some _ => outcome.bind fun result =>
      engine.populateData rest ((Json.Pointer.set json path (engine.evalResult result)).getD json)

def Evaluates (engine : Engine x) (templates : Std.TreeMap String x.Ast)
    (outcomes : engine.Outcomes) : Prop :=
  ∃ entries, entries.Perm templates.toList ∧
    List.Forall₂ (fun entry outcome => outcome.1 = entry.1 ∧ engine.evalAst entry.2 outcome.2)
      entries outcomes

end Engine

structure Turn (engine : Engine x) where
  url : engine.Outcomes
  body : engine.Outcomes

structure Turn.Of {engine : Engine x} (template : JsonTemplate x) (turn : Turn engine) : Prop where
  url : engine.Evaluates template.urlTemplate turn.url
  body : engine.Evaluates template.bodyTemplate turn.body

namespace JsonTemplate

def requestBody (template : JsonTemplate x) (engine : Engine x) (display : Value → String)
    (turn : Turn engine) : Outcome (Option String) :=
  match template.body with
  | .null => .returned none
  | value => (engine.populateData turn.body value).map fun value => some (display value)

def request (template : JsonTemplate x) (engine : Engine x) (display : Value → String)
    (turn : Turn engine) : Outcome HttpReq :=
  (engine.populateData turn.url template.url).bind fun url =>
    (template.requestBody engine display turn).bind fun body =>
      (Outcome.ofOption url.asStr).map fun url =>
        { id := "", method := template.method, url, body, headers := template.headers }

def requests (template : JsonTemplate x) (engine : Engine x) (display : Value → String)
    (turns : Nat → Turn engine) : Nat → Outcome (List HttpReq)
  | 0 => .returned []
  | n + 1 => (template.requests engine display turns n).bind fun requests =>
    (template.request engine display (turns n)).map fun req => requests ++ [req]

def getN (template : JsonTemplate x) (engine : Engine x) (display : Value → String)
    (turns : Nat → Turn engine) (n : Nat) : Outcome (Except String (List HttpReq)) :=
  (template.requests engine display turns n).map .ok

/-- Whatever comes of the expressions, each request that is asked for is made, with a url that
starts with a slash. -/
def Usable (template : JsonTemplate x) (engine : Engine x) (display : Value → String) : Prop :=
  ∀ (n : Nat) (turns : Nat → Turn engine), (∀ i, (turns i).Of template) →
    ∃ requests, template.getN engine display turns n = .returned (.ok requests) ∧
      requests.length = n ∧ ∀ req ∈ requests, req.url.toList.head? = some '/'

end JsonTemplate

def IsUrl (v : Value) : Prop := ∃ url, v = .string url ∧ url.toList.head? = some '/'

namespace Engine

variable {engine : Engine x} {templates : Std.TreeMap String x.Ast} {json value : Value}
  {path : String} {ast : x.Ast} {outcomes rest : engine.Outcomes}

/-- In some order of the map, and with what may come of the expressions before it, the path of an
expression leads somewhere. -/
def ComesTo (engine : Engine x) (templates : Std.TreeMap String x.Ast) (json : Value)
    (path : String) (ast : x.Ast) : Prop :=
  ∃ before outcomes after value, (before ++ (path, ast) :: after).Perm templates.toList ∧
    List.Forall₂ (fun entry outcome => outcome.1 = entry.1 ∧ engine.evalAst entry.2 outcome.2)
      before outcomes ∧
    engine.populateData outcomes json = .returned value ∧
    (Json.Pointer.set value path .null).isSome

theorem exists_outcomes (engine : Engine x) (entries : List (String × x.Ast)) :
    ∃ outcomes : engine.Outcomes, List.Forall₂
      (fun entry outcome => outcome.1 = entry.1 ∧ engine.evalAst entry.2 outcome.2)
      entries outcomes := by
  choose answer hanswer using engine.answers
  refine ⟨entries.map fun entry => (entry.1, answer entry.2), ?_⟩
  rw [List.forall₂_map_right_iff, List.forall₂_same]
  exact fun entry _ => ⟨rfl, hanswer entry.2⟩

theorem exists_evaluates (engine : Engine x) (templates : Std.TreeMap String x.Ast) :
    ∃ outcomes, engine.Evaluates templates outcomes := by
  obtain ⟨outcomes, houtcomes⟩ := engine.exists_outcomes templates.toList
  exact ⟨outcomes, _, .refl _, houtcomes⟩

theorem populateData_append (outcomes rest : engine.Outcomes) (json : Value) :
    engine.populateData (outcomes ++ rest) json =
      (engine.populateData outcomes json).bind (engine.populateData rest) := by
  induction outcomes generalizing json with
  | nil => rfl
  | cons outcome outcomes ih =>
    obtain ⟨path, outcome⟩ := outcome
    rw [List.cons_append, populateData, populateData]
    split
    · exact ih json
    · cases outcome with
      | returned result => exact ih _
      | panicked | endless => rfl

theorem populateData_returns_iff :
    (∀ outcomes, engine.Evaluates templates outcomes →
      ∃ value, engine.populateData outcomes json = .returned value) ↔
    ∀ path ast, engine.ComesTo templates json path ast →
      ∀ outcome, engine.evalAst ast outcome → ∃ result, outcome = .returned result := by
  constructor
  · rintro h path ast ⟨before, outcomes, after, value, hperm, hbefore, hvalue, hpath⟩ outcome
      houtcome
    obtain ⟨rest, hrest⟩ := engine.exists_outcomes after
    obtain ⟨last, hlast⟩ := h (outcomes ++ (path, outcome) :: rest)
      ⟨_, hperm, List.rel_append hbefore (.cons ⟨rfl, houtcome⟩ hrest)⟩
    obtain ⟨_, hset⟩ := Option.isSome_iff_exists.mp hpath
    rw [populateData_append, hvalue, Outcome.bind, populateData, hset] at hlast
    obtain ⟨result, hresult, _⟩ := Outcome.bind_eq_returned.mp hlast
    exact ⟨result, hresult⟩
  · rintro h outcomes ⟨entries, hperm, hentries⟩
    -- up to any entry of the map
    suffices hall : ∀ before after, entries = before ++ after → ∀ outcomes,
        List.Forall₂ (fun entry outcome => outcome.1 = entry.1 ∧ engine.evalAst entry.2 outcome.2)
          before outcomes → ∃ value, engine.populateData outcomes json = .returned value from
      hall entries [] (List.append_nil _).symm outcomes hentries
    intro before
    induction before using List.reverseRecOn with
    | nil =>
      rintro after - outcomes houtcomes
      cases houtcomes
      exact ⟨json, rfl⟩
    | append_singleton before entry ih =>
      rintro after rfl outcomes houtcomes
      obtain ⟨front, ⟨path, outcome⟩, rfl, hfront, rfl, houtcome⟩ :=
        Calls.forall₂_concat_left houtcomes
      obtain ⟨value, hvalue⟩ := ih ([entry] ++ after) (List.append_assoc ..) front hfront
      rw [Engine.populateData_append, hvalue, Outcome.bind, populateData]
      split
      · exact ⟨value, rfl⟩
      · rename_i hset
        rw [List.append_assoc] at hperm
        obtain ⟨result, rfl⟩ := h entry.1 entry.2
          ⟨before, front, after, value, hperm, hfront, hvalue, by rw [hset]; rfl⟩ outcome houtcome
        exact ⟨_, rfl⟩

end Engine

section Url

variable {engine : Engine x} {display : Value → String} {template : JsonTemplate x}

theorem toList_templatesOf {templates : Std.TreeMap String x.Ast} {text : String}
    (h : templatesOf x (.string text) = some templates) :
    templates.toList.map (fun entry => (entry.1, some entry.2)) =
      ((capturedExpression text).map fun e => ("", compileOrMessage x.compile e)).toList := by
  rw [← Datagen.toList_unwrapTemplates h, parseTemplates_string]

theorem toList_templatesOf_null {templates : Std.TreeMap String x.Ast}
    (h : templatesOf x .null = some templates) : templates.toList = [] :=
  List.map_eq_nil_iff.mp (Datagen.toList_unwrapTemplates h).symm

theorem evaluates_of_none {templates : Std.TreeMap String x.Ast} {text : String}
    (h : templatesOf x (.string text) = some templates) (hcaptured : capturedExpression text = none)
    {outcomes : engine.Outcomes} : engine.Evaluates templates outcomes ↔ outcomes = [] := by
  have hempty : templates.toList = [] := by simpa [hcaptured] using toList_templatesOf h
  simp [Engine.Evaluates, hempty]

theorem evaluates_of_some (engine : Engine x) {templates : Std.TreeMap String x.Ast}
    {text expression : String} (h : templatesOf x (.string text) = some templates)
    (hcaptured : capturedExpression text = some expression) :
    ∃ ast, compileOrMessage x.compile expression = some ast ∧ ∀ outcomes : engine.Outcomes,
      engine.Evaluates templates outcomes ↔
        ∃ outcome, engine.evalAst ast outcome ∧ outcomes = [("", outcome)] := by
  have htoList := toList_templatesOf h
  rw [hcaptured, Option.map_some, Option.toList_some, List.map_eq_singleton_iff] at htoList
  obtain ⟨⟨path, ast⟩, hentry, heq⟩ := htoList
  obtain ⟨rfl, hast⟩ := Prod.mk.inj heq
  refine ⟨ast, hast.symm, fun outcomes => ?_⟩
  simp only [Engine.Evaluates, hentry, List.perm_singleton]
  constructor
  · rintro ⟨_, rfl, houtcomes⟩
    obtain ⟨⟨path, outcome⟩, rest, ⟨rfl, houtcome⟩, hrest, rfl⟩ :=
      List.forall₂_cons_left_iff.mp houtcomes
    cases hrest
    exact ⟨outcome, houtcome, rfl⟩
  · rintro ⟨outcome, houtcome, rfl⟩
    exact ⟨_, rfl, .cons ⟨rfl, houtcome⟩ .nil⟩

theorem populateData_url (outcome : Outcome (Except String engine.Dynamic)) (v : Value) :
    engine.populateData [("", outcome)] v = outcome.map engine.evalResult := by
  cases outcome <;> rfl

theorem requestBody_returns_iff (display : Value → String) {turn : Turn engine}
    (hturn : turn.Of template) :
    (∃ body, template.requestBody engine display turn = .returned body) ↔
      ∃ value, engine.populateData turn.body template.body = .returned value := by
  unfold JsonTemplate.requestBody
  split
  · rename_i hnull
    obtain ⟨entries, hperm, hentries⟩ := hturn.body
    rw [toList_templatesOf_null (hnull ▸ template.compiledBody)] at hperm
    obtain rfl := hperm.eq_nil
    cases hbody : turn.body with
    | nil => exact iff_of_true ⟨none, rfl⟩ ⟨_, rfl⟩
    | cons outcome rest =>
      rw [hbody] at hentries
      cases hentries
  · simp only [Outcome.map_eq_returned]
    exact ⟨fun ⟨_, value, hvalue, _⟩ => ⟨value, hvalue⟩,
      fun ⟨value, hvalue⟩ => ⟨_, value, hvalue, rfl⟩⟩

theorem request_isUrl_iff {turn : Turn engine} (hturn : turn.Of template) :
    (∃ req, template.request engine display turn = .returned req ∧
        req.url.toList.head? = some '/') ↔
      (∃ value, engine.populateData turn.url template.url = .returned value ∧ IsUrl value) ∧
        ∃ value, engine.populateData turn.body template.body = .returned value := by
  rw [← requestBody_returns_iff display hturn]
  unfold JsonTemplate.request
  constructor
  · rintro ⟨req, hreq, hurl⟩
    obtain ⟨value, hvalue, hreq⟩ := Outcome.bind_eq_returned.mp hreq
    obtain ⟨body, hbody, hreq⟩ := Outcome.bind_eq_returned.mp hreq
    obtain ⟨url, hasStr, rfl⟩ := Outcome.map_eq_returned.mp hreq
    refine ⟨⟨value, hvalue, url, ?_, hurl⟩, body, hbody⟩
    cases value <;> cases hasStr
    rfl
  · rintro ⟨⟨value, hvalue, url, rfl, hurl⟩, body, hbody⟩
    rw [hvalue, hbody]
    exact ⟨_, rfl, hurl⟩

theorem usable_iff_turn : template.Usable engine display ↔
    ∀ turn : Turn engine, turn.Of template →
      ∃ req, template.request engine display turn = .returned req ∧
        req.url.toList.head? = some '/' := by
  constructor
  · intro h turn hturn
    obtain ⟨requests, hget, _, hurls⟩ := h 1 (fun _ => turn) (fun _ => hturn)
    obtain ⟨_, hrequests, heq⟩ := Outcome.map_eq_returned.mp hget
    cases heq
    obtain ⟨_, hnil, hrequests⟩ := Outcome.bind_eq_returned.mp hrequests
    cases hnil
    obtain ⟨req, hreq, rfl⟩ := Outcome.map_eq_returned.mp hrequests
    exact ⟨req, hreq, hurls req (by simp)⟩
  · intro h n turns hturns
    suffices hall : ∃ requests, template.requests engine display turns n = .returned requests ∧
        requests.length = n ∧ ∀ req ∈ requests, req.url.toList.head? = some '/' by
      obtain ⟨requests, hrequests, hspec⟩ := hall
      exact ⟨requests, by rw [JsonTemplate.getN, hrequests]; rfl, hspec⟩
    induction n with
    | zero => exact ⟨[], rfl, rfl, by simp⟩
    | succ n ih =>
      obtain ⟨requests, hrequests, hlength, hurls⟩ := ih
      obtain ⟨req, hreq, hurl⟩ := h (turns n) (hturns n)
      refine ⟨requests ++ [req], ?_, by simp [hlength], ?_⟩
      · rw [JsonTemplate.requests, hrequests, Outcome.bind, hreq]
        rfl
      · exact List.forall_mem_append.mpr ⟨hurls, List.forall_mem_singleton.mpr hurl⟩

end Url

theorem JsonTemplate.fields_of_tryFrom {value : JsonTemplateRequest} {template : JsonTemplate x}
    (h : JsonTemplate.tryFrom x value = some (.ok template)) :
    template.url = value.url ∧ template.body = value.body := by
  unfold JsonTemplate.tryFrom at h
  split at h
  · cases h
  · split at h
    · cases h
      exact ⟨rfl, rfl⟩
    · cases h

theorem JsonTemplate.url_text (template : JsonTemplate x) :
    ∃ text, template.url = .string text ∧
      (capturedExpression text = none → text.toList.head? = some '/') := by
  have hvalid := template.valid
  cases hurl : template.url with
  | string text =>
    refine ⟨text, rfl, fun hnone => ?_⟩
    have hmatch := isSome_capturedExpression text
    rw [hnone, Option.isSome_none] at hmatch
    rw [hurl, validateUrlJsonVal, ← hmatch] at hvalid
    simpa [validateUrlStr] using hvalid
  | _ => simp [hurl, validateUrlJsonVal] at hvalid

theorem JsonTemplate.url_iff (template : JsonTemplate x) (engine : Engine x) :
    (∀ outcomes, engine.Evaluates template.urlTemplate outcomes →
      ∃ value, engine.populateData outcomes template.url = .returned value ∧ IsUrl value) ↔
    ∀ text expression ast, template.url = .string text →
      capturedExpression text = some expression →
      compileOrMessage x.compile expression = some ast →
      ∀ outcome, engine.evalAst ast outcome →
        ∃ result, outcome = .returned result ∧ IsUrl (engine.evalResult result) := by
  obtain ⟨text, htext, hvalid⟩ := template.url_text
  have hcompiled : templatesOf x (.string text) = some template.urlTemplate :=
    htext ▸ template.compiledUrl
  cases hcaptured : capturedExpression text with
  | none =>
    refine iff_of_true ?_ ?_
    · intro outcomes houtcomes
      rw [(evaluates_of_none hcompiled hcaptured).mp houtcomes, htext]
      exact ⟨_, rfl, text, rfl, hvalid hcaptured⟩
    · intro text' expression ast htext' hexpression
      cases htext.symm.trans htext'
      cases hcaptured.symm.trans hexpression
  | some expression =>
    obtain ⟨ast, hast, hevaluates⟩ := evaluates_of_some engine hcompiled hcaptured
    constructor
    · intro h text' expression' ast' htext' hexpression hast' outcome houtcome
      cases htext.symm.trans htext'
      cases hcaptured.symm.trans hexpression
      cases hast.symm.trans hast'
      obtain ⟨value, hvalue, hurl⟩ := h _ ((hevaluates _).mpr ⟨outcome, houtcome, rfl⟩)
      rw [populateData_url] at hvalue
      obtain ⟨result, rfl, rfl⟩ := Outcome.map_eq_returned.mp hvalue
      exact ⟨result, rfl, hurl⟩
    · intro h outcomes houtcomes
      obtain ⟨outcome, houtcome, rfl⟩ := (hevaluates _).mp houtcomes
      obtain ⟨result, rfl, hurl⟩ := h text expression ast htext hcaptured hast outcome houtcome
      exact ⟨_, populateData_url _ _, hurl⟩

/-- An accepted request is usable exactly if its url is no template, or the url's expression always
comes back with a string that starts with a slash, and each expression of its body that is come to
always comes back. -/
theorem JsonTemplate.usable_iff {value : JsonTemplateRequest} {template : JsonTemplate x}
    (h : JsonTemplate.tryFrom x value = some (.ok template)) (engine : Engine x)
    (display : Value → String) :
    template.Usable engine display ↔
      (∀ text expression ast, value.url = .string text →
        capturedExpression text = some expression →
        compileOrMessage x.compile expression = some ast →
        ∀ outcome, engine.evalAst ast outcome →
          ∃ result, outcome = .returned result ∧ IsUrl (engine.evalResult result)) ∧
      ∀ path ast, engine.ComesTo template.bodyTemplate value.body path ast →
        ∀ outcome, engine.evalAst ast outcome → ∃ result, outcome = .returned result := by
  obtain ⟨hurl, hbody⟩ := fields_of_tryFrom h
  rw [usable_iff_turn, ← hurl, ← hbody, ← template.url_iff, ← Engine.populateData_returns_iff]
  constructor
  · intro husable
    refine ⟨fun outcomes houtcomes => ?_, fun outcomes houtcomes => ?_⟩
    · obtain ⟨rest, hrest⟩ := engine.exists_evaluates template.bodyTemplate
      have hturn : Turn.Of template ⟨outcomes, rest⟩ := ⟨houtcomes, hrest⟩
      exact ((request_isUrl_iff hturn).mp (husable _ hturn)).1
    · obtain ⟨rest, hrest⟩ := engine.exists_evaluates template.urlTemplate
      have hturn : Turn.Of template ⟨rest, outcomes⟩ := ⟨hrest, houtcomes⟩
      exact ((request_isUrl_iff hturn).mp (husable _ hturn)).2
  · rintro ⟨hurls, hbodies⟩ turn hturn
    exact (request_isUrl_iff hturn).mpr ⟨hurls _ hturn.url, hbodies _ hturn.body⟩

def literal : String → Outcome (Except String Value)
  | "1" => .returned (.ok (.number (.posInt 1)))
  | "`a`" => .returned (.ok (.string "a"))
  | "`/a`" => .returned (.ok (.string "/a"))
  | "randomInt(5, 5)" => .panicked
  | "while true \x7b\x7d " => .endless
  | expression => .returned (.error ("Variable not found: " ++ expression))

def literalEngine : Engine plainExternals where
  Dynamic := Value
  evalAst ast outcome := outcome = literal ast
  answers ast := ⟨literal ast, rfl⟩
  toValue := .ok

def templateRequest (url : String) (body : Value) : JsonTemplateRequest where
  method := ⟨"GET", isMethod_get⟩
  url := .string url
  headers := ∅
  body

theorem usable_iff_slashLiteral :
    ∃ template,
      JsonTemplate.tryFrom plainExternals (templateRequest "\x7b\x7b`/a`\x7d\x7d" .null) =
        some (.ok template) ∧
      template.Usable literalEngine fun _ => "" := by
  have hread :
      JsonTemplate.tryFrom plainExternals (templateRequest "\x7b\x7b`/a`\x7d\x7d" .null) =
        some (.ok _) := rfl
  refine ⟨_, hread, (JsonTemplate.usable_iff hread literalEngine _).mpr ⟨?_, ?_⟩⟩
  · rintro _ expression ast ⟨⟩ hcaptured ⟨⟩ _ rfl
    obtain rfl : "`/a`" = expression := Option.some.inj hcaptured
    exact ⟨_, rfl, "/a", rfl, rfl⟩
  · rintro path ast ⟨before, _, after, _, hperm, _⟩
    exact absurd hperm.eq_nil (by simp)

def literalOutcomes : Value → literalEngine.Outcomes
  | .string text => (capturedExpression text).toList.map fun expression => ("", literal expression)
  | _ => []

theorem evaluates_literalOutcomes {text : String}
    {templates : Std.TreeMap String plainExternals.Ast}
    (h : templatesOf plainExternals (.string text) = some templates) :
    literalEngine.Evaluates templates (literalOutcomes (.string text)) := by
  rw [literalOutcomes]
  cases hcaptured : capturedExpression text with
  | none => exact (evaluates_of_none h hcaptured).mpr rfl
  | some expression =>
    obtain ⟨ast, ⟨⟩, hevaluates⟩ := evaluates_of_some literalEngine h hcaptured
    exact (hevaluates _).mpr ⟨_, rfl, rfl⟩

def answered (url : String) (body : Value) : Option (Outcome (Except String (List HttpReq))) :=
  (JsonTemplate.tryFrom plainExternals (templateRequest url body)).bind fun read =>
    read.toOption.map fun template => template.getN literalEngine (fun _ => "")
      (fun _ => ⟨literalOutcomes (.string url), literalOutcomes body⟩) 1

theorem not_usable_of_answered {url : String}
    {outcome : Outcome (Except String (List HttpReq))} (h : answered url .null = some outcome)
    (houtcome : ∀ requests, outcome = .returned (.ok requests) →
      ¬ ∀ req ∈ requests, req.url.toList.head? = some '/') :
    ∃ template, JsonTemplate.tryFrom plainExternals (templateRequest url .null) =
        some (.ok template) ∧ ¬ template.Usable literalEngine fun _ => "" := by
  obtain ⟨read, hread, h⟩ := Option.bind_eq_some_iff.mp h
  cases read with
  | error e => cases h
  | ok template =>
    cases h
    obtain ⟨hurl, hbody⟩ := JsonTemplate.fields_of_tryFrom hread
    have htext : template.url = .string url := hurl
    have hnull : template.body = .null := hbody
    have hturn : Turn.Of template ⟨literalOutcomes (.string url), literalOutcomes .null⟩ := by
      refine ⟨evaluates_literalOutcomes (htext ▸ template.compiledUrl), [], ?_, .nil⟩
      rw [toList_templatesOf_null (hnull ▸ template.compiledBody)]
    refine ⟨template, hread, fun husable => ?_⟩
    obtain ⟨requests, hget, _, hurls⟩ := husable 1 _ fun _ => hturn
    exact houtcome requests hget hurls

/-- Accepted urls: the number one ends the call with a panic, and the text `a` gives a request to a
url without a slash.  Accepted bodies: a function that panics, and a loop without end. -/
theorem literalUrls_unusable :
    (answered "\x7b\x7b1\x7d\x7d" .null = some .panicked ∧
      ∃ template,
        JsonTemplate.tryFrom plainExternals (templateRequest "\x7b\x7b1\x7d\x7d" .null) =
          some (.ok template) ∧ ¬ template.Usable literalEngine fun _ => "") ∧
    (answered "\x7b\x7b`a`\x7d\x7d" .null =
        some (.returned (.ok [⟨"", ⟨"GET", isMethod_get⟩, "a", none, ∅⟩])) ∧
      ∃ template,
        JsonTemplate.tryFrom plainExternals (templateRequest "\x7b\x7b`a`\x7d\x7d" .null) =
          some (.ok template) ∧ ¬ template.Usable literalEngine fun _ => "") ∧
    answered "/a" (.string "\x7b\x7brandomInt(5, 5)\x7d\x7d") = some .panicked ∧
    answered "/a" (.string "\x7b\x7bwhile true \x7b\x7d \x7d\x7d") = some .endless := by
  have hone : answered "\x7b\x7b1\x7d\x7d" .null = some .panicked := by rfl
  have htext : answered "\x7b\x7b`a`\x7d\x7d" .null =
      some (.returned (.ok [⟨"", ⟨"GET", isMethod_get⟩, "a", none, ∅⟩])) := by rfl
  refine ⟨⟨hone, not_usable_of_answered hone (by simp)⟩,
    ⟨htext, not_usable_of_answered htext ?_⟩, by rfl, by rfl⟩
  rintro _ ⟨⟩ hurls
  exact absurd (hurls _ (List.mem_singleton_self _)) (by decide)

end Overload.Request
