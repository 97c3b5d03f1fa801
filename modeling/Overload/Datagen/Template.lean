import Mathlib.Algebra.Order.BigOperators.Group.List
import Mathlib.Algebra.Order.Group.Nat
import Overload.Json.Pointer
import Overload.Regex

namespace Overload.Datagen

open Json (Value)
open Json.Pointer (Plain child flatMap_pieces_of_plain parseIndex_toString pieces setAt setChild
  text toString_injective tokens? tokens?_text valueAt valueAt_setAt_ne_null weight weight_cons
  weight_flatMap_pieces_lt)

def patternFunction : Regex :=
  .append (.just '{') (.append (.just '{')
    (.append (.group (.plus false (.char (· != '\n')))) (.append (.just '}') (.just '}'))))

def capturedExpression (target : String) : Option String :=
  (patternFunction.search target.toList).bind fun found =>
    found.2.groups.head?.map String.ofList

section Parse

variable {Ast : Type} (compile : String → Ast)

/-- An expression that the engine does not compile gives way to its error, as a string; that this
compiles is unwrapped, and `none` is the panic. -/
def compileOrMessage (engine : String → Except String Ast) (expr : String) : Option Ast :=
  match engine expr with
  | .ok ast => some ast
  | .error e => (engine ("`" ++ e ++ "`")).toOption

def findPatternAndCompile (target : String) : Option Ast :=
  (capturedExpression target).map compile

mutual

def parseTemplatesInner :
    Value → String → Std.TreeMap String Ast → Std.TreeMap String Ast
  | .null, _, templates => templates
  | .bool _, _, templates => templates
  | .number _, _, templates => templates
  | .string s, path, templates =>
    match findPatternAndCompile compile s with
    | some ast => templates.insert path ast
    | none => templates
  | .array vals, path, templates => parseElems 0 vals path templates
  | .object vals, path, templates => parseMembers vals path templates

def parseElems :
    Nat → List Value → String → Std.TreeMap String Ast → Std.TreeMap String Ast
  | _, [], _, templates => templates
  | pos, val :: vals, path, templates =>
    parseElems (pos + 1) vals path
      (parseTemplatesInner val (path ++ "/" ++ toString pos) templates)

def parseMembers :
    List (String × Value) → String → Std.TreeMap String Ast → Std.TreeMap String Ast
  | [], _, templates => templates
  | (key, val) :: vals, path, templates =>
    parseMembers vals path (parseTemplatesInner val (path ++ "/" ++ key) templates)

end

def parseTemplates (json : Value) : Std.TreeMap String Ast :=
  parseTemplatesInner compile json "" ∅

def unwrapTemplates (templates : Std.TreeMap String (Option Ast)) :
    Option (Std.TreeMap String Ast) :=
  if templates.toList.all fun entry => entry.2.isSome then
    some (templates.filterMap fun _ ast => ast)
  else none

end Parse

theorem toList_unwrapTemplates {Ast : Type} {templates : Std.TreeMap String (Option Ast)}
    {unwrapped : Std.TreeMap String Ast} (h : unwrapTemplates templates = some unwrapped) :
    templates.toList = unwrapped.toList.map fun entry => (entry.1, some entry.2) := by
  unfold unwrapTemplates at h
  split at h
  · rename_i hall
    cases h
    rw [Std.TreeMap.toList_filterMap]
    rw [List.all_eq_true] at hall
    generalize templates.toList = entries at hall ⊢
    induction entries with
    | nil => rfl
    | cons entry entries ih =>
      obtain ⟨hentry, hentries⟩ := List.forall_mem_cons.mp hall
      obtain ⟨ast, hast⟩ := Option.isSome_iff_exists.mp hentry
      rw [List.filterMap_cons, hast, Option.map_some, List.map_cons, ← ih hentries, ← hast]
  · cases h

theorem groups_of_mem_patternFunction {input : List Char} {m : Regex.Match}
    (h : m ∈ patternFunction.parses input) : m.groups ≠ [] := by
  simp only [patternFunction, Regex.mem_parses_append, Regex.mem_parses_group] at h
  obtain ⟨_, _, _, ⟨_, _, _, ⟨_, ⟨_, _, rfl⟩, _, _, rfl⟩, rfl⟩, rfl⟩ := h
  simp [Regex.Match.followedBy]

theorem isSome_capturedExpression (target : String) :
    (capturedExpression target).isSome = patternFunction.isMatch target.toList := by
  rw [capturedExpression, Regex.isMatch]
  cases hsearch : patternFunction.search target.toList with
  | none => rfl
  | some found =>
    have hgroups := groups_of_mem_patternFunction (Regex.search_eq_some hsearch).2
    simpa using hgroups

theorem parseTemplates_string {Ast : Type} (compile : String → Ast) (s : String) :
    (parseTemplates compile (.string s)).toList =
      ((capturedExpression s).map fun e => ("", compile e)).toList := by
  simp only [parseTemplates, parseTemplatesInner, findPatternAndCompile]
  cases capturedExpression s with
  | none => rfl
  | some e => rfl

/-- The map's entries are met in an order that the map does not fix. -/
def populateData {Ast : Type} (eval : Ast → Value) (entries : List (String × Ast))
    (json : Value) : Value :=
  entries.foldl (fun json entry => (Json.Pointer.set json entry.1 (eval entry.2)).getD json) json

@[simp] theorem populateData_cons {Ast : Type} (eval : Ast → Value) (entry : String × Ast)
    (entries : List (String × Ast)) (json : Value) :
    populateData eval (entry :: entries) json =
      populateData eval entries
        ((Json.Pointer.set json entry.1 (eval entry.2)).getD json) := rfl

mutual

def replaceStrings : Value → (List String → String → Value) → Value
  | .null, _ => .null
  | .bool b, _ => .bool b
  | .number n, _ => .number n
  | .string s, f => f [] s
  | .array elems, f => .array (replaceElems 0 elems f)
  | .object members, f => .object (replaceMembers members f)

def replaceElems : Nat → List Value → (List String → String → Value) → List Value
  | _, [], _ => []
  | pos, v :: vs, f =>
    replaceStrings v (fun path => f (toString pos :: path)) :: replaceElems (pos + 1) vs f

def replaceMembers :
    List (String × Value) → (List String → String → Value) → List (String × Value)
  | [], _ => []
  | (key, v) :: ms, f => (key, replaceStrings v fun path => f (key :: path)) :: replaceMembers ms f

end

/-- What population is for: each template string gives way to its expression's value. -/
def populated (value : String → Value) (json : Value) : Value :=
  replaceStrings json fun _ s => ((capturedExpression s).map value).getD (.string s)

inductive StringAt : Value → List String → String → Prop
  | here (s : String) : StringAt (.string s) [] s
  | elem {elems : List Value} {i : Nat} {v : Value} {path : List String} {s : String} :
    elems[i]? = some v → StringAt v path s → StringAt (.array elems) (toString i :: path) s
  | member {members : List (String × Value)} {key : String} {v : Value} {path : List String}
    {s : String} : (key, v) ∈ members → StringAt v path s →
    StringAt (.object members) (key :: path) s

section Replace

variable {v x : Value} {path : List String} {s : String} {f g : List String → String → Value}

theorem replaceElems_eq (pos : Nat) (elems : List Value) (f : List String → String → Value) :
    replaceElems pos elems f =
      elems.mapIdx fun i v => replaceStrings v fun path => f (toString (pos + i) :: path) := by
  induction elems generalizing pos with
  | nil => rfl
  | cons v elems ih =>
    rw [replaceElems, ih, List.mapIdx_cons]
    simp only [Nat.add_zero, Nat.add_assoc, Nat.add_comm 1]

theorem replaceMembers_eq (members : List (String × Value)) (f : List String → String → Value) :
    replaceMembers members f =
      members.map fun m => (m.1, replaceStrings m.2 fun path => f (m.1 :: path)) := by
  induction members with
  | nil => rfl
  | cons m members ih => rw [replaceMembers, ih, List.map_cons]

theorem replaceStrings_congr (h : ∀ path s, StringAt v path s → f path s = g path s) :
    replaceStrings v f = replaceStrings v g := by
  induction v using Value.inductionOn generalizing f g with
  | null | bool | number => rfl
  | string s => exact h [] s (.here s)
  | array elems ih =>
    rw [replaceStrings, replaceStrings, replaceElems_eq, replaceElems_eq]
    congr 1
    refine List.mapIdx_eq_mapIdx_iff.mpr fun i hi => ?_
    exact ih _ (List.getElem_mem hi) fun path s hs =>
      h _ s (.elem (by rw [Nat.zero_add, List.getElem?_eq_getElem hi]) hs)
  | object members ih =>
    rw [replaceStrings, replaceStrings, replaceMembers_eq, replaceMembers_eq]
    congr 1
    refine List.map_congr_left fun m hm => ?_
    rw [ih m hm fun path s hs => h _ s (.member hm hs)]

theorem replaceStrings_string (v : Value) : replaceStrings v (fun _ s => .string s) = v := by
  induction v using Value.inductionOn with
  | null | bool | number | string => rfl
  | array elems ih =>
    rw [replaceStrings, replaceElems_eq]
    congr 1
    refine List.ext_getElem (List.length_mapIdx ..) fun i _ hi => ?_
    rw [List.getElem_mapIdx]
    exact ih _ (List.getElem_mem hi)
  | object members ih =>
    rw [replaceStrings, replaceMembers_eq]
    congr 1
    refine (List.map_congr_left fun m hm => ?_).trans (List.map_id members)
    rw [ih m hm, id]

theorem child_replaceElem {elems : List Value} {i : Nat} (hi : elems[i]? = some v)
    (f : List String → String → Value) :
    child (replaceStrings (.array elems) f) (toString i) =
      some (replaceStrings v fun path => f (toString i :: path)) := by
  rw [replaceStrings, replaceElems_eq, child, parseIndex_toString, Option.bind_some,
    List.getElem?_mapIdx, hi, Option.map_some, Nat.zero_add]

theorem child_replaceMember {members : List (String × Value)} {key : String}
    (hnodup : (members.map Prod.fst).Nodup) (hmem : (key, v) ∈ members)
    (f : List String → String → Value) :
    child (replaceStrings (.object members) f) key =
      some (replaceStrings v fun path => f (key :: path)) := by
  have hkeys : ((members.map fun m =>
      (m.1, replaceStrings m.2 fun path => f (m.1 :: path))).map Prod.fst).Nodup := by
    rwa [List.map_map]
  rw [replaceStrings, replaceMembers_eq, child, Json.lookup_eq_some_iff hkeys]
  exact List.mem_map_of_mem hmem

theorem valueAt_replaceStrings (hv : v.WellFormed) (hs : StringAt v path s)
    (f : List String → String → Value) : valueAt path (replaceStrings v f) = some (f path s) := by
  induction hs generalizing f with
  | here s => rfl
  | elem hi hs ih =>
    cases hv with
    | array helems =>
      rw [valueAt, child_replaceElem hi, Option.bind_some, ih (helems _ (List.mem_of_getElem? hi))]
  | member hmem hs ih =>
    cases hv with
    | object hnodup hmembers =>
      rw [valueAt, child_replaceMember hnodup hmem, Option.bind_some, ih (hmembers _ hmem)]

theorem update_below_self (f : List String → String → Value) (key : String)
    (path : List String) (y : String → Value) :
    (fun below => Function.update f (key :: path) y (key :: below)) =
      Function.update (fun below => f (key :: below)) path y := by
  funext below
  by_cases hbelow : below = path <;> simp [hbelow]

theorem update_below_of_ne (f : List String → String → Value) {key key' : String}
    (h : key' ≠ key) (path : List String) (y : String → Value) :
    (fun below => Function.update f (key :: path) y (key' :: below)) =
      fun below => f (key' :: below) := by
  funext below
  simp [h]

theorem setAt_replaceStrings (hv : v.WellFormed) (hs : StringAt v path s)
    (f : List String → String → Value) (x : Value) :
    setAt x path (replaceStrings v f) =
      some (replaceStrings v (Function.update f path fun _ => x)) := by
  induction hs generalizing f with
  | here s => simp [setAt, replaceStrings]
  | @elem elems i v path s hi hs ih =>
    have hv : v.WellFormed := by
      cases hv with
      | array helems => exact helems _ (List.mem_of_getElem? hi)
    rw [setAt, child_replaceElem hi, Option.bind_some, ih hv, Option.map_some]
    simp only [replaceStrings, replaceElems_eq, setChild, parseIndex_toString, Nat.zero_add]
    congr 2
    refine List.ext_getElem (by simp) fun j _ hj => ?_
    rw [List.getElem_set, List.getElem_mapIdx, List.getElem_mapIdx]
    by_cases hij : i = j
    · subst hij
      rw [if_pos rfl, update_below_self, (List.getElem?_eq_some_iff.mp hi).2]
    · have hne : toString j ≠ toString i := fun h => hij (toString_injective h.symm)
      rw [if_neg hij, update_below_of_ne f hne]
  | @member members key v path s hmem hs ih =>
    obtain ⟨hnodup, hv⟩ : (members.map Prod.fst).Nodup ∧ v.WellFormed := by
      cases hv with
      | object hnodup hmembers => exact ⟨hnodup, hmembers _ hmem⟩
    rw [setAt, child_replaceMember hnodup hmem, Option.bind_some, ih hv, Option.map_some]
    simp only [replaceStrings, replaceMembers_eq, setChild, List.map_map]
    congr 2
    refine List.map_congr_left fun m hm => ?_
    by_cases hkey : m.1 = key
    · obtain rfl : m = (key, v) := List.inj_on_of_nodup_map hnodup hm hmem hkey
      simp [update_below_self]
    · simp [hkey]

end Replace

section Templates

variable {Ast : Type} {compile : String → Ast} {v : Value} {path : List String}
  {s t : String} {ast : Ast} {found found' : String → Ast → Prop}
  {m m' m'' : Std.TreeMap String Ast}

def TemplateAt (v : Value) (path : List String) (s : String) : Prop :=
  StringAt v path s ∧ (capturedExpression s).isSome

structure Adds (found : String → Ast → Prop) (m m' : Std.TreeMap String Ast) : Prop where
  sound : ∀ t ast, m'[t]? = some ast → m[t]? = some ast ∨ found t ast
  kept : ∀ t, t ∈ m → t ∈ m'
  covers : ∀ t ast, found t ast → t ∈ m'

theorem Adds.mono (h : Adds found m m') (hsound : ∀ t ast, found t ast → found' t ast)
    (hcovers : ∀ t ast, found' t ast → found t ast) : Adds found' m m' where
  sound t ast ht := (h.sound t ast ht).imp_right (hsound t ast)
  kept := h.kept
  covers t ast ht := h.covers t ast (hcovers t ast ht)

theorem Adds.nothing (m : Std.TreeMap String Ast) : Adds (fun _ _ => False) m m where
  sound _ _ ht := .inl ht
  kept _ ht := ht
  covers _ _ hf := hf.elim

theorem Adds.insert (m : Std.TreeMap String Ast) (t : String) (ast : Ast) :
    Adds (fun t' ast' => t' = t ∧ ast' = ast) m (m.insert t ast) where
  sound t' ast' ht := by
    rw [Std.TreeMap.getElem?_insert] at ht
    split at ht
    · cases ht
      exact .inr ⟨(Std.LawfulEqCmp.eq_of_compare ‹_›).symm, rfl⟩
    · exact .inl ht
  kept t' ht := Std.TreeMap.mem_insert.mpr (.inr ht)
  covers t' ast' h := by
    rw [h.1]
    exact Std.TreeMap.mem_insert_self

theorem Adds.foldl {ι : Type} {step : Std.TreeMap String Ast → ι → Std.TreeMap String Ast}
    {found : ι → String → Ast → Prop} {l : List ι}
    (h : ∀ x ∈ l, ∀ m, Adds (found x) m (step m x)) (m : Std.TreeMap String Ast) :
    Adds (fun t ast => ∃ x ∈ l, found x t ast) m (l.foldl step m) := by
  induction l generalizing m with
  | nil => exact (Adds.nothing m).mono (fun _ _ hf => hf.elim) (by simp)
  | cons x l ih =>
    have hx := h x List.mem_cons_self m
    have hl := ih (fun y hy => h y (List.mem_cons_of_mem _ hy)) (step m x)
    refine ⟨fun t ast ht => ?_, fun t ht => hl.kept t (hx.kept t ht), ?_⟩
    · rcases hl.sound t ast ht with ht | ⟨y, hy, ht⟩
      · exact (hx.sound t ast ht).imp_right fun ht => ⟨x, List.mem_cons_self, ht⟩
      · exact .inr ⟨y, List.mem_cons_of_mem _ hy, ht⟩
    · rintro t ast ⟨y, hy, ht⟩
      rcases List.mem_cons.mp hy with rfl | hy
      · exact hl.kept t (hx.covers t ast ht)
      · exact hl.covers t ast ⟨y, hy, ht⟩

theorem parseElems_eq (pos : Nat) (vals : List Value) (base : String)
    (m : Std.TreeMap String Ast) :
    parseElems compile pos vals base m =
      (vals.zipIdx pos).foldl
        (fun m x => parseTemplatesInner compile x.1 (base ++ "/" ++ toString x.2) m) m := by
  induction vals generalizing pos m with
  | nil => rfl
  | cons val vals ih => rw [parseElems, ih, List.zipIdx_cons, List.foldl_cons]

theorem parseMembers_eq (vals : List (String × Value)) (base : String)
    (m : Std.TreeMap String Ast) :
    parseMembers compile vals base m =
      vals.foldl (fun m x => parseTemplatesInner compile x.2 (base ++ "/" ++ x.1) m) m := by
  induction vals generalizing m with
  | nil => rfl
  | cons val vals ih => rw [parseMembers, ih, List.foldl_cons]

def Found (compile : String → Ast) (v : Value) (base t : String) (ast : Ast) : Prop :=
  ∃ path s, StringAt v path s ∧ t = base ++ text path ∧ findPatternAndCompile compile s = some ast

theorem parseTemplatesInner_adds (compile : String → Ast) (v : Value) (base : String)
    (m : Std.TreeMap String Ast) :
    Adds (Found compile v base) m (parseTemplatesInner compile v base m) := by
  induction v using Value.inductionOn generalizing base m with
  | null | bool | number =>
    refine (Adds.nothing m).mono (fun _ _ hf => hf.elim) ?_
    rintro t ast ⟨path, s, hs, _⟩
    cases hs
  | string s =>
    rw [parseTemplatesInner]
    cases hs : findPatternAndCompile compile s with
    | none =>
      refine (Adds.nothing m).mono (fun _ _ hf => hf.elim) ?_
      rintro t ast ⟨path, s', hs', _, hast⟩
      cases hs'
      rw [hs] at hast
      cases hast
    | some ast =>
      refine (Adds.insert m base ast).mono ?_ ?_
      · rintro t ast ⟨rfl, rfl⟩
        exact ⟨[], s, .here s, by simp [text], hs⟩
      · rintro t ast' ⟨path, s', hs', rfl, hast⟩
        cases hs'
        rw [hs] at hast
        exact ⟨by simp [text], (Option.some.inj hast).symm⟩
  | array elems ih =>
    rw [parseTemplatesInner, parseElems_eq]
    refine (Adds.foldl (fun x hx m => ih x.1 (List.fst_mem_of_mem_zipIdx hx) _ m) m).mono ?_ ?_
    · rintro t ast ⟨⟨w, i⟩, hx, path, s, hs, rfl, hast⟩
      exact ⟨toString i :: path, s, .elem (List.mk_mem_zipIdx_iff_getElem?.mp hx) hs,
        by simp [text, String.append_assoc], hast⟩
    · rintro t ast ⟨path, s, hs, rfl, hast⟩
      cases hs with
      | elem hi hs =>
        exact ⟨_, List.mk_mem_zipIdx_iff_getElem?.mpr hi, _, s, hs,
          by simp [text, String.append_assoc], hast⟩
  | object members ih =>
    rw [parseTemplatesInner, parseMembers_eq]
    refine (Adds.foldl (fun x hx m => ih x hx _ m) m).mono ?_ ?_
    · rintro t ast ⟨x, hx, path, s, hs, rfl, hast⟩
      exact ⟨x.1 :: path, s, .member hx hs, by simp [text, String.append_assoc], hast⟩
    · rintro t ast ⟨path, s, hs, rfl, hast⟩
      cases hs with
      | member hmem hs =>
        exact ⟨_, hmem, _, s, hs, by simp [text, String.append_assoc], hast⟩

theorem findPatternAndCompile_eq_some :
    findPatternAndCompile compile s = some ast ↔
      ∃ e, capturedExpression s = some e ∧ compile e = ast :=
  Option.map_eq_some_iff

def FromTemplate (compile : String → Ast) (v : Value) (entry : String × Ast) : Prop :=
  ∃ path s e, StringAt v path s ∧ capturedExpression s = some e ∧ entry.1 = text path ∧
    entry.2 = compile e

theorem fromTemplate_of_mem {entries : List (String × Ast)}
    (hentries : entries.Perm (parseTemplates compile v).toList) {entry : String × Ast}
    (h : entry ∈ entries) : FromTemplate compile v entry := by
  obtain ⟨t, ast⟩ := entry
  have hget := Std.TreeMap.mem_toList_iff_getElem?_eq_some.mp (hentries.mem_iff.mp h)
  rcases (parseTemplatesInner_adds compile v "" ∅).sound t ast hget with hnone | hfound
  · simp at hnone
  · obtain ⟨path, s, hs, ht, hast⟩ := hfound
    obtain ⟨e, he, rfl⟩ := findPatternAndCompile_eq_some.mp hast
    exact ⟨path, s, e, hs, he, by simpa using ht, rfl⟩

theorem text_mem_of_templateAt {entries : List (String × Ast)}
    (hentries : entries.Perm (parseTemplates compile v).toList) (h : TemplateAt v path s) :
    text path ∈ entries.map Prod.fst := by
  obtain ⟨e, he⟩ := Option.isSome_iff_exists.mp h.2
  have hmem : text path ∈ parseTemplates compile v :=
    (parseTemplatesInner_adds compile v "" ∅).covers (text path) (compile e)
      ⟨path, s, h.1, by simp, findPatternAndCompile_eq_some.mpr ⟨e, he, rfl⟩⟩
  obtain ⟨ast, hast⟩ := Option.isSome_iff_exists.mp (Std.TreeMap.mem_iff_isSome_getElem?.mp hmem)
  exact List.mem_map_of_mem
    (hentries.mem_iff.mpr (Std.TreeMap.mem_toList_iff_getElem?_eq_some.mpr hast))

end Templates

section Populate

variable {Ast : Type} {compile : String → Ast} {eval : Ast → Value} {v : Value}
  {entries : List (String × Ast)}

/-- No key on the way to a template reads as anything but itself in a pointer. -/
def PlainTemplates (v : Value) : Prop :=
  ∀ path s, TemplateAt v path s → ∀ key ∈ path, Plain key

theorem set_text (v x : Value) (path : List String) :
    Json.Pointer.set v (text path) x = setAt x (path.flatMap pieces) v := by
  rw [Json.Pointer.set, tokens?_text, Option.bind_some]

theorem text_inj_of_plain {path path' : List String} (h : ∀ key ∈ path, Plain key)
    (h' : ∀ key ∈ path', Plain key) (heq : text path = text path') : path = path' := by
  have htokens := (tokens?_text path).symm.trans (heq ▸ tokens?_text path')
  rwa [flatMap_pieces_of_plain h, flatMap_pieces_of_plain h', Option.some.injEq] at htokens

theorem StringAt.unique (hv : v.WellFormed) {path : List String} {s s' : String}
    (hs : StringAt v path s) (hs' : StringAt v path s') : s = s' := by
  have h := valueAt_replaceStrings hv hs fun _ s => .string s
  rw [valueAt_replaceStrings hv hs'] at h
  injection h with h
  injection h with h
  exact h.symm

def told (value : String → Value) (done : List String) (path : List String) (s : String) : Value :=
  if text path ∈ done then ((capturedExpression s).map value).getD (.string s) else .string s

theorem replaceStrings_told_append (hv : v.WellFormed) (hplain : PlainTemplates v)
    {path : List String} {s e : String} (hs : StringAt v path s)
    (he : capturedExpression s = some e) (value : String → Value) (done : List String) :
    replaceStrings v (told value (done ++ [text path])) =
      replaceStrings v (Function.update (told value done) path fun _ => value e) := by
  refine replaceStrings_congr fun path' s' hs' => ?_
  by_cases hpath : path' = path
  · subst hpath
    obtain rfl := hs.unique hv hs'
    simp [told, he]
  · rw [Function.update_of_ne hpath]
    cases he' : capturedExpression s' with
    | none => simp [told, he']
    | some e' =>
      have htext : text path' ≠ text path := fun h => hpath <|
        text_inj_of_plain (hplain path' s' ⟨hs', by simp [he']⟩)
          (hplain path s ⟨hs, by simp [he]⟩) h
      simp [told, htext]

theorem populateData_told (hv : v.WellFormed) (hplain : PlainTemplates v)
    (h : ∀ entry ∈ entries, FromTemplate compile v entry) (eval : Ast → Value)
    (done : List String) :
    populateData eval entries (replaceStrings v (told (fun e => eval (compile e)) done)) =
      replaceStrings v (told (fun e => eval (compile e)) (done ++ entries.map Prod.fst)) := by
  induction entries generalizing done with
  | nil => simp [populateData]
  | cons entry entries ih =>
    obtain ⟨path, s, e, hs, he, ht, hast⟩ := h entry List.mem_cons_self
    have hset : Json.Pointer.set (replaceStrings v (told (fun e => eval (compile e)) done))
        entry.1 (eval entry.2) =
          some (replaceStrings v (told (fun e => eval (compile e)) (done ++ [text path]))) := by
      rw [ht, hast, set_text, flatMap_pieces_of_plain (hplain path s ⟨hs, by simp [he]⟩),
        setAt_replaceStrings hv hs, replaceStrings_told_append hv hplain hs he]
    rw [populateData_cons, hset, Option.getD_some,
      ih fun entry hentry => h entry (List.mem_cons_of_mem _ hentry)]
    rw [List.map_cons, ht, List.append_assoc, List.singleton_append]

theorem populateData_of_plain (hv : v.WellFormed) (hplain : PlainTemplates v)
    (hentries : entries.Perm (parseTemplates compile v).toList) :
    populateData eval entries v = populated (fun e => eval (compile e)) v := by
  have htold := populateData_told hv hplain (fun entry => fromTemplate_of_mem hentries) eval []
  have hnone : replaceStrings v (told (fun e => eval (compile e)) []) = v :=
    (replaceStrings_congr fun _ _ _ => by simp [told]).trans (replaceStrings_string v)
  rw [hnone, List.nil_append] at htold
  refine htold.trans (replaceStrings_congr fun path s hs => ?_)
  cases he : capturedExpression s with
  | none => simp [told, he]
  | some e =>
    have hmem := text_mem_of_templateAt hentries ⟨hs, Option.isSome_iff_exists.mpr ⟨e, he⟩⟩
    simp only [told, hmem, if_true, he]

theorem weight_le_text (path : List String) : weight path ≤ 2 * (text path).length := by
  induction path with
  | nil => rfl
  | cons key path ih =>
    rw [weight_cons, text, String.length_append, String.length_append,
      show "/".length = 1 from rfl]
    omega

theorem exists_heaviest (compile : String → Ast) {path : List String} {s key : String}
    (h : TemplateAt v path s) (hkey : key ∈ path) (hplain : ¬ Plain key) :
    ∃ path s, TemplateAt v path s ∧ (∃ key ∈ path, ¬ Plain key) ∧
      ∀ path' s', TemplateAt v path' s' → (∃ key ∈ path', ¬ Plain key) →
        weight path' ≤ weight path := by
  obtain ⟨bound, hbound⟩ : ∃ bound, ∀ path s, TemplateAt v path s → weight path ≤ bound := by
    refine ⟨2 * ((parseTemplates compile v).keys.map String.length).sum, fun path s h => ?_⟩
    have hmem := text_mem_of_templateAt (List.Perm.refl (parseTemplates compile v).toList) h
    rw [Std.TreeMap.map_fst_toList_eq_keys] at hmem
    have hlength : (text path).length ∈ (parseTemplates compile v).keys.map String.length :=
      List.mem_map_of_mem hmem
    exact (weight_le_text path).trans (Nat.mul_le_mul_left 2 (List.le_sum_of_mem hlength))
  let bad : Set (List String) := {path | (∃ s, TemplateAt v path s) ∧ ∃ key ∈ path, ¬ Plain key}
  obtain ⟨top, ⟨⟨s, htop⟩, hbad⟩, hmin⟩ :=
    (measure fun path => bound - weight path).wf.has_min bad ⟨path, ⟨s, h⟩, key, hkey, hplain⟩
  refine ⟨top, s, htop, hbad, fun path' s' h' hbad' => ?_⟩
  have hle : ¬ bound - weight path' < bound - weight top := hmin path' ⟨⟨s', h'⟩, hbad'⟩
  have := hbound path' s' h'
  omega

theorem valueAt_populateData_ne_null {top : List String}
    (haway : ∀ entry ∈ entries, ∃ path : List String,
      entry.1 = text path ∧ path.flatMap pieces ≠ top)
    (hstart : valueAt top v ≠ some .null) :
    valueAt top (populateData (fun _ => .null) entries v) ≠ some .null := by
  induction entries generalizing v with
  | nil => exact hstart
  | cons entry entries ih =>
    rw [populateData_cons]
    refine ih (fun entry hentry => haway entry (List.mem_cons_of_mem _ hentry)) ?_
    obtain ⟨path, ht, hne⟩ := haway entry List.mem_cons_self
    rw [ht, set_text]
    cases hset : setAt .null (path.flatMap pieces) v with
    | none => exact hstart
    | some v' => exact valueAt_setAt_ne_null hset hne hstart

theorem plainTemplates_of_populated (compile : String → Ast) (hv : v.WellFormed)
    (h : populateData (fun _ => .null) (parseTemplates compile v).toList v =
      populated (fun _ => .null) v) : PlainTemplates v := by
  by_contra hnot
  simp only [PlainTemplates, not_forall] at hnot
  obtain ⟨path, s, hpath, key, hkey, hplain⟩ := hnot
  obtain ⟨top, s, ⟨hs, hexpr⟩, ⟨key, hkey, hplain⟩, hheaviest⟩ :=
    exists_heaviest compile hpath hkey hplain
  obtain ⟨e, he⟩ := Option.isSome_iff_exists.mp hexpr
  have hnull : valueAt top (populated (fun _ => .null) v) = some .null := by
    rw [populated, valueAt_replaceStrings hv hs, he, Option.map_some, Option.getD_some]
  have hstart : valueAt top v ≠ some .null := by
    rw [← replaceStrings_string v, valueAt_replaceStrings hv hs]
    exact nofun
  -- no entry is read back as this path: a plain path is not it, any other one gets lighter
  have haway : ∀ entry ∈ (parseTemplates compile v).toList, ∃ path : List String,
      entry.1 = text path ∧ path.flatMap pieces ≠ top := by
    intro entry hentry
    obtain ⟨path, s, e, hs, he, ht, _⟩ := fromTemplate_of_mem (List.Perm.refl _) hentry
    refine ⟨path, ht, fun heq => ?_⟩
    by_cases hbad : ∃ key ∈ path, ¬ Plain key
    · have hle := hheaviest path s ⟨hs, by simp [he]⟩ hbad
      obtain ⟨key, hkey, hplain⟩ := hbad
      have hlt := weight_flatMap_pieces_lt hkey hplain
      rw [heq] at hlt
      omega
    · have hall : ∀ key ∈ path, Plain key := fun key hkey => by
        by_contra hnot
        exact hbad ⟨key, hkey, hnot⟩
      rw [flatMap_pieces_of_plain hall] at heq
      exact hplain (hall key (heq ▸ hkey))
  exact valueAt_populateData_ne_null haway hstart (h ▸ hnull)

def tildeKey : Value := .object [("~", .array [.string "\x7b\x7bx\x7d\x7d"])]

theorem wellFormed_tildeKey : tildeKey.WellFormed :=
  .object (by decide) (List.forall_mem_singleton.mpr
    (.array (List.forall_mem_singleton.mpr (.string _))))

theorem plainTemplates_tildeKey : PlainTemplates tildeKey := by
  rintro path s ⟨hs, _⟩ key hkey
  cases hs with
  | member hmem hs =>
    cases List.mem_singleton.mp hmem
    cases hs with
    | elem hi hs =>
      cases List.mem_singleton.mp (List.mem_of_getElem? hi)
      cases hs
      rcases List.mem_cons.mp hkey with rfl | hkey
      · decide
      · rw [List.mem_singleton.mp hkey]
        exact Json.Pointer.plain_toString _

def slashKey : Value :=
  .object [("a", .object [("b", .bool true)]), ("a/b", .string "\x7b\x7bx\x7d\x7d")]

end Populate

end Overload.Datagen
