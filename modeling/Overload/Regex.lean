import Mathlib.Computability.Language

open Computability

namespace Overload

inductive Regex
  | empty
  | char (accepts : Char → Bool)
  | append (r s : Regex)
  | alt (r s : Regex)
  | star (greedy : Bool) (r : Regex)
  | group (r : Regex)
  | endOfText

namespace Regex

structure Match where
  text : List Char
  groups : List (List Char)
  rest : List Char
  deriving DecidableEq, Repr

def Match.nothing (input : List Char) : Match := ⟨[], [], input⟩

def Match.followedBy (m n : Match) : Match := ⟨m.text ++ n.text, m.groups ++ n.groups, n.rest⟩

def rounds (greedy : Bool) (body : List Char → List Match) : Nat → List Char → List Match
  | 0, input => [.nothing input]
  | n + 1, input =>
    let more := ((body input).filter fun m => !m.text.isEmpty).flatMap fun m =>
      (rounds greedy body n m.rest).map m.followedBy
    if greedy then more ++ [.nothing input] else .nothing input :: more

def parses : Regex → List Char → List Match
  | empty, input => [.nothing input]
  | char accepts, c :: input => if accepts c then [⟨[c], [], input⟩] else []
  | char _, [] => []
  | append r s, input => (r.parses input).flatMap fun m => (s.parses m.rest).map m.followedBy
  | alt r s, input => r.parses input ++ s.parses input
  | star greedy r, input => rounds greedy r.parses input.length input
  | group r, input => (r.parses input).map fun m => { m with groups := m.text :: m.groups }
  | endOfText, input => if input.isEmpty then [.nothing input] else []

def just (c : Char) : Regex := char (· == c)

def opt (r : Regex) : Regex := alt r empty

def plus (greedy : Bool) (r : Regex) : Regex := append r (star greedy r)

def times (r : Regex) : Nat → Regex
  | 0 => empty
  | n + 1 => append r (r.times n)

def search (r : Regex) : List Char → Option (List Char × Match)
  | [] => (r.parses []).head?.map fun m => ([], m)
  | c :: input =>
    match (r.parses (c :: input)).head? with
    | some m => some ([], m)
    | none => (r.search input).map fun found => (c :: found.1, found.2)

def isMatch (r : Regex) (input : List Char) : Bool := (r.search input).isSome

def accepts (r : Regex) (input : List Char) : Bool :=
  (r.parses input).any fun m => m.rest.isEmpty

def pieces (r : Regex) : Nat → List Char → List (List Char × Match) × List Char
  | 0, input => ([], input)
  | n + 1, input =>
    match r.search input with
    | none => ([], input)
    | some found =>
      let following := r.pieces n found.2.rest
      (found :: following.1, following.2)

variable {r s : Regex} {input : List Char} {m : Match} {accepts : Char → Bool} {greedy : Bool}

@[simp] theorem mem_parses_empty : m ∈ empty.parses input ↔ m = .nothing input := by
  simp [parses]

@[simp] theorem mem_parses_char :
    m ∈ (char accepts).parses input ↔
      ∃ c, accepts c = true ∧ m.text = [c] ∧ m.groups = [] ∧ input = c :: m.rest := by
  cases input with
  | nil => simp [parses]
  | cons c input =>
    by_cases hc : accepts c = true
    · obtain ⟨text, groups, rest⟩ := m
      simp only [parses, hc, if_true, List.mem_singleton, Match.mk.injEq, List.cons.injEq]
      constructor
      · rintro ⟨rfl, rfl, rfl⟩
        exact ⟨c, hc, rfl, rfl, rfl, rfl⟩
      · rintro ⟨_, _, rfl, rfl, rfl, rfl⟩
        exact ⟨rfl, rfl, rfl⟩
    · simp only [parses, hc, Bool.false_eq_true, if_false, List.not_mem_nil, false_iff]
      rintro ⟨d, hd, _, _, h⟩
      obtain ⟨rfl, _⟩ := List.cons.inj h
      exact hc hd

@[simp] theorem mem_parses_append :
    m ∈ (append r s).parses input ↔
      ∃ first ∈ r.parses input, ∃ second ∈ s.parses first.rest,
        first.followedBy second = m := by
  simp [parses]

@[simp] theorem mem_parses_alt :
    m ∈ (alt r s).parses input ↔ m ∈ r.parses input ∨ m ∈ s.parses input := by
  simp [parses]

@[simp] theorem mem_parses_group :
    m ∈ (group r).parses input ↔
      ∃ inner ∈ r.parses input, { inner with groups := inner.text :: inner.groups } = m := by
  simp [parses]

@[simp] theorem mem_parses_endOfText :
    m ∈ endOfText.parses input ↔ input = [] ∧ m = .nothing [] := by
  cases input <;> simp [parses]

theorem mem_rounds_succ {body : List Char → List Match} {n : Nat} :
    m ∈ rounds greedy body (n + 1) input ↔
      m = .nothing input ∨
        ∃ first ∈ body input, first.text ≠ [] ∧
          ∃ others ∈ rounds greedy body n first.rest, first.followedBy others = m := by
  cases greedy
  · simp [rounds, and_assoc]
  · simp [rounds, and_assoc, or_comm]

theorem text_append_rest_of_rounds {body : List Char → List Match} {n : Nat}
    (hbody : ∀ input, ∀ m ∈ body input, m.text ++ m.rest = input)
    (hm : m ∈ rounds greedy body n input) : m.text ++ m.rest = input := by
  induction n generalizing input m with
  | zero =>
    obtain rfl : m = .nothing input := by simpa [rounds] using hm
    rfl
  | succ n ih =>
    obtain rfl | ⟨first, hfirst, _, others, hothers, rfl⟩ := mem_rounds_succ.mp hm
    · rfl
    · rw [Match.followedBy, List.append_assoc, ih hothers, hbody _ _ hfirst]

theorem text_append_rest (hm : m ∈ r.parses input) : m.text ++ m.rest = input := by
  induction r generalizing input m with
  | empty =>
    obtain rfl := mem_parses_empty.mp hm
    rfl
  | char accepts =>
    obtain ⟨c, _, htext, _, rfl⟩ := mem_parses_char.mp hm
    rw [htext, List.singleton_append]
  | append r s ihr ihs =>
    obtain ⟨first, hfirst, second, hsecond, rfl⟩ := mem_parses_append.mp hm
    rw [Match.followedBy, List.append_assoc, ihs hsecond, ihr hfirst]
  | alt r s ihr ihs => exact (mem_parses_alt.mp hm).elim ihr ihs
  | star greedy r ih => exact text_append_rest_of_rounds (fun _ _ => ih) hm
  | group r ih =>
    obtain ⟨inner, hinner, rfl⟩ := mem_parses_group.mp hm
    exact ih (m := inner) hinner
  | endOfText =>
    obtain ⟨rfl, rfl⟩ := mem_parses_endOfText.mp hm
    rfl

def language : Regex → Language Char
  | empty => 1
  | char accepts => {word | ∃ c, accepts c = true ∧ word = [c]}
  | append r s => r.language * s.language
  | alt r s => r.language + s.language
  | star _ r => r.language∗
  | group r => r.language
  | endOfText => 1

def Plain : Regex → Prop
  | empty | char _ => True
  | append r s | alt r s => r.Plain ∧ s.Plain
  | star _ r | group r => r.Plain
  | endOfText => False

def Within (P : Char → Prop) : Regex → Prop
  | empty | endOfText => True
  | char accepts => ∀ c, accepts c = true → P c
  | append r s | alt r s => r.Within P ∧ s.Within P
  | star _ r | group r => r.Within P

def Takes (body : List Char → List Match) (L : Language Char) : Prop :=
  ∀ input text rest, (∃ groups, ⟨text, groups, rest⟩ ∈ body input) ↔
    text ++ rest = input ∧ text ∈ L

theorem Takes.rounds {body : List Char → List Match} {L : Language Char} (hbody : Takes body L)
    {n : Nat} {text rest : List Char} (hn : input.length ≤ n) :
    (∃ groups, ⟨text, groups, rest⟩ ∈ rounds greedy body n input) ↔
      text ++ rest = input ∧ text ∈ L∗ := by
  induction n generalizing input text with
  | zero =>
    obtain rfl : input = [] := List.eq_nil_of_length_eq_zero (Nat.le_zero.mp hn)
    simp only [Regex.rounds, List.mem_singleton, Match.nothing, Match.mk.injEq,
      List.append_eq_nil_iff]
    constructor
    · rintro ⟨_, rfl, _, rfl⟩
      exact ⟨⟨rfl, rfl⟩, Language.nil_mem_kstar L⟩
    · rintro ⟨⟨rfl, rfl⟩, _⟩
      exact ⟨[], rfl, rfl, rfl⟩
  | succ n ih =>
    simp only [mem_rounds_succ]
    constructor
    · rintro ⟨groups, h | ⟨first, hfirst, hne, others, hothers, heq⟩⟩
      · obtain ⟨rfl, _, rfl⟩ := Match.mk.injEq .. ▸ h
        exact ⟨rfl, Language.nil_mem_kstar L⟩
      · obtain ⟨rfl, hL⟩ := (hbody _ _ _).mp ⟨_, hfirst⟩
        obtain ⟨rfl, _, rfl⟩ := Match.mk.injEq .. ▸ heq
        have hshort : first.rest.length ≤ n := by
          have := List.length_pos_of_ne_nil hne
          rw [List.length_append] at hn
          omega
        obtain ⟨hrest, hothers⟩ := (ih hshort).mp ⟨_, hothers⟩
        obtain ⟨words, htext, hwords⟩ := Language.mem_kstar.mp hothers
        refine ⟨by rw [List.append_assoc, hrest], first.text :: words, ?_, ?_⟩
        · rw [List.flatten_cons, htext]
        · exact List.forall_mem_cons.mpr ⟨hL, hwords⟩
    · rintro ⟨rfl, hstar⟩
      obtain ⟨words, rfl, hwords⟩ := Language.mem_kstar_iff_exists_nonempty.mp hstar
      cases words with
      | nil => exact ⟨[], .inl rfl⟩
      | cons word words =>
        -- the first word is the first round
        obtain ⟨⟨hL, hne⟩, hwords⟩ := List.forall_mem_cons.mp hwords
        have hshort : (words.flatten ++ rest).length ≤ n := by
          have := List.length_pos_of_ne_nil hne
          simp only [List.flatten_cons, List.length_append] at hn ⊢
          omega
        obtain ⟨groups, hothers⟩ := (ih hshort).mpr
          ⟨rfl, Language.join_mem_kstar fun w hw => (hwords w hw).1⟩
        obtain ⟨groups', hfirst⟩ := (hbody _ word (words.flatten ++ rest)).mpr
          ⟨(List.append_assoc ..).symm, hL⟩
        exact ⟨groups' ++ groups, .inr ⟨_, hfirst, hne, _, hothers, rfl⟩⟩

theorem takes_language (hr : r.Plain) : Takes r.parses r.language := by
  intro input text rest
  induction r generalizing input text rest with
  | empty =>
    simp only [mem_parses_empty, Match.nothing, Match.mk.injEq, language, Language.mem_one]
    constructor
    · rintro ⟨_, rfl, _, rfl⟩
      exact ⟨rfl, rfl⟩
    · rintro ⟨rfl, rfl⟩
      exact ⟨[], rfl, rfl, rfl⟩
  | char accepts =>
    simp only [mem_parses_char]
    constructor
    · rintro ⟨_, c, hc, rfl, _, rfl⟩
      exact ⟨rfl, c, hc, rfl⟩
    · rintro ⟨rfl, c, hc, rfl⟩
      exact ⟨[], c, hc, rfl, rfl, rfl⟩
  | append r s ihr ihs =>
    simp only [mem_parses_append, language, Language.mem_mul]
    constructor
    · rintro ⟨_, first, hfirst, second, hsecond, heq⟩
      obtain ⟨rfl, _, rfl⟩ := Match.mk.injEq .. ▸ heq
      obtain ⟨rfl, hword⟩ := (ihr hr.1 _ _ _).mp ⟨_, hfirst⟩
      obtain ⟨hrest, hword'⟩ := (ihs hr.2 _ _ _).mp ⟨_, hsecond⟩
      exact ⟨by rw [List.append_assoc, hrest], _, hword, _, hword', rfl⟩
    · rintro ⟨rfl, word, hword, word', hword', rfl⟩
      obtain ⟨groups', hsecond⟩ := (ihs hr.2 (word' ++ rest) word' rest).mpr ⟨rfl, hword'⟩
      obtain ⟨groups, hfirst⟩ := (ihr hr.1 (word ++ word' ++ rest) word (word' ++ rest)).mpr
        ⟨(List.append_assoc ..).symm, hword⟩
      exact ⟨groups ++ groups', _, hfirst, _, hsecond, rfl⟩
  | alt r s ihr ihs =>
    simp only [mem_parses_alt, exists_or, ihr hr.1, ihs hr.2, language, Language.mem_add]
    exact and_or_left.symm
  | star greedy r ih => exact Takes.rounds (ih hr) (Nat.le_refl _)
  | group r ih =>
    rw [language, ← ih hr]
    simp only [mem_parses_group]
    constructor
    · rintro ⟨_, inner, hinner, heq⟩
      obtain ⟨rfl, _, rfl⟩ := Match.mk.injEq .. ▸ heq
      exact ⟨_, hinner⟩
    · rintro ⟨_, hinner⟩
      exact ⟨_, _, hinner, rfl⟩
  | endOfText => exact hr.elim

theorem accepts_iff (hr : r.Plain) : r.accepts input = true ↔ input ∈ r.language := by
  rw [accepts, List.any_eq_true]
  constructor
  · rintro ⟨m, hm, hrest⟩
    obtain ⟨htext, hword⟩ := (takes_language hr _ _ _).mp ⟨m.groups, hm⟩
    rw [List.isEmpty_iff.mp hrest, List.append_nil] at htext
    rwa [htext] at hword
  · intro hword
    obtain ⟨groups, hm⟩ := (takes_language hr input input []).mpr ⟨List.append_nil _, hword⟩
    exact ⟨_, hm, rfl⟩

theorem forall_mem_of_mem_language {P : Char → Prop} (hr : r.Within P) {word : List Char}
    (hword : word ∈ r.language) : ∀ c ∈ word, P c := by
  induction r generalizing word with
  | empty | endOfText =>
    obtain rfl := (Language.mem_one word).mp hword
    exact List.forall_mem_nil P
  | char accepts =>
    obtain ⟨c, hc, rfl⟩ := hword
    exact List.forall_mem_singleton.mpr (hr c hc)
  | append r s ihr ihs =>
    obtain ⟨first, hfirst, second, hsecond, rfl⟩ := Language.mem_mul.mp hword
    exact List.forall_mem_append.mpr ⟨ihr hr.1 hfirst, ihs hr.2 hsecond⟩
  | alt r s ihr ihs =>
    exact ((Language.mem_add ..).mp hword).elim (ihr hr.1) (ihs hr.2)
  | star greedy r ih =>
    obtain ⟨words, rfl, hwords⟩ := Language.mem_kstar.mp hword
    intro c hc
    obtain ⟨word, hmem, hc⟩ := List.mem_flatten.mp hc
    exact ih hr (hwords word hmem) c hc
  | group r ih => exact ih hr hword

theorem mem_language_star_char {word : List Char} :
    word ∈ (star greedy (char accepts)).language ↔ ∀ c ∈ word, accepts c = true := by
  constructor
  · exact forall_mem_of_mem_language (r := star greedy (char accepts)) fun _ hc => hc
  · intro hall
    refine Language.mem_kstar.mpr ⟨word.map fun c => [c], ?_, ?_⟩
    · rw [← List.flatMap_def, List.flatMap_singleton']
    · simp only [List.mem_map, forall_exists_index, and_imp, forall_apply_eq_imp_iff₂]
      exact fun c hc => ⟨c, hall c hc, rfl⟩

theorem mem_language_plus_char {word : List Char} :
    word ∈ (plus greedy (char accepts)).language ↔
      word ≠ [] ∧ ∀ c ∈ word, accepts c = true := by
  rw [plus, language, Language.mem_mul]
  constructor
  · rintro ⟨_, ⟨c, hc, rfl⟩, others, hothers, rfl⟩
    exact ⟨List.cons_ne_nil _ _,
      List.forall_mem_cons.mpr ⟨hc, mem_language_star_char.mp hothers⟩⟩
  · rintro ⟨hne, hall⟩
    obtain ⟨c, others, rfl⟩ := List.exists_cons_of_ne_nil hne
    obtain ⟨hc, hothers⟩ := List.forall_mem_cons.mp hall
    exact ⟨[c], ⟨c, hc, rfl⟩, others, mem_language_star_char.mpr hothers, rfl⟩

theorem search_eq_some {found : List Char × Match} (h : r.search input = some found) :
    found.1 ++ (found.2.text ++ found.2.rest) = input ∧
      found.2 ∈ r.parses (found.2.text ++ found.2.rest) := by
  induction input generalizing found with
  | nil =>
    obtain ⟨m, hm, rfl⟩ := Option.map_eq_some_iff.mp h
    have hmem := List.mem_of_head? hm
    rw [text_append_rest hmem]
    exact ⟨rfl, hmem⟩
  | cons c input ih =>
    rw [search] at h
    split at h
    · rename_i m hm
      cases h
      have hmem := List.mem_of_head? hm
      rw [text_append_rest hmem]
      exact ⟨rfl, hmem⟩
    · obtain ⟨later, hlater, rfl⟩ := Option.map_eq_some_iff.mp h
      obtain ⟨hinput, hmem⟩ := ih hlater
      exact ⟨congrArg (c :: ·) hinput, hmem⟩

theorem search_eq_none :
    r.search input = none ↔ ∀ before rest, before ++ rest = input → r.parses rest = [] := by
  induction input with
  | nil => simp [search]
  | cons c input ih =>
    rw [search]
    split
    · rename_i m hm
      simp only [reduceCtorEq, false_iff]
      intro hnone
      rw [hnone [] (c :: input) rfl] at hm
      cases hm
    · rename_i hnone
      rw [Option.map_eq_none_iff, ih]
      constructor
      · rintro h (_ | ⟨d, before⟩) rest heq
        · rw [show rest = c :: input from heq]
          exact List.head?_eq_none_iff.mp hnone
        · exact h before rest (List.cons.inj heq).2
      · intro h before rest heq
        exact h (c :: before) rest (congrArg (c :: ·) heq)

theorem isMatch_iff :
    r.isMatch input = true ↔ ∃ before m, m ∈ r.parses (m.text ++ m.rest) ∧
      before ++ (m.text ++ m.rest) = input := by
  rw [isMatch, Option.isSome_iff_exists]
  constructor
  · rintro ⟨found, h⟩
    obtain ⟨hinput, hmem⟩ := search_eq_some h
    exact ⟨found.1, found.2, hmem, hinput⟩
  · rintro ⟨before, m, hmem, hinput⟩
    rw [← Option.isSome_iff_exists, Option.isSome_iff_ne_none]
    intro hnone
    rw [search_eq_none.mp hnone before _ hinput] at hmem
    cases hmem

theorem isMatch_append_endOfText (hr : r.Plain) :
    (append r endOfText).isMatch input = true ↔
      ∃ before, ∃ word ∈ r.language, before ++ word = input := by
  rw [isMatch_iff]
  constructor
  · rintro ⟨before, m, hm, hinput⟩
    obtain ⟨first, hfirst, second, hsecond, rfl⟩ := mem_parses_append.mp hm
    obtain ⟨hrest, rfl⟩ := mem_parses_endOfText.mp hsecond
    obtain ⟨_, hword⟩ := (takes_language hr _ _ _).mp ⟨_, hfirst⟩
    refine ⟨before, first.text, hword, ?_⟩
    simpa [Match.followedBy, Match.nothing] using hinput
  · rintro ⟨before, word, hword, rfl⟩
    obtain ⟨groups, hm⟩ := (takes_language hr word word []).mpr ⟨List.append_nil _, hword⟩
    refine ⟨before, ⟨word, groups, []⟩, ?_, by rw [List.append_nil]⟩
    rw [List.append_nil]
    exact mem_parses_append.mpr ⟨_, hm, _, mem_parses_endOfText.mpr ⟨rfl, rfl⟩,
      by simp [Match.followedBy, Match.nothing]⟩

theorem search_mem_language (hr : r.Plain) {found : List Char × Match}
    (h : r.search input = some found) : found.2.text ∈ r.language :=
  ((takes_language hr _ _ _).mp ⟨found.2.groups, (search_eq_some h).2⟩).2

theorem pieces_succ (n : Nat) :
    r.pieces (n + 1) input =
      match r.search input with
      | none => ([], input)
      | some found => (found :: (r.pieces n found.2.rest).1, (r.pieces n found.2.rest).2) := by
  rw [pieces]

theorem flatMap_pieces (n : Nat) (input : List Char) :
    (r.pieces n input).1.flatMap (fun found => found.1 ++ found.2.text) ++ (r.pieces n input).2 =
      input := by
  induction n generalizing input with
  | zero => rfl
  | succ n ih =>
    rw [pieces_succ]
    split
    · rfl
    · rename_i found hfound
      rw [List.flatMap_cons, List.append_assoc, ih, List.append_assoc]
      exact (search_eq_some hfound).1

theorem mem_language_of_mem_pieces (hr : r.Plain) {n : Nat} {found : List Char × Match}
    (h : found ∈ (r.pieces n input).1) : found.2.text ∈ r.language := by
  induction n generalizing input with
  | zero => cases h
  | succ n ih =>
    rw [pieces_succ] at h
    split at h
    · cases h
    · rename_i first hfirst
      rcases List.mem_cons.mp h with rfl | h
      · exact search_mem_language hr hfirst
      · exact ih h

end Regex
end Overload
