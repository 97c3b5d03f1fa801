import Overload.Transition

namespace Overload.Download

open Transition

abbrev Bytes := List UInt8

structure GenericError where
  errorCode : Nat
  message : String
  deriving DecidableEq, Repr

structure Response where
  status : Nat
  body : Bytes
  deriving DecidableEq, Repr

/-- The primary, with its file and the text it makes of an error. -/
structure Primary where
  content : Bytes
  toJson : GenericError → Bytes

/-- `response_file`: `opened` is what opening the file answers. -/
def Primary.responseFile (primary : Primary) (opened : Except String Unit) : Response :=
  match opened with
  | .ok _ => ⟨200, primary.content⟩
  | .error message => ⟨500, primary.toJson ⟨500, message⟩⟩

def writeAt (offset : Nat) (chunk bytes : Bytes) : Bytes :=
  (bytes ++ List.replicate (offset - bytes.length) 0).take offset ++ chunk ++
    bytes.drop (offset + chunk.length)

inductive Call
  | checking
  | creating
  | requesting
  | copying (offset : Nat) (rest : Bytes)
  | returned (result : Except String Unit)
  deriving DecidableEq, Repr

structure State where
  file : Option Bytes
  calls : List Call
  deriving DecidableEq, Repr

namespace State

variable (s : State)

def setCall (i : Nat) (call : Call) : State := { s with calls := s.calls.set i call }

def tryExists (i : Nat) (answers : Bool) : State :=
  s.setCall i (if answers && s.file.isSome then .returned (.ok ()) else .creating)

def create (i : Nat) : Except String Unit → State
  | .ok _ => { s.setCall i .requesting with file := some [] }
  | .error message => s.setCall i (.returned (.error message))

def request (i : Nat) : Except String Response → State
  | .ok resp => s.setCall i (.copying 0 resp.body)
  | .error message => s.setCall i (.returned (.error message))

def copy (i n offset : Nat) (rest : Bytes) : State :=
  { s.setCall i (.copying (offset + n) (rest.drop n)) with
    file := s.file.map (writeAt offset (rest.take n)) }

end State

inductive Action
  | prepare
  | tryExists (i : Nat) (answers : Bool)
  | create (i : Nat) (result : Except String Unit)
  -- the request fails, or the primary answers
  | request (i : Nat) (result : Except String (Except String Unit))
  | copy (i n : Nat)
  | breakOff (i : Nat) (message : String)
  | finish (i : Nat)
  deriving DecidableEq, Repr

def step (primary : Primary) (s : State) : Action → Option State
  | .prepare => some { s with calls := s.calls ++ [.checking] }
  | .tryExists i answers =>
    match s.calls[i]? with
    | some .checking => some (s.tryExists i answers)
    | _ => none
  | .create i result =>
    match s.calls[i]? with
    | some .creating => some (s.create i result)
    | _ => none
  | .request i result =>
    match s.calls[i]? with
    | some .requesting => some (s.request i (result.map primary.responseFile))
    | _ => none
  | .copy i n =>
    match s.calls[i]? with
    | some (.copying offset rest) =>
      if n ≤ rest.length then some (s.copy i n offset rest) else none
    | _ => none
  | .breakOff i message =>
    match s.calls[i]? with
    | some (.copying _ _) => some (s.setCall i (.returned (.error message)))
    | _ => none
  | .finish i =>
    match s.calls[i]? with
    | some (.copying _ []) => some (s.setCall i (.returned (.ok ())))
    | _ => none

inductive Steps (primary : Primary) (s : State) : Action → State → Prop
  | prepare : Steps primary s .prepare { s with calls := s.calls ++ [.checking] }
  | tryExists {i : Nat} {answers : Bool} (hi : s.calls[i]? = some .checking) :
    Steps primary s (.tryExists i answers) (s.tryExists i answers)
  | create {i : Nat} {result : Except String Unit} (hi : s.calls[i]? = some .creating) :
    Steps primary s (.create i result) (s.create i result)
  | request {i : Nat} {result : Except String (Except String Unit)}
    (hi : s.calls[i]? = some .requesting) :
    Steps primary s (.request i result) (s.request i (result.map primary.responseFile))
  | copy {i n offset : Nat} {rest : Bytes} (hi : s.calls[i]? = some (.copying offset rest))
    (hn : n ≤ rest.length) : Steps primary s (.copy i n) (s.copy i n offset rest)
  | breakOff {i offset : Nat} {rest : Bytes} {message : String}
    (hi : s.calls[i]? = some (.copying offset rest)) :
    Steps primary s (.breakOff i message) (s.setCall i (.returned (.error message)))
  | finish {i offset : Nat} (hi : s.calls[i]? = some (.copying offset [])) :
    Steps primary s (.finish i) (s.setCall i (.returned (.ok ())))

variable {primary : Primary} {s t : State} {a : Action} {i : Nat}

theorem Steps.of_step (h : step primary s a = some t) : Steps primary s a t := by
  cases a with
  | prepare =>
    cases h
    exact .prepare
  | copy i n =>
    simp only [step] at h
    split at h
    · split at h
      · cases h
        exact .copy ‹_› ‹_›
      · cases h
    · cases h
  | _ =>
    simp only [step] at h
    split at h
    · cases h
      constructor
      assumption
    · cases h

def ReturnsWhole (primary : Primary) (s t : State) : Prop :=
  ∀ i : Nat, t.calls[i]? = some (.returned (.ok ())) → s.calls[i]? ≠ some (.returned (.ok ())) →
    t.file = some primary.content

def Call.downloading : Call → Bool
  | .requesting => true
  | .copying _ _ => true
  | _ => false

/-- A file that has been created is filled: neither the request nor the copying fails and
the primary can open its file.  And while it is being filled, no other call looks for it
or creates it. -/
def Undisturbed (s : State) : Action → Prop
  | .tryExists _ _ => ∀ call ∈ s.calls, call.downloading = false
  | .create _ (.ok _) => ∀ call ∈ s.calls, call.downloading = false
  | .request _ result => ∃ opened, result = .ok (.ok opened)
  | .breakOff _ _ => False
  | _ => True

def Call.Written (primary : Primary) (file : Option Bytes) : Call → Prop
  | .requesting => file = some []
  | .copying offset rest => offset ≤ primary.content.length ∧
      file = some (primary.content.take offset) ∧ rest = primary.content.drop offset
  | _ => True

structure Whole (primary : Primary) (s : State) : Prop where
  alone : ∀ (i j : Nat) call call', s.calls[i]? = some call → s.calls[j]? = some call' →
    call.downloading = true → call'.downloading = true → i = j
  written : ∀ call ∈ s.calls, call.Written primary s.file
  settled : (∀ call ∈ s.calls, call.downloading = false) →
    s.file = none ∨ s.file = some primary.content

theorem writeAt_take {content : Bytes} {offset : Nat} (n : Nat) (hle : offset ≤ content.length) :
    writeAt offset ((content.drop offset).take n) (content.take offset) =
      content.take (offset + n) := by
  have hlength : (content.take offset).length = offset := List.length_take_of_le hle
  have hdrop : ∀ m, (content.take offset).drop (offset + m) = [] := by
    intro m
    rw [List.drop_eq_nil_iff, hlength]
    omega
  rw [writeAt, hlength, Nat.sub_self, List.replicate_zero, List.append_nil, hdrop,
    List.append_nil, List.take_take, Nat.min_self, List.take_add]

theorem Call.written_of_not_downloading {call : Call} {file : Option Bytes}
    (h : call.downloading = false) : call.Written primary file := by
  cases call with
  | requesting => cases h
  | copying offset rest => cases h
  | _ => trivial

theorem Call.whole_of_written {offset : Nat} {file : Option Bytes}
    (h : (copying offset []).Written primary file) : file = some primary.content := by
  obtain ⟨_, hfile, hrest⟩ := h
  rw [hfile, ← List.take_append_drop offset primary.content, ← hrest, List.append_nil,
    List.take_take, Nat.min_self]

namespace Whole

theorem start {file : Option Bytes} (h : file = none ∨ file = some primary.content) :
    Whole primary ⟨file, []⟩ where
  alone := by simp
  written := by simp
  settled := fun _ => h

theorem prepare (hs : Whole primary s) :
    Whole primary { s with calls := s.calls ++ [.checking] } where
  alone := by
    have hold : ∀ (j : Nat) call, (s.calls ++ [.checking])[j]? = some call →
        call.downloading = true → s.calls[j]? = some call := by
      intro j call hj hcall
      rcases getElem?_concat_cases hj with hj | rfl
      · exact hj
      · cases hcall
    intro i j call call' hi hj hcall hcall'
    exact hs.alone i j call call' (hold i call hi hcall) (hold j call' hj hcall') hcall hcall'
  written := by
    simpa [or_imp, forall_and, Call.Written] using hs.written
  settled := by
    simpa [or_imp, forall_and, Call.downloading] using hs.settled

theorem others (hs : Whole primary s) {call : Call} (hi : s.calls[i]? = some call)
    (hcall : call.downloading = true) :
    ∀ (j : Nat) call', j ≠ i → s.calls[j]? = some call' → call'.downloading = false := by
  intro j call' hne hj
  by_contra hcall'
  exact hne (hs.alone j i call' call hj hi (by simpa using hcall') hcall)

theorem moveAlone {old new : Call} {file : Option Bytes} (hi : s.calls[i]? = some old)
    (hothers : ∀ (j : Nat) call, j ≠ i → s.calls[j]? = some call → call.downloading = false)
    (hwritten : new.Written primary file)
    (hsettled : new.downloading = false → file = none ∨ file = some primary.content) :
    Whole primary ⟨file, s.calls.set i new⟩ where
  alone := by
    have hself : ∀ (j : Nat) call, (s.calls.set i new)[j]? = some call →
        call.downloading = true → j = i := by
      intro j call hj hcall
      rcases getElem?_set_cases hj with ⟨rfl, _⟩ | ⟨hne, hj⟩
      · rfl
      · rw [hothers j call hne hj] at hcall
        cases hcall
    intro j k call call' hj hk hcall hcall'
    rw [hself j call hj hcall, hself k call' hk hcall']
  written := by
    intro call hcall
    obtain ⟨j, hj⟩ := List.mem_iff_getElem?.mp hcall
    rcases getElem?_set_cases hj with ⟨_, rfl⟩ | ⟨hne, hj⟩
    · exact hwritten
    · exact Call.written_of_not_downloading (hothers j call hne hj)
  settled := by
    intro hquiet
    exact hsettled (hquiet new (List.mem_set (List.getElem?_eq_some_iff.mp hi).1 _))

theorem setCall (hs : Whole primary s) {old new : Call} (hi : s.calls[i]? = some old)
    (hold : old.downloading = false) (hnew : new.downloading = false) :
    Whole primary (s.setCall i new) where
  alone := by
    have hbefore : ∀ (j : Nat) call, (s.calls.set i new)[j]? = some call →
        call.downloading = true → s.calls[j]? = some call := by
      intro j call hj hcall
      rcases getElem?_set_cases hj with ⟨_, rfl⟩ | ⟨_, hj⟩
      · rw [hnew] at hcall
        cases hcall
      · exact hj
    intro j k call call' hj hk hcall hcall'
    exact hs.alone j k call call' (hbefore j call hj hcall) (hbefore k call' hk hcall') hcall hcall'
  written := by
    intro call hcall
    rcases List.mem_or_eq_of_mem_set hcall with hcall | rfl
    · exact hs.written call hcall
    · exact Call.written_of_not_downloading hnew
  settled := by
    intro hquiet
    apply hs.settled
    intro call hcall
    obtain ⟨j, hj⟩ := List.mem_iff_getElem?.mp hcall
    by_cases hji : j = i
    · subst hji
      obtain rfl := Option.some.inj (hi.symm.trans hj)
      exact hold
    · refine hquiet call (List.mem_of_getElem? (i := j) ?_)
      rw [State.setCall, List.getElem?_set_ne (Ne.symm hji)]
      exact hj

theorem step (hs : Whole primary s) (hundisturbed : Undisturbed s a)
    (h : Download.step primary s a = some t) : Whole primary t := by
  cases Steps.of_step h with
  | prepare => exact hs.prepare
  | tryExists hi =>
    refine hs.setCall hi rfl ?_
    split <;> rfl
  | @create i result hi =>
    cases result with
    | ok _ =>
      refine moveAlone hi ?_ rfl (by simp [Call.downloading])
      exact fun j call _ hj => hundisturbed call (List.mem_of_getElem? hj)
    | error message => exact hs.setCall hi rfl rfl
  | request hi =>
    obtain ⟨_, rfl⟩ := hundisturbed
    have hfile : s.file = some [] := hs.written _ (List.mem_of_getElem? hi)
    refine moveAlone hi (hs.others hi rfl) ⟨Nat.zero_le _, ?_, ?_⟩ (by simp [Call.downloading])
    · simpa using hfile
    · rfl
  | @copy i n offset rest hi hn =>
    obtain ⟨hle, hfile, rfl⟩ := hs.written _ (List.mem_of_getElem? hi)
    rw [List.length_drop] at hn
    refine moveAlone hi (hs.others hi rfl) ⟨by omega, ?_, ?_⟩ (by simp [Call.downloading])
    · rw [hfile, Option.map_some, writeAt_take n hle]
    · rw [List.drop_drop]
  | breakOff hi => exact hundisturbed.elim
  | finish hi =>
    refine moveAlone hi (hs.others hi rfl) trivial fun _ => .inr ?_
    exact Call.whole_of_written (hs.written _ (List.mem_of_getElem? hi))

theorem eq_of_returned {new : Call} {j : Nat}
    (ht : (s.calls.set i new)[j]? = some (.returned (.ok ())))
    (hs : s.calls[j]? ≠ some (.returned (.ok ()))) : new = .returned (.ok ()) := by
  rcases getElem?_set_cases ht with ⟨_, hnew⟩ | ⟨_, hold⟩
  · exact hnew.symm
  · exact absurd hold hs

theorem returnsWhole (hs : Whole primary s) (hundisturbed : Undisturbed s a)
    (h : Download.step primary s a = some t) : ReturnsWhole primary s t := by
  intro j ht hnot
  cases Steps.of_step h with
  | prepare =>
    rcases getElem?_concat_cases ht with ht | ht
    · exact absurd ht hnot
    · cases ht
  | @tryExists i answers hi =>
    have hnew := eq_of_returned ht hnot
    split at hnew
    · rename_i hthere
      simp only [Bool.and_eq_true] at hthere
      rcases hs.settled hundisturbed with hnone | hsome
      · rw [hnone] at hthere
        cases hthere.2
      · exact hsome
    · cases hnew
  | @create i result hi =>
    cases result with
    | ok _ => cases eq_of_returned ht hnot
    | error message => cases eq_of_returned ht hnot
  | request hi =>
    obtain ⟨_, rfl⟩ := hundisturbed
    cases eq_of_returned ht hnot
  | copy hi hn => cases eq_of_returned ht hnot
  | breakOff hi => exact hundisturbed.elim
  | finish hi => exact Call.whole_of_written (hs.written _ (List.mem_of_getElem? hi))

end Whole

/-- From no file or the whole one: in every interleaving in which nothing disturbs a
download, whoever returns `Ok` leaves the whole file. -/
theorem returns_whole (primary : Primary) (file : Option Bytes) (as : List Action)
    (hfile : file = none ∨ file = some primary.content)
    (hmeets : Meets (step primary) (fun _ s a => Undisturbed s a) ⟨file, []⟩ as) :
    AlongSteps (step primary) (fun s _ t => ReturnsWhole primary s t) ⟨file, []⟩ as := by
  have hwhole : Always (step primary) (fun _ s => Whole primary s) ⟨file, []⟩ as :=
    hmeets.always (.start hfile) fun _ _ _ _ hs hundisturbed h => hs.step hundisturbed h
  intro past a rest s hsplit hs t ht
  have hundisturbed := hmeets past a rest s hsplit hs
  exact (hwhole past (a :: rest) s hsplit hs).returnsWhole hundisturbed ht

instance (s : State) (a : Action) : Decidable (Undisturbed s a) := by
  unfold Undisturbed
  split
  · infer_instance
  · infer_instance
  · rename_i result
    exact match result with
      | .ok (.ok opened) => isTrue ⟨opened, rfl⟩
      | .ok (.error _) => isFalse (by simp)
      | .error _ => isFalse (by simp)
  · infer_instance
  · infer_instance

def threeBytes : Primary := ⟨[1, 2, 3], fun _ => [123, 125]⟩

def absent : State := ⟨none, []⟩

def afterwards (as : List Action) : State := (run (step threeBytes) absent as).getD absent

def downloadTwice : List Action :=
  [.prepare, .prepare, .tryExists 0 true, .create 0 (.ok ()), .request 0 (.ok (.ok ())),
    .copy 0 2, .copy 0 1, .finish 0]

theorem returns_whole_downloadTwice :
    ReturnsWhole threeBytes (afterwards downloadTwice)
      (afterwards (downloadTwice ++ [.tryExists 1 true])) ∧
    (afterwards (downloadTwice ++ [.tryExists 1 true])).calls =
      [.returned (.ok ()), .returned (.ok ())] := by
  have halong := returns_whole threeBytes none (downloadTwice ++ [.tryExists 1 true]) (.inl rfl)
    (by decide)
  exact ⟨halong downloadTwice (.tryExists 1 true) [] _ rfl (by decide) _ (by decide), by decide⟩

def createdFirst : List Action :=
  [.prepare, .prepare, .tryExists 0 true, .create 0 (.ok ())]

def requestFails : List Action := createdFirst ++ [.request 0 (.error "connection refused")]

def errorStatus : List Action :=
  createdFirst ++ [.request 0 (.ok (.error "No such file or directory (os error 2)")), .copy 0 2]

def underway : List Action := createdFirst ++ [.request 0 (.ok (.ok ())), .copy 0 2]

def brokenOff : List Action := underway ++ [.breakOff 0 "connection reset"]

theorem not_whole_of_last (as : List Action) (a : Action) (j : Nat)
    (hrun : run (step threeBytes) absent as = some (afterwards as))
    (hstep : step threeBytes (afterwards as) a = some (afterwards (as ++ [a])))
    (hok : (afterwards (as ++ [a])).calls[j]? = some (.returned (.ok ())))
    (hnot : (afterwards as).calls[j]? ≠ some (.returned (.ok ())))
    (hfile : (afterwards (as ++ [a])).file ≠ some threeBytes.content) :
    ¬ AlongSteps (step threeBytes) (fun s _ t => ReturnsWhole threeBytes s t) absent
      (as ++ [a]) :=
  not_alongSteps_of_last hrun hstep fun h => hfile (h j hok hnot)

/-- After a failed request, during a download and after one that broke off the other call
takes what is there for the file; and the text of an error is taken for it at once. -/
theorem leftover_is_ok :
    ¬ AlongSteps (step threeBytes) (fun s _ t => ReturnsWhole threeBytes s t) absent
        (requestFails ++ [.tryExists 1 true]) ∧
    ¬ AlongSteps (step threeBytes) (fun s _ t => ReturnsWhole threeBytes s t) absent
        (errorStatus ++ [.finish 0]) ∧
    ¬ AlongSteps (step threeBytes) (fun s _ t => ReturnsWhole threeBytes s t) absent
        (underway ++ [.tryExists 1 true]) ∧
    ¬ AlongSteps (step threeBytes) (fun s _ t => ReturnsWhole threeBytes s t) absent
        (brokenOff ++ [.tryExists 1 true]) ∧
    (afterwards (brokenOff ++ [.tryExists 1 true])).file = some [1, 2] ∧
    (afterwards (errorStatus ++ [.finish 0])).file = some [123, 125] := by
  refine ⟨not_whole_of_last requestFails _ 1 ?_ ?_ ?_ ?_ ?_,
    not_whole_of_last errorStatus _ 0 ?_ ?_ ?_ ?_ ?_,
    not_whole_of_last underway _ 1 ?_ ?_ ?_ ?_ ?_,
    not_whole_of_last brokenOff _ 1 ?_ ?_ ?_ ?_ ?_, ?_, ?_⟩
  all_goals decide

end Overload.Download
