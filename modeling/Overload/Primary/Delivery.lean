import Overload.Primary.HandleRequest

namespace Overload.Primary

open Calls (Outcome)
open Split (SplitRequestFile splitRanges)

/-- The channels after the sends, the instances to report, and those whose send was
a success. -/
structure Delivery where
  senders : List Sender
  errorInstances : List String
  delivered : List String
  deriving DecidableEq, Repr

def Delivery.report (delivery : Delivery) : Except (List String) Unit :=
  if delivery.errorInstances.isEmpty then .ok () else .error delivery.errorInstances

section Model

variable (fails : String → Bool)

def deliverToInstances (msg : MessageFromPrimary) (instances : List String) :
    List Sender → Delivery
  | [] => ⟨[], [], []⟩
  | sender :: senders =>
    let rest := deliverToInstances msg instances senders
    let id := sender.instanceId
    if instances.contains id then
      if fails id then ⟨sender.send msg :: rest.senders, id :: rest.errorInstances, rest.delivered⟩
      else ⟨sender.send msg :: rest.senders, rest.errorInstances, id :: rest.delivered⟩
    else { rest with senders := sender :: rest.senders }

def deliverSplits (req : SplitRequestFile) :
    List Sender → List (Nat × Nat) → Option Delivery
  | [], _ => some ⟨[], [], []⟩
  | _ :: _, [] => none
  | sender :: senders, range :: splits => do
    let rest ← deliverSplits req senders splits
    let id := sender.instanceId
    let msg := .request (.splitRequestFile (req.cloneWithNewRange range))
    some ⟨sender.send msg :: rest.senders, id :: rest.errorInstances,
      if fails id then rest.delivered else id :: rest.delivered⟩

/-- `read` is what becomes of the call of `get_n`, and of the file in it; no file is left
when the call returns an error. -/
def deliverSplitFile (read : Outcome (Option SplitRequestFile)) (senders : List Sender) :
    Outcome Delivery :=
  match read with
  | .panicked => .panicked
  | .endless => .endless
  | .returned none => .returned ⟨senders, [], []⟩
  | .returned (some req) =>
    .ofOption ((splitRanges req.sizeHint senders.length).bind (deliverSplits fails req senders))

def deliverRequest (request : RequestSpecEnum)
    (read : SplitRequestFile → Outcome (Option SplitRequestFile))
    (instances : List String) (senders : List Sender) : Outcome Delivery :=
  match request with
  | .splitRequestFile req => deliverSplitFile fails (read req.clone) senders
  | request => .returned (deliverToInstances fails (.request request) instances senders)

end Model

section Channels

variable (fails : String → Bool)

theorem senders_deliverToInstances (msg : MessageFromPrimary) (instances : List String)
    (senders : List Sender) : (deliverToInstances fails msg instances senders).senders =
      sendToInstances msg instances senders := by
  induction senders with
  | nil => rfl
  | cons sender senders ih =>
    rw [deliverToInstances, sendToInstances, List.map_cons, ← sendToInstances, ← ih]
    split
    · split <;> rfl
    · rfl

theorem senders_deliverSplits (req : SplitRequestFile) (senders : List Sender)
    (splits : List (Nat × Nat)) : (deliverSplits fails req senders splits).map Delivery.senders =
      sendSplits req senders splits := by
  induction senders generalizing splits with
  | nil => rfl
  | cons sender senders ih =>
    cases splits with
    | nil => rfl
    | cons range splits =>
      rw [deliverSplits, sendSplits, ← ih]
      cases deliverSplits fails req senders splits <;> rfl

theorem senders_deliverRequest (job : Job) (readable : Bool) (instances : List String)
    (senders : List Sender) :
    (deliverRequest fails job.request (job.read readable) instances senders).map
        Delivery.senders =
      sendRequestToSecondary job readable instances senders := by
  have hsplit (req : SplitRequestFile) :
      (deliverSplitFile fails (job.read readable req) senders).map Delivery.senders =
        processAndSendRequest job readable req senders := by
    unfold processAndSendRequest deliverSplitFile
    cases job.read readable req with
    | panicked => rfl
    | endless => rfl
    | returned file =>
      cases file with
      | none => rfl
      | some req' =>
        simp only
        cases splitRanges req'.sizeHint senders.length with
        | none => rfl
        | some splits =>
          rw [Option.bind_some, Option.bind_some, ← senders_deliverSplits fails]
          cases deliverSplits fails req' senders splits <;> rfl
  unfold deliverRequest sendRequestToSecondary
  cases job.request with
  | splitRequestFile req => exact hsplit req.clone
  | _ => exact congrArg Outcome.returned (senders_deliverToInstances fails _ instances senders)

end Channels

def addressed (request : RequestSpecEnum) (instances : List String) (senders : List Sender) :
    List String :=
  let ids := senders.map Sender.instanceId
  match request with
  | .splitRequestFile _ => ids
  | _ => ids.filter instances.contains

/-- The call comes back, with success just if everybody addressed got the request, and
otherwise with those who did not. -/
def Exact (addressed : List String) : Outcome Delivery → Prop
  | .returned delivery =>
    (delivery.report = .ok () ↔ ∀ id ∈ addressed, id ∈ delivery.delivered) ∧
      ∀ ids, delivery.report = .error ids →
        ids = addressed.filter fun id => !delivery.delivered.contains id
  | _ => False

section Report

variable {fails : String → Bool} {ids : List String} {senders senders' : List Sender}

theorem deliverToInstances_spec (fails : String → Bool) (msg : MessageFromPrimary)
    (instances : List String) (senders : List Sender) :
    let ids := (senders.map Sender.instanceId).filter instances.contains
    (deliverToInstances fails msg instances senders).errorInstances = ids.filter fails ∧
      (deliverToInstances fails msg instances senders).delivered = ids.filter (!fails ·) := by
  induction senders with
  | nil => exact ⟨rfl, rfl⟩
  | cons sender senders ih =>
    obtain ⟨herrors, hdelivered⟩ := ih
    rw [deliverToInstances, List.map_cons, List.filter_cons]
    split
    · cases hfails : fails sender.instanceId with
      | true => simp [hfails, herrors, hdelivered]
      | false => simp [hfails, herrors, hdelivered]
    · exact ⟨herrors, hdelivered⟩

theorem deliverSplits_spec (fails : String → Bool) (req : SplitRequestFile)
    {splits : List (Nat × Nat)}
    (h : splits.length = senders.length) :
    ∃ senders', deliverSplits fails req senders splits =
      some ⟨senders', senders.map Sender.instanceId,
        (senders.map Sender.instanceId).filter (!fails ·)⟩ := by
  induction senders generalizing splits with
  | nil => exact ⟨[], rfl⟩
  | cons sender senders ih =>
    cases splits with
    | nil => cases h
    | cons range splits =>
      obtain ⟨senders', hrest⟩ := ih (Nat.succ.inj h)
      rw [deliverSplits, hrest, List.map_cons, List.filter_cons]
      cases hfails : fails sender.instanceId with
      | true => exact ⟨_, by simp [hfails]; rfl⟩
      | false => exact ⟨_, by simp [hfails]; rfl⟩

theorem report_eq_ok {delivery : Delivery} :
    delivery.report = .ok () ↔ delivery.errorInstances = [] := by
  rw [Delivery.report]
  cases delivery.errorInstances <;> simp

theorem report_eq_error {delivery : Delivery} :
    delivery.report = .error ids ↔
      delivery.errorInstances ≠ [] ∧ delivery.errorInstances = ids := by
  rw [Delivery.report]
  cases delivery.errorInstances <;> simp

theorem exact_of_failed {delivery : Delivery} (herrors : delivery.errorInstances = ids.filter fails)
    (hdelivered : delivery.delivered = ids.filter (!fails ·)) : Exact ids (.returned delivery) := by
  constructor
  · rw [report_eq_ok, herrors, hdelivered]
    simp +contextual
  · intro ids' h
    rw [← (report_eq_error.mp h).2, herrors, hdelivered]
    refine List.filter_congr fun id hid => ?_
    cases hfails : fails id <;> simp [hid, hfails]

theorem exact_of_all (hids : ids ≠ []) :
    Exact ids (.returned ⟨senders, ids, ids.filter (!fails ·)⟩) ↔
      ∀ id ∈ ids, fails id = true := by
  constructor
  · rintro ⟨_, hreport⟩ id hid
    have heq := hreport ids (report_eq_error.mpr ⟨hids, rfl⟩)
    rw [eq_comm, List.filter_eq_self] at heq
    have := heq id hid
    simpa [hid] using this
  · intro hall
    have hnone : ids.filter (!fails ·) = [] :=
      List.filter_eq_nil_iff.mpr fun id hid => by simp [hall id hid]
    rw [hnone]
    constructor
    · obtain ⟨id, rest, rfl⟩ := List.exists_cons_of_ne_nil hids
      refine iff_of_false (fun hok => hids (report_eq_ok.mp hok)) fun hgot => ?_
      cases hgot id List.mem_cons_self
    · intro ids' h
      rw [← (report_eq_error.mp h).2]
      simp

/-- When a report can be trusted: for a split file, just if nobody got a range. -/
def Trusted (fails : String → Bool) (request : RequestSpecEnum)
    (read : SplitRequestFile → Outcome (Option SplitRequestFile)) (senders : List Sender) : Prop :=
  match request with
  | .splitRequestFile req =>
    match read req.clone with
    | .returned (some _) => senders ≠ [] ∧ ∀ sender ∈ senders, fails sender.instanceId = true
    | .returned none => senders = []
    | _ => False
  | _ => True

theorem exact_deliverSplitFile (read : Outcome (Option SplitRequestFile)) :
    Exact (senders.map Sender.instanceId) (deliverSplitFile fails read senders) ↔
      match read with
      | .returned (some _) => senders ≠ [] ∧ ∀ sender ∈ senders, fails sender.instanceId = true
      | .returned none => senders = []
      | _ => False := by
  cases read with
  | panicked => rfl
  | endless => rfl
  | returned file =>
    cases file with
    | none =>
      -- success is reported, and nothing was sent
      constructor
      · rintro ⟨hreport, _⟩
        have hgot := hreport.mp rfl
        cases senders with
        | nil => rfl
        | cons sender senders => cases hgot sender.instanceId List.mem_cons_self
      · rintro rfl
        exact ⟨by simp [Delivery.report], fun _ h => by cases h⟩
    | some req =>
      by_cases hsenders : senders = []
      · subst hsenders
        -- nobody to split the file among
        exact iff_of_false id fun h => h.1 rfl
      · have hids : senders.map Sender.instanceId ≠ [] := by simpa using hsenders
        have hsplits := Split.splitRanges_eq (s := req.sizeHint) (List.length_pos_iff.mpr hsenders)
        have hlength : ((List.range senders.length).map
            (Split.block req.sizeHint senders.length)).length = senders.length := by simp
        obtain ⟨senders', hdelivery⟩ := deliverSplits_spec fails req hlength
        simp only [deliverSplitFile, hsplits, Option.bind_some, hdelivery, Outcome.ofOption]
        rw [exact_of_all hids]
        simp [hsenders]

theorem report_exact_iff (fails : String → Bool) (request : RequestSpecEnum)
    (read : SplitRequestFile → Outcome (Option SplitRequestFile)) (instances : List String)
    (senders : List Sender) :
    Exact (addressed request instances senders)
        (deliverRequest fails request read instances senders) ↔
      Trusted fails request read senders := by
  cases request with
  | splitRequestFile req => exact exact_deliverSplitFile (read req.clone)
  | _ =>
    refine iff_of_true ?_ trivial
    obtain ⟨herrors, hdelivered⟩ := deliverToInstances_spec fails _ instances senders
    exact exact_of_failed herrors hdelivered

theorem success_reported_as_failure :
    ∃ delivery, deliverRequest (fun _ => false)
        (.splitRequestFile ⟨"/data/a.sqlite", false, 0, 0, 0, 0⟩)
        (Job.read ⟨.splitRequestFile ⟨"/data/a.sqlite", false, 0, 0, 0, 0⟩, Provider.threeRows,
          fun _ => none, "primary"⟩ true)
        ["a"] [⟨"a", []⟩, ⟨"b", []⟩, ⟨"c", []⟩] = .returned delivery ∧
      delivery.delivered = ["a", "b", "c"] ∧ delivery.report = .error ["a", "b", "c"] :=
  ⟨_, rfl, rfl, rfl⟩

end Report

end Overload.Primary
