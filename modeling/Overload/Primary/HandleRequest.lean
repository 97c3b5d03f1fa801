import Overload.Cycle.Session
import Overload.Job.HandleRequest
import Overload.Primary.Shares
import Overload.Provider.Rows

/-! `handle_request` of the primary (`cluster-executor/src/primary.rs`) with its
channels to the secondaries, cut where the cluster, the split file, the channels or
`JOB_STATUS` answer.  A channel keeps every message that was tried on it. -/

namespace Overload.Primary

open Calls (Outcome)
open Transition
open Overload.Cycle (RateMessage)
open Split (SplitRequestFile splitRanges)

inductive RequestSpecEnum
  | requestList
  | requestFile
  | splitRequestFile (req : SplitRequestFile)
  | randomDataRequest
  | jsonTemplateRequest
  deriving DecidableEq, Repr

def requireReset : RequestSpecEnum → Bool
  | .splitRequestFile _ => true
  | _ => false

inductive MessageFromPrimary
  | metadata (primaryHost : String)
  | request (req : RequestSpecEnum)
  | rates (rate : RateMessage)
  | reset
  | stop
  | finished
  deriving DecidableEq, Repr

structure Sender where
  instanceId : String
  sent : List MessageFromPrimary
  deriving DecidableEq, Repr

def Sender.send (msg : MessageFromPrimary) (sender : Sender) : Sender :=
  { sender with sent := sender.sent ++ [msg] }

structure Node where
  instanceId : String
  connects : Bool
  deriving DecidableEq, Repr

def createSender (acc : List Sender × List String) (node : Node) : List Sender × List String :=
  if acc.1.any (·.instanceId == node.instanceId) || !node.connects then acc
  else (acc.1 ++ [⟨node.instanceId, []⟩], acc.2 ++ [node.instanceId])

def createSendersForClusterNodes (senders : List Sender) (secondaries : Option (List Node)) :
    List Sender × List String :=
  (secondaries.getD []).foldl createSender (senders, [])

def sendToInstances (msg : MessageFromPrimary) (instances : List String)
    (senders : List Sender) : List Sender :=
  senders.map fun sender =>
    if instances.contains sender.instanceId then sender.send msg else sender

def sendSplits (req : SplitRequestFile) :
    List Sender → List (Nat × Nat) → Option (List Sender)
  | [], _ => some []
  | _ :: _, [] => none
  | sender :: senders, range :: splits =>
    (sendSplits req senders splits).map
      (sender.send (.request (.splitRequestFile (req.cloneWithNewRange range))) :: ·)

/-- What a job is about: its request, the table in its split file, if it has one, with what is
read of the texts in its column of headers, and the host name that the secondaries are told. -/
structure Job where
  request : RequestSpecEnum
  table : Provider.Table
  parseHeaders : String → Option Request.Headers
  primaryHost : String

def Job.rows (job : Job) : Nat := job.table.size

def Job.view (job : Job) : List (Int × Option Request.HttpReq) := job.table.view job.parseHeaders

def Job.reads (job : Job) (readable : Bool) : Bool := readable && decide (1 ≤ job.rows)

/-- The call of `get_n` on the file of a job, and the file as it leaves it; none is left when the
call returns an error. -/
def Job.read (job : Job) (readable : Bool) (req : SplitRequestFile) :
    Outcome (Option SplitRequestFile) :=
  if job.reads readable then
    if req.overflows then .panicked
    else
      -- one round through the range finds its first row, or no number of turns does
      match req.getN job.view (req.width job.rows) 1 with
      | .panicked => .panicked
      | .endless => .endless
      | .returned (.error _, _) => .returned none
      | .returned (.ok _, req) => .returned (some req)
  else .returned none

def processAndSendRequest (job : Job) (readable : Bool) (req : SplitRequestFile)
    (senders : List Sender) : Outcome (List Sender) :=
  match job.read readable req with
  | .panicked => .panicked
  | .endless => .endless
  | .returned none => .returned senders
  | .returned (some req) =>
    .ofOption ((splitRanges req.sizeHint senders.length).bind (sendSplits req senders))

theorem returned_processAndSendRequest {job : Job} {readable : Bool} {req : SplitRequestFile}
    {senders senders' : List Sender}
    (h : processAndSendRequest job readable req senders = .returned senders') :
    senders' = senders ∨ ∃ file ranges, sendSplits file senders ranges = some senders' := by
  unfold processAndSendRequest at h
  split at h
  · cases h
  · cases h
  · cases h
    exact .inl rfl
  · rename_i file _
    cases hsplits : (splitRanges file.sizeHint senders.length).bind (sendSplits file senders) with
    | none =>
      rw [hsplits] at h
      cases h
    | some sent =>
      rw [hsplits] at h
      cases h
      obtain ⟨ranges, _, hsent⟩ := Option.bind_eq_some_iff.mp hsplits
      exact .inr ⟨file, ranges, hsent⟩

def sendRequestToSecondary (job : Job) (readable : Bool) (instances : List String)
    (senders : List Sender) : Outcome (List Sender) :=
  match job.request with
  | .splitRequestFile req => processAndSendRequest job readable req.clone senders
  | request => .returned (sendToInstances (.request request) instances senders)

theorem sendRequestToSecondary_split {job : Job} (h : requireReset job.request = true)
    (readable : Bool) (instances : List String) (senders : List Sender) :
    ∃ req, job.request = .splitRequestFile req ∧
      sendRequestToSecondary job readable instances senders =
        processAndSendRequest job readable req.clone senders := by
  unfold sendRequestToSecondary
  cases hreq : job.request with
  | splitRequestFile req => exact ⟨req, rfl, rfl⟩
  | _ => simp [hreq, requireReset] at h

theorem sendRequestToSecondary_other {job : Job} (h : requireReset job.request = false)
    (readable : Bool) (instances : List String) (senders : List Sender) :
    sendRequestToSecondary job readable instances senders =
      .returned (sendToInstances (.request job.request) instances senders) := by
  unfold sendRequestToSecondary
  cases hreq : job.request with
  | splitRequestFile req => simp [hreq, requireReset] at h
  | _ => rfl

def sendRates (qps connectionCount : List Nat) (senders : List Sender) : List Sender :=
  senders.mapIdx fun pos sender =>
    sender.send (.rates ⟨qps.getD pos 0, connectionCount.getD pos 0⟩)

/-- Where the job stands.  `requesting` has connected to new instances and is about to
read and send the request, before the loop or with the rates of a tick; `endless` never
comes back from reading it; `sending` is about to send these rates. -/
inductive Phase
  | submitted
  | requesting (instances : List String) (rates : Option (UInt32 × UInt32))
  | endless (rates : Option (UInt32 × UInt32))
  | running
  | refreshing (qps connectionCount : UInt32)
  | sending (qps connectionCount : UInt32)
  | leaving
  | done
  | panicked
  deriving DecidableEq, Repr

structure State where
  phase : Phase
  stream : List (UInt32 × UInt32)
  counter : Nat
  senders : List Sender
  senderDropped : Bool
  closed : List Sender
  deriving DecidableEq, Repr

def State.new (stream : List (UInt32 × UInt32)) : State where
  phase := .submitted
  stream := stream
  counter := 0
  senders := []
  senderDropped := false
  closed := []

namespace State

variable (job : Job) (s : State)

def panic : State := { s with phase := .panicked, senders := [], closed := s.closed ++ s.senders }

def connect (secondaries : Option (List Node)) : State × List String :=
  let (senders, newNodes) := createSendersForClusterNodes s.senders secondaries
  ({ s with senders := sendToInstances (.metadata job.primaryHost) newNodes senders }, newNodes)

@[simp] theorem connect_stream (secondaries : Option (List Node)) :
    (s.connect job secondaries).1.stream = s.stream := rfl

@[simp] theorem connect_senderDropped (secondaries : Option (List Node)) :
    (s.connect job secondaries).1.senderDropped = s.senderDropped := rfl

@[simp] theorem connect_closed (secondaries : Option (List Node)) :
    (s.connect job secondaries).1.closed = s.closed := rfl

def initSenders (secondaries : Option (List Node)) : State :=
  let (s, newInstances) := s.connect job secondaries
  { s with phase := .requesting newInstances none }

def reset : State := { s with senders := s.senders.map (Sender.send .reset) }

@[simp] theorem reset_stream : s.reset.stream = s.stream := rfl

@[simp] theorem reset_closed : s.reset.closed = s.closed := rfl

def refresh (secondaries : Option (List Node)) (qps connectionCount : UInt32) : State :=
  let (s, newNodes) := s.connect job secondaries
  if newNodes ≠ [] then
    let s := if requireReset job.request then s.reset else s
    { s with phase := .requesting newNodes (some (qps, connectionCount)) }
  else if requireReset job.request && s.senderDropped then
    { s.reset with
      senderDropped := false
      phase := .requesting [] (some (qps, connectionCount)) }
  else { s with phase := .sending qps connectionCount }

def sendRequest (readable : Bool) (instances : List String)
    (rates : Option (UInt32 × UInt32)) : State :=
  match sendRequestToSecondary job readable instances s.senders with
  | .panicked => s.panic
  | .endless => { s with phase := .endless rates }
  | .returned senders =>
    { s with
      senders
      phase := match rates with
        | none => .running
        | some (qps, connectionCount) => .sending qps connectionCount }

/-- `stopped` is what the look at `JOB_STATUS` would answer; only every fifth tick looks. -/
def tick (stopped : Bool) (qps connectionCount : UInt32) (stream : List (UInt32 × UInt32)) :
    State :=
  if Job.Mode.primary.polls s.counter && stopped then { s with stream, phase := .leaving }
  else { s with
    stream
    counter := Job.Mode.primary.nextCounter s.counter
    phase :=
      if s.counter = 10 then .refreshing qps connectionCount else .sending qps connectionCount }

def sendRateMessage (qps connectionCount : UInt32) (failing : List String) : State :=
  if s.senders.isEmpty then { s with phase := .running }
  else
    match calculateReqPerSecondary qps.toNat connectionCount.toNat s.senders.length with
    | none => s.panic
    | some (qpsToSecondaries, connCountToSecondaries) =>
      let senders := Primary.sendRates qpsToSecondaries connCountToSecondaries s.senders
      let failed := senders.filter fun sender => failing.contains sender.instanceId
      { s with
        phase := .running
        senders := senders.filter fun sender => !failing.contains sender.instanceId
        senderDropped := s.senderDropped || !failed.isEmpty
        closed := s.closed ++ failed }

def finish : State :=
  { s with
    phase := .done
    senders := []
    closed := s.closed ++ s.senders.map (Sender.send .finished) }

end State

inductive Action
  | initSenders (secondaries : Option (List Node))
  | tick (stopped : Bool)
  | refresh (secondaries : Option (List Node))
  | sendRequest (readable : Bool)
  | sendRates (failing : List String)
  | exhausted
  | finish
  -- nothing is known about the order in which a `HashMap` is walked through
  | rehash (senders : List Sender)
  deriving DecidableEq, Repr

def step (job : Job) (s : State) : Action → Option State
  | .initSenders secondaries =>
    match s.phase with
    | .submitted => some (s.initSenders job secondaries)
    | _ => none
  | .tick stopped =>
    match s.phase, s.stream with
    | .running, (qps, connectionCount) :: stream => some (s.tick stopped qps connectionCount stream)
    | _, _ => none
  | .refresh secondaries =>
    match s.phase with
    | .refreshing qps connectionCount => some (s.refresh job secondaries qps connectionCount)
    | _ => none
  | .sendRequest readable =>
    match s.phase with
    | .requesting instances rates => some (s.sendRequest job readable instances rates)
    | _ => none
  | .sendRates failing =>
    match s.phase with
    | .sending qps connectionCount => some (s.sendRateMessage qps connectionCount failing)
    | _ => none
  | .exhausted =>
    match s.phase, s.stream with
    | .running, [] => some { s with phase := .leaving }
    | _, _ => none
  | .finish =>
    match s.phase with
    | .leaving => some s.finish
    | _ => none
  | .rehash senders => if senders.Perm s.senders then some { s with senders } else none

inductive Steps (job : Job) (s : State) : Action → State → Prop
  | initSenders {secondaries : Option (List Node)} (hphase : s.phase = .submitted) :
    Steps job s (.initSenders secondaries) (s.initSenders job secondaries)
  | tick {stopped : Bool} {qps connectionCount : UInt32} {stream : List (UInt32 × UInt32)}
    (hphase : s.phase = .running) (hstream : s.stream = (qps, connectionCount) :: stream) :
    Steps job s (.tick stopped) (s.tick stopped qps connectionCount stream)
  | refresh {secondaries : Option (List Node)} {qps connectionCount : UInt32}
    (hphase : s.phase = .refreshing qps connectionCount) :
    Steps job s (.refresh secondaries) (s.refresh job secondaries qps connectionCount)
  | sendRequest {readable : Bool} {instances : List String} {rates : Option (UInt32 × UInt32)}
    (hphase : s.phase = .requesting instances rates) :
    Steps job s (.sendRequest readable) (s.sendRequest job readable instances rates)
  | sendRates {failing : List String} {qps connectionCount : UInt32}
    (hphase : s.phase = .sending qps connectionCount) :
    Steps job s (.sendRates failing) (s.sendRateMessage qps connectionCount failing)
  | exhausted (hphase : s.phase = .running) (hstream : s.stream = []) :
    Steps job s .exhausted { s with phase := .leaving }
  | finish (hphase : s.phase = .leaving) : Steps job s .finish s.finish
  | rehash {senders : List Sender} (hperm : senders.Perm s.senders) :
    Steps job s (.rehash senders) { s with senders }

theorem Steps.of_step {job : Job} {s t : State} {a : Action} (h : step job s a = some t) :
    Steps job s a t := by
  cases a with
  | tick stopped =>
    simp only [step] at h
    split at h
    · cases h
      exact .tick ‹_› ‹_›
    · cases h
  | exhausted =>
    simp only [step] at h
    split at h
    · cases h
      exact .exhausted ‹_› ‹_›
    · cases h
  | _ =>
    simp only [step] at h
    split at h
    · cases h
      constructor
      assumption
    · cases h

theorem createSender_foldl (nodes : List Node) (old : List Sender) (ids : List String)
    (hids : ∀ sender ∈ old, sender.instanceId ∉ ids) :
    ∃ ids', nodes.foldl createSender (old ++ ids.map (⟨·, []⟩), ids) =
        (old ++ ids'.map (⟨·, []⟩), ids') ∧
      ∀ sender ∈ old, sender.instanceId ∉ ids' := by
  induction nodes generalizing ids with
  | nil => exact ⟨ids, rfl, hids⟩
  | cons node nodes ih =>
    rw [List.foldl_cons, createSender]
    split
    · exact ih ids hids
    · rename_i hnew
      simp only [Bool.or_eq_true, not_or, List.any_eq_true, beq_iff_eq] at hnew
      have hids' : ∀ sender ∈ old, sender.instanceId ∉ ids ++ [node.instanceId] := by
        intro sender hsender hmem
        rcases List.mem_append.mp hmem with hmem | hmem
        · exact hids sender hsender hmem
        · exact hnew.1 ⟨sender, List.mem_append_left _ hsender, List.mem_singleton.mp hmem⟩
      simpa using ih (ids ++ [node.instanceId]) hids'

theorem State.connect_eq (job : Job) (s : State) (secondaries : Option (List Node)) :
    ∃ ids, s.connect job secondaries =
        ({ s with senders :=
            s.senders ++ ids.map fun id => ⟨id, [.metadata job.primaryHost]⟩ }, ids) ∧
      ∀ sender ∈ s.senders, sender.instanceId ∉ ids := by
  obtain ⟨ids, hcreate, hids⟩ :=
    createSender_foldl (secondaries.getD []) s.senders [] (by simp)
  refine ⟨ids, ?_, hids⟩
  rw [List.map_nil, List.append_nil] at hcreate
  simp only [State.connect, createSendersForClusterNodes, hcreate, sendToInstances,
    List.map_append, List.map_map]
  congr 3
  · rw [List.map_congr_left (g := id), List.map_id]
    intro sender hsender
    simp [hids sender hsender]
  · apply List.map_congr_left
    intro id hid
    simp [hid, Sender.send]

end Overload.Primary
