import Mathlib.Data.Nat.Pairing
import Overload.Job.MultiRequest

/-! Submitting requests to a cluster (`overload/src/overload/cluster/mod.rs`, `secondary.rs`).
Every node takes them; one that is not the primary writes the request as JSON again and asks
the node that it takes for the primary, which may by then see things in another way. -/

namespace Overload.Cluster

open Job Serde
open Json (Value)
open Request (Externals Host)
open Standalone (Handled MultiRequest Response Surroundings preCheck withName)
open Transport (Request)

def errorCodes : List (ErrorCode × String) :=
  [(.inactiveCluster, "InactiveCluster"), (.noSecondary, "NoSecondary"),
    (.sqliteOpenFailed, "SqliteOpenFailed"), (.preparationFailed, "PreparationFailed"),
    (.secondaryClusterNode, "SecondaryClusterNode"),
    (.requestFileNotFound, "RequestFileNotFound"), (.luaParseFailure, "LuaParseFailure"),
    (.bodyGenerationFailure, "BodyGenerationFailure"),
    (.uriParamGenerationFailure, "UriParamGenerationFailure"), (.others, "Others")]

def units {ε α : Type} [DecidableEq α] (variants : List (α × String)) : Codec ε α where
  encode x := .string ((variants.lookup x).getD "")
  decode _ v := (variants.find? fun variant => isUnit variant.2 v).map Prod.fst

def errorCode {ε : Type} : Codec ε ErrorCode := units errorCodes

def plainStatuses : List (JobStatus × String) :=
  [(.starting, "Starting"), (.inProgress, "InProgress"), (.stopped, "Stopped"),
    (.completed, "Completed"), (.failed, "Failed")]

def jobStatus {ε : Type} : Codec ε JobStatus where
  encode
    | .error code => tagged "Error" ((errorCode : Codec ε ErrorCode).encode code)
    | status => (units plainStatuses : Codec ε JobStatus).encode status
  decode e v :=
    match (units plainStatuses).decode e v with
    | some status => some status
    | none => do
      match ← untag v with
      | ("Error", v) => (errorCode.decode e v).map .error
      | _ => none

def response {ε : Type} : Codec ε Response :=
  .record (Fields.build Response.mk
    |>.field "job_id" .string Response.jobId
    |>.field "status" jobStatus Response.status)

theorem errorCode_faithful {ε : Type} : (errorCode : Codec ε ErrorCode).Faithful := by
  intro code e
  cases code <;> rfl

theorem units_tagged {ε : Type} (e : ε) (v : Value) :
    (units plainStatuses).decode e (tagged "Error" v) = none := by
  refine Option.map_eq_none_iff.mpr (List.find?_eq_none.mpr fun variant hvariant => ?_)
  have hne : "Error" ≠ variant.2 := by
    revert variant
    decide
  rw [isUnit_tagged hne]
  exact Bool.false_ne_true

theorem jobStatus_faithful {ε : Type} : (jobStatus : Codec ε JobStatus).Faithful := by
  intro status
  cases status with
  | error code =>
    refine (errorCode_faithful code).variant rfl fun e v => ?_
    simp only [jobStatus, units_tagged]
    rfl
  | _ => exact fun _ => rfl

theorem response_faithful {ε : Type} : (response : Codec ε Response).Faithful := fun _ =>
  Codec.settled_record (show ["job_id", "status"].Nodup by decide)
    (Fields.settled_build _
      |>.field (Codec.string_faithful _)
      |>.field (jobStatus_faithful _))

variable {x : Externals}

/-- What a node is and sees while it handles a submission.  It looks twice for secondaries;
of the primaries it knows the URIs of their service instances. -/
structure Visit (x : Externals) where
  host : Host
  fresh : Uuid
  isActive : Bool
  isPrimary : Bool
  secondaries : Option (List String)
  secondariesAgain : Option (List String)
  primaries : Option (List (Option String))
  seen : Surroundings x
  answers : Bool

def requestHost (host : Host) (i : Nat) : Host :=
  { host with uuid := fun j => host.uuid (Nat.pair i j) }

def multiRequest (x : Externals) : Codec Host (MultiRequest x) :=
  .record (Fields.build MultiRequest.mk
    |>.fieldOption "name" .string MultiRequest.name
    |>.field "requests" ((Transport.request x).list requestHost) MultiRequest.requests)

def unknownErrorResp (jobId : String) : Response := ⟨jobId, .error .others⟩

def unanswered : Handled x := ⟨none, []⟩

/-- The asked node reads the body, if the request gets there; whoever asked reads the answer,
whatever its status. -/
def exchange {T : Type} (c : Codec Host T) (asked : Option (Visit x)) (handle : T → Handled x)
    (request : T) : Handled x :=
  match asked with
  | none => unanswered
  | some asked =>
    match c.decode asked.host (c.encode request) with
    | none => unanswered
    | some request =>
      let handled := handle request
      if asked.answers then
        ⟨handled.response.bind fun answer =>
          response.decode () ((response : Codec Unit Response).encode answer), handled.spawned⟩
      else ⟨none, handled.spawned⟩

def forwardTestRequest (visit : Visit x) (remote : Handled x) : Handled x :=
  match visit.primaries with
  | none => unanswered
  | some [] => ⟨some (unknownErrorResp "error"), []⟩
  | some (none :: _) => unanswered
  | some (some _ :: _) => remote

def orUnknownError (jobId : String) (handled : Handled x) : Handled x :=
  ⟨some (handled.response.getD (unknownErrorResp jobId)), handled.spawned⟩

/-- The first visit is that of the node that is asked; the others are those that the forwarded
request makes, as far as it gets. -/
def handleRequestCluster : List (Visit x) → Request x → Handled x
  | [], _ => unanswered
  | visit :: rest, request =>
    let jobId := Job.jobId request.name visit.fresh
    let request := withName jobId request
    if !visit.isActive then ⟨some ⟨jobId, .error .inactiveCluster⟩, []⟩
    else if visit.isPrimary then
      if visit.secondaries.isNone then ⟨some ⟨jobId, .error .noSecondary⟩, []⟩
      else
        match visit.secondariesAgain with
        | none => unanswered
        | some [] => ⟨some ⟨jobId, .error .noSecondary⟩, []⟩
        | some (_ :: _) =>
          match (preCheck visit.seen request).run with
          | none => unanswered
          | some (.error e) => ⟨some ⟨jobId, .error e⟩, []⟩
          | some (.ok ()) => ⟨some ⟨jobId, .starting⟩, [request]⟩
    else
      orUnknownError jobId (forwardTestRequest visit
        (exchange (Transport.request x) rest.head? (handleRequestCluster rest) request))

def handleMultiRequestCluster : List (Visit x) → MultiRequest x → Handled x
  | [], _ => unanswered
  | visit :: rest, requests =>
    let jobId := Job.jobId requests.name visit.fresh
    if !visit.isActive then ⟨some ⟨jobId, .error .inactiveCluster⟩, []⟩
    else if visit.isPrimary then
      ⟨some ⟨jobId, .starting⟩,
        requests.requests.mapIdx fun idx => withName (subJobId jobId idx)⟩
    else
      orUnknownError jobId (forwardTestRequest visit
        (exchange (multiRequest x) rest.head? (handleMultiRequestCluster rest)
          { requests with name := some jobId }))

/-- A submission under an id has started either all of its requests or none.  `Starting` means
that it has, and every error but `Others` that it has not; `Others` is also the answer if
the primary's was lost. -/
inductive Once (id : String) (whole : List (Request x)) : Handled x → Prop
  | started : Once id whole ⟨some ⟨id, .starting⟩, whole⟩
  | refused (e : ErrorCode) : Once id whole ⟨some ⟨id, .error e⟩, []⟩
  | unknown {jobId : String} {spawned : List (Request x)} : jobId = id ∨ jobId = "error" →
    spawned = [] ∨ spawned = whole → Once id whole ⟨some ⟨jobId, .error .others⟩, spawned⟩
  | unanswered {spawned : List (Request x)} : spawned = [] ∨ spawned = whole →
    Once id whole ⟨none, spawned⟩

section Once

variable {id : String} {whole : List (Request x)} {handled : Handled x}

theorem Once.spawned_eq (h : Once id whole handled) :
    handled.spawned = [] ∨ handled.spawned = whole := by
  cases h with
  | started => exact .inr rfl
  | refused => exact .inl rfl
  | unknown _ hspawned => exact hspawned
  | unanswered hspawned => exact hspawned

theorem Once.exchange {T : Type} {c : Codec Host T} {asked : Option (Visit x)}
    {handle : T → Handled x} {request : T} (hsettled : c.Settled request)
    (h : asked ≠ none → Once id whole (handle request)) :
    Once id whole (exchange c asked handle request) := by
  cases asked with
  | none => exact .unanswered (.inl rfl)
  | some asked =>
    have hhandled := h (Option.some_ne_none asked)
    simp only [Cluster.exchange, hsettled asked.host, response_faithful _ ()]
    split
    · rwa [Option.bind_fun_some]
    · exact .unanswered hhandled.spawned_eq

theorem Once.forwardTestRequest {remote : Handled x} (visit : Visit x)
    (h : Once id whole remote) :
    Once id whole (orUnknownError id (forwardTestRequest visit remote)) := by
  have hnone : Once id whole (orUnknownError id Cluster.unanswered) :=
    .unknown (.inl rfl) (.inl rfl)
  rw [Cluster.forwardTestRequest]
  split
  · exact hnone
  · exact .unknown (.inr rfl) (.inl rfl)
  · exact hnone
  · cases h with
    | started => exact .started
    | refused e => exact .refused e
    | unknown hid hspawned => exact .unknown hid hspawned
    | unanswered hspawned => exact .unknown (.inl rfl) hspawned

end Once

theorem jobId_jobId (name : Option String) (fresh fresh' : Uuid) :
    Job.jobId (some (Job.jobId name fresh)) fresh' = Job.jobId name fresh :=
  ((keepsId_iff fresh).mpr (isMatch_idRegex_jobId name fresh) fresh').1

theorem settled_withName {host : Host} {document : Value} {request : Request x}
    (h : (Transport.request x).decode host document = some request)
    (hschema : request.req.WithoutSchema x) (jobId : String) :
    (Transport.request x).Settled (withName jobId request) := by
  obtain ⟨value, hvalue, hrequest⟩ := Option.bind_eq_some_iff.mp h
  cases hrequest
  obtain ⟨hreq, hqps, hconnection⟩ := Transport.reads_requestShadow x hvalue
  refine Codec.settled_tryFrom ?_ fun _ => congrArg some (Request.from_toRequestShadow x _)
  exact Transport.settled_requestShadow x
    (hreq (Transport.withoutSchema_withHost x hschema) value.target) hqps hconnection

theorem settled_multiRequest {requests : MultiRequest x}
    (h : ∀ request ∈ requests.requests, (Transport.request x).Settled request) :
    (multiRequest x).Settled requests :=
  Codec.settled_record (show ["name", "requests"].Nodup by decide)
    (Fields.settled_build _
      |>.fieldOption (Request.optionString_faithful requests.name)
      |>.field (Codec.settled_list h))

theorem Once.visit {request : Request x} {visit : Visit x} {rest : List (Visit x)} {id : String}
    (hid : Job.jobId request.name visit.fresh = id)
    (hsettled : (Transport.request x).Settled (withName id request))
    (hnext : rest.head? ≠ none →
      Once id [withName id request] (handleRequestCluster rest (withName id request))) :
    Once id [withName id request] (handleRequestCluster (visit :: rest) request) := by
  simp only [handleRequestCluster, hid]
  split
  · exact .refused _
  split
  · split
    · exact .refused _
    split
    · exact .unanswered (.inl rfl)
    · exact .refused _
    split
    · exact .unanswered (.inl rfl)
    · exact .refused _
    · exact .started
  · exact (Once.exchange hsettled hnext).forwardTestRequest visit

theorem once_handleRequestCluster (request : Request x)
    (hsettled : ∀ jobId, (Transport.request x).Settled (withName jobId request))
    (visit : Visit x) (rest : List (Visit x)) :
    Once (Job.jobId request.name visit.fresh)
      [withName (Job.jobId request.name visit.fresh) request]
      (handleRequestCluster (visit :: rest) request) := by
  induction rest generalizing visit request with
  | nil => exact .visit rfl (hsettled _) fun h => absurd rfl h
  | cons asked rest ih =>
    refine .visit rfl (hsettled _) fun _ => ?_
    -- the next node finds an id for a name, and keeps it
    have hnext := ih (withName (Job.jobId request.name visit.fresh) request) hsettled asked
    have hname : (withName (Job.jobId request.name visit.fresh) request).name =
      some (Job.jobId request.name visit.fresh) := rfl
    rwa [hname, jobId_jobId] at hnext

/-- However many nodes forward a submission, whatever each of them takes for the primary, and
whichever answers get lost: it is started at most once, as it was read first and under the
id that the first node gave it. -/
theorem submission_started_once (visit : Visit x) (rest : List (Visit x)) (document : Value)
    (request : Request x)
    (hread : (Transport.request x).decode visit.host document = some request)
    (hschema : request.req.WithoutSchema x) :
    Once (Job.jobId request.name visit.fresh)
      [withName (Job.jobId request.name visit.fresh) request]
      (handleRequestCluster (visit :: rest) request) :=
  once_handleRequestCluster request (settled_withName hread hschema) visit rest

theorem Once.visitMulti {requests : MultiRequest x} {visit : Visit x} {rest : List (Visit x)}
    {id : String} (hid : Job.jobId requests.name visit.fresh = id)
    (hsettled : (multiRequest x).Settled { requests with name := some id })
    (hnext : rest.head? ≠ none →
      Once id (requests.requests.mapIdx fun idx => withName (subJobId id idx))
        (handleMultiRequestCluster rest { requests with name := some id })) :
    Once id (requests.requests.mapIdx fun idx => withName (subJobId id idx))
      (handleMultiRequestCluster (visit :: rest) requests) := by
  simp only [handleMultiRequestCluster, hid]
  split
  · exact .refused _
  split
  · exact .started
  · exact (Once.exchange hsettled hnext).forwardTestRequest visit

theorem once_handleMultiRequestCluster (requests : MultiRequest x)
    (hsettled : ∀ request ∈ requests.requests, (Transport.request x).Settled request)
    (visit : Visit x) (rest : List (Visit x)) :
    Once (Job.jobId requests.name visit.fresh)
      (requests.requests.mapIdx fun idx =>
        withName (subJobId (Job.jobId requests.name visit.fresh) idx))
      (handleMultiRequestCluster (visit :: rest) requests) := by
  induction rest generalizing visit requests with
  | nil => exact .visitMulti rfl (settled_multiRequest hsettled) fun h => absurd rfl h
  | cons asked rest ih =>
    refine .visitMulti rfl (settled_multiRequest hsettled) fun _ => ?_
    have hnext := ih { requests with name := Job.jobId requests.name visit.fresh } hsettled asked
    rwa [jobId_jobId] at hnext

theorem reads_multiRequest {host : Host} {document : Value} {requests : MultiRequest x}
    (h : (multiRequest x).decode host document = some requests) :
    ∀ request ∈ requests.requests, request.req.WithoutSchema x →
      (Transport.request x).Settled request := by
  refine Codec.reads_record (P := fun requests => ∀ request ∈ requests.requests,
    request.req.WithoutSchema x → (Transport.request x).Settled request) ?_ host document _ h
  refine .field (Codec.reads_list fun _ _ _ hrequest hschema =>
    Transport.settled_request x hrequest hschema) <| .pass <| Fields.reads_build ?_
  exact fun _ _ hrequests => hrequests

theorem multi_submission_started_once (visit : Visit x) (rest : List (Visit x)) (document : Value)
    (requests : MultiRequest x)
    (hread : (multiRequest x).decode visit.host document = some requests)
    (hschema : ∀ request ∈ requests.requests, request.req.WithoutSchema x) :
    Once (Job.jobId requests.name visit.fresh)
      (requests.requests.mapIdx fun idx =>
        withName (subJobId (Job.jobId requests.name visit.fresh) idx))
      (handleMultiRequestCluster (visit :: rest) requests) := by
  have hsettled := reads_multiRequest hread
  exact once_handleMultiRequestCluster requests
    (fun request hrequest => hsettled request hrequest (hschema request hrequest)) visit rest

-- A primary and another node; the primary's answer may get lost on its way.

def secondaryVisit : Visit Transport.plainExternals where
  host := ⟨some "data", fun _ => ""⟩
  fresh := exampleUuid
  isActive := true
  isPrimary := false
  secondaries := none
  secondariesAgain := none
  primaries := some [some "http://127.0.0.1:3030"]
  seen := { Standalone.withoutFiles with pathExists := fun _ => true }
  answers := true

def primaryVisit (answers : Bool) : Visit Transport.plainExternals :=
  { secondaryVisit with
    host := ⟨none, fun _ => ""⟩
    isPrimary := true
    secondaries := some ["http://127.0.0.2:3030"]
    secondariesAgain := some ["http://127.0.0.2:3030"]
    answers }

theorem submission_started_once_answerLost :
    ∃ request, (Transport.request Transport.plainExternals).decode secondaryVisit.host
        Transport.fileDocument = some request ∧
      (handleRequestCluster [secondaryVisit, primaryVisit false] request).response =
        some ⟨exampleUuid.text, .error .others⟩ ∧
      (handleRequestCluster [secondaryVisit, primaryVisit false] request).spawned.length = 1 ∧
      Once exampleUuid.text [withName exampleUuid.text request]
        (handleRequestCluster [secondaryVisit, primaryVisit false] request) := by
  have hread : (Transport.request Transport.plainExternals).decode secondaryVisit.host
      Transport.fileDocument = some _ := rfl
  refine ⟨_, hread, by decide +kernel, by decide +kernel, ?_⟩
  exact submission_started_once secondaryVisit [primaryVisit false] _ _ hread trivial

def twoFiles : Value :=
  .object [("requests", .array [Transport.fileDocument, Transport.fileDocument])]

theorem isSome_twoFiles : ((multiRequest Transport.plainExternals).decode secondaryVisit.host
    twoFiles).isSome = true := by
  decide +kernel

def twoRequests : MultiRequest Transport.plainExternals :=
  ((multiRequest Transport.plainExternals).decode secondaryVisit.host twoFiles).get isSome_twoFiles

instance (spec : Request.RequestSpecEnum x) : Decidable (spec.WithoutSchema x) :=
  match spec with
  | .requestList _ | .requestFile _ | .splitRequestFile _ | .jsonTemplateRequest _ => isTrue trivial
  | .randomDataRequest req =>
    inferInstanceAs (Decidable (req.bodySchema = none ∧ req.uriParamSchema = none))

theorem multi_submission_started_once_twoFiles :
    (handleMultiRequestCluster [secondaryVisit, primaryVisit true] twoRequests).response =
        some ⟨exampleUuid.text, .starting⟩ ∧
      (handleMultiRequestCluster [secondaryVisit, primaryVisit true] twoRequests).spawned.length =
        2 ∧
      Once exampleUuid.text
        (twoRequests.requests.mapIdx fun idx => withName (subJobId exampleUuid.text idx))
        (handleMultiRequestCluster [secondaryVisit, primaryVisit true] twoRequests) :=
  ⟨by decide +kernel, by decide +kernel,
    multi_submission_started_once secondaryVisit [primaryVisit true] twoFiles twoRequests
      (Option.some_get _).symm (by decide +kernel)⟩

end Overload.Cluster
