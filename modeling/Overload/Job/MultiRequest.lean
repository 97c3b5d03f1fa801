import Overload.Job.Identity
import Overload.Job.Status
import Overload.Request.Transport

namespace Overload.Standalone

open Job
open Json (Value)
open Request (Externals)
open Transport (Request plainExternals)

variable {x : Externals}

/-- What a check can find out: the files that exist, the data that `generate_data` makes from
the schema of the body and from that of the parameters (none if it panics), and the chunks
that evaluate to a function. -/
structure Surroundings (x : Externals) where
  pathExists : String → Bool
  bodyData : x.Schema → Option Value
  uriParamData : x.Schema → Option Value
  verifyLuaChunk : String → Except String Unit

def requestFileExists (seen : Surroundings x) (fileName : String) : Bool :=
  seen.pathExists fileName

def checkData (generateData : x.Schema → Option Value) (code : ErrorCode) :
    Option x.Schema → ExceptT ErrorCode Option Unit
  | none => return ()
  | some schema => do
    match ← (generateData schema : Option Value) with
    | .null => throw code
    | _ => return ()

def checkSpec (seen : Surroundings x) : Request.RequestSpecEnum x → ExceptT ErrorCode Option Unit
  | .requestFile file =>
    if requestFileExists seen file.fileName then return () else throw .requestFileNotFound
  | .randomDataRequest req => do
    checkData seen.bodyData .bodyGenerationFailure req.bodySchema
    checkData seen.uriParamData .uriParamGenerationFailure req.uriParamSchema
  | _ => return ()

def preCheck (seen : Surroundings x) (request : Request x) : ExceptT ErrorCode Option Unit := do
  checkSpec seen request.req
  match request.responseAssertion.bind fun assertion => assertion.luaAssertion with
  | none => return ()
  | some chunks =>
    match seen.verifyLuaChunk ("\n".intercalate chunks) with
    | .ok () => return ()
    | .error _ => throw .luaParseFailure

structure Response where
  jobId : String
  status : JobStatus
  deriving DecidableEq, Repr

structure MultiRequest (x : Externals) where
  name : Option String
  requests : List (Request x)

/-- The answer, none if the handler panicked, and the requests that were given to
`cluster_executor::standalone::handle_request` by then. -/
structure Handled (x : Externals) where
  response : Option Response
  spawned : List (Request x)

def withName (jobId : String) (request : Request x) : Request x :=
  { request with name := some jobId }

/-- The loop, from request number `idx` on.  Every check has its own surroundings: files come
and go, and data is generated anew. -/
def startEach (seen : Nat → Surroundings x) (jobId : String) (idx : Nat)
    (spawned : List (Request x)) : List (Request x) → Handled x
  | [] => ⟨some ⟨jobId, .starting⟩, spawned⟩
  | request :: rest =>
    let request := withName (subJobId jobId idx) request
    match (preCheck (seen idx) request).run with
    | none => ⟨none, spawned⟩
    | some (.error e) => ⟨some ⟨jobId, .error e⟩, spawned⟩
    | some (.ok ()) => startEach seen jobId (idx + 1) (spawned ++ [request]) rest

def handleMultiRequest (seen : Nat → Surroundings x) (fresh : Uuid) (requests : MultiRequest x) :
    Handled x :=
  startEach seen (Job.jobId requests.name fresh) 0 [] requests.requests

/-- An error means that nothing was started, and `Starting` that everything was, each request
under an id of its own. -/
structure AsWhole (requests : List (Request x)) (handled : Handled x) : Prop where
  refused : ∀ jobId e, handled.response = some ⟨jobId, .error e⟩ → handled.spawned = []
  accepted : ∀ jobId, handled.response = some ⟨jobId, .starting⟩ →
    handled.spawned = requests.mapIdx fun idx => withName (subJobId jobId idx)

def Pass (seen : Nat → Surroundings x) (idx : Nat) (requests : List (Request x)) : Prop :=
  ∀ i request, requests[i]? = some request → (preCheck (seen (idx + i)) request).run = some (.ok ())

variable {seen : Nat → Surroundings x} {jobId : String} {idx : Nat} {request : Request x}
  {requests spawned before after : List (Request x)} {e : ErrorCode}

theorem preCheck_withName (seen : Surroundings x) (jobId : String) (request : Request x) :
    preCheck seen (withName jobId request) = preCheck seen request := rfl

theorem pass_nil : Pass seen idx [] := by
  intro i request h
  cases h

theorem pass_cons : Pass seen idx (request :: requests) ↔
    (preCheck (seen idx) request).run = some (.ok ()) ∧ Pass seen (idx + 1) requests := by
  constructor
  · intro h
    refine ⟨h 0 request rfl, fun i r hr => ?_⟩
    rw [Nat.add_assoc, Nat.add_comm 1 i]
    exact h (i + 1) r hr
  · rintro ⟨hhead, htail⟩ i r hr
    cases i with
    | zero =>
      cases hr
      exact hhead
    | succ i =>
      have := htail i r hr
      rwa [Nat.add_assoc, Nat.add_comm 1 i] at this

def named (jobId : String) (idx : Nat) (requests : List (Request x)) : List (Request x) :=
  requests.mapIdx fun i => withName (subJobId jobId (idx + i))

theorem named_nil : named jobId idx ([] : List (Request x)) = [] := rfl

theorem named_zero : named jobId 0 requests =
    requests.mapIdx fun idx => withName (subJobId jobId idx) := by
  simp only [named, Nat.zero_add]

theorem named_cons : named jobId idx (request :: requests) =
    withName (subJobId jobId idx) request :: named jobId (idx + 1) requests := by
  simp only [named, List.mapIdx_cons, Nat.add_zero, Nat.add_assoc, Nat.add_comm 1]

inductive Ends (seen : Nat → Surroundings x) (jobId : String) (idx : Nat)
    (spawned requests : List (Request x)) : Handled x → Prop
  | all : Pass seen idx requests →
    Ends seen jobId idx spawned requests
      ⟨some ⟨jobId, .starting⟩, spawned ++ named jobId idx requests⟩
  | refused {before after : List (Request x)} {request : Request x} {e : ErrorCode} :
    requests = before ++ request :: after → Pass seen idx before →
      (preCheck (seen (idx + before.length)) request).run = some (.error e) →
      Ends seen jobId idx spawned requests
        ⟨some ⟨jobId, .error e⟩, spawned ++ named jobId idx before⟩
  | panicked (started : List (Request x)) : Ends seen jobId idx spawned requests ⟨none, started⟩

theorem Ends.cons {handled : Handled x}
    (hpass : (preCheck (seen idx) request).run = some (.ok ()))
    (h : Ends seen jobId (idx + 1) (spawned ++ [withName (subJobId jobId idx) request]) requests
      handled) : Ends seen jobId idx spawned (request :: requests) handled := by
  cases h with
  | all hall =>
    rw [List.append_assoc, List.singleton_append, ← named_cons]
    exact .all (pass_cons.mpr ⟨hpass, hall⟩)
  | @refused before after r e hsplit hbefore he =>
    rw [List.append_assoc, List.singleton_append, ← named_cons]
    refine .refused (by rw [hsplit, List.cons_append]) (pass_cons.mpr ⟨hpass, hbefore⟩) ?_
    rwa [List.length_cons, Nat.add_comm before.length, ← Nat.add_assoc]
  | panicked started => exact .panicked started

theorem startEach_ends : Ends seen jobId idx spawned requests
    (startEach seen jobId idx spawned requests) := by
  induction requests generalizing idx spawned with
  | nil =>
    have h : Ends seen jobId idx spawned [] _ := .all pass_nil
    rwa [named_nil, List.append_nil] at h
  | cons request requests ih =>
    simp only [startEach, preCheck_withName]
    split
    · exact .panicked _
    · rename_i e he
      have h : Ends seen jobId idx spawned (request :: requests) _ := .refused rfl pass_nil he
      rwa [named_nil, List.append_nil] at h
    · rename_i hpass
      exact .cons hpass ih

theorem startEach_refused (hbefore : Pass seen idx before)
    (he : (preCheck (seen (idx + before.length)) request).run = some (.error e)) :
    startEach seen jobId idx spawned (before ++ request :: after) =
      ⟨some ⟨jobId, .error e⟩, spawned ++ named jobId idx before⟩ := by
  induction before generalizing idx spawned with
  | nil =>
    simp only [List.nil_append, startEach, preCheck_withName]
    rw [List.length_nil, Nat.add_zero] at he
    simp only [he, named_nil, List.append_nil]
  | cons first before ih =>
    obtain ⟨hfirst, hbefore⟩ := pass_cons.mp hbefore
    rw [List.length_cons, Nat.add_comm before.length, ← Nat.add_assoc] at he
    simp only [List.cons_append, startEach, preCheck_withName, hfirst, ih hbefore he, named_cons,
      List.append_assoc, List.nil_append]

/-- A multi-request is handled as a whole exactly if no request of it is refused behind
requests that all pass. -/
theorem handleMultiRequest_asWhole_iff (seen : Nat → Surroundings x) (fresh : Uuid)
    (requests : MultiRequest x) :
    AsWhole requests.requests (handleMultiRequest seen fresh requests) ↔
      ∀ before request after e, requests.requests = before ++ request :: after →
        Pass seen 0 before → (preCheck (seen before.length) request).run = some (.error e) →
          before = [] := by
  constructor
  · intro h before request after e hsplit hbefore he
    rw [← Nat.zero_add before.length] at he
    have hhandled : handleMultiRequest seen fresh requests =
        ⟨some ⟨Job.jobId requests.name fresh, .error e⟩,
          [] ++ named (Job.jobId requests.name fresh) 0 before⟩ := by
      rw [handleMultiRequest, hsplit, startEach_refused hbefore he]
    have hnothing := h.refused (Job.jobId requests.name fresh) e (by rw [hhandled])
    rw [hhandled, List.nil_append, named_zero] at hnothing
    exact List.mapIdx_eq_nil_iff.mp hnothing
  · intro h
    have hends : Ends seen (Job.jobId requests.name fresh) 0 [] requests.requests
      (handleMultiRequest seen fresh requests) := startEach_ends
    generalize handleMultiRequest seen fresh requests = handled at hends
    cases hends with
    | all hall =>
      refine ⟨fun jobId e hresponse => ?_, fun jobId hresponse => ?_⟩
      · cases hresponse
      · cases hresponse
        rw [List.nil_append, named_zero]
    | refused hsplit hbefore he =>
      rw [Nat.zero_add] at he
      refine ⟨fun jobId e hresponse => ?_, fun jobId hresponse => ?_⟩
      · rw [h _ _ _ _ hsplit hbefore he, named_nil, List.append_nil]
      · cases hresponse
    | panicked started =>
      refine ⟨fun jobId e hresponse => ?_, fun jobId hresponse => ?_⟩ <;> cases hresponse

theorem port_valid : (0 : UInt64) ≤ 80 ∧ (80 : UInt64) ≤ 0xffff := by decide

def submitted (spec : Request.RequestSpecEnum plainExternals) : Request plainExternals :=
  .from plainExternals
    { name := none
      duration := 10
      target := ⟨"example", ⟨80, port_valid⟩, .http⟩
      req := spec
      qps := .constantRate ⟨5⟩
      concurrentConnection := .elastic .default
      connectionKeepAlive := Transport.defaultConnectionKeepAlive
      histogramBuckets := []
      responseAssertion := none
      generationMode := .immediate }

def withoutFiles : Surroundings plainExternals where
  pathExists _ := false
  bodyData := some
  uriParamData := some
  verifyLuaChunk _ := .ok ()

def listThenFile : MultiRequest plainExternals where
  name := none
  requests := [submitted (.requestList ⟨[]⟩), submitted (.requestFile ⟨"/tmp/a.sqlite", false, 0⟩)]

theorem handleMultiRequest_listThenFile :
    (handleMultiRequest (fun _ => withoutFiles) exampleUuid listThenFile).response =
        some ⟨exampleUuid.text, .error .requestFileNotFound⟩ ∧
      (handleMultiRequest (fun _ => withoutFiles) exampleUuid listThenFile).spawned.map
        (fun request => request.name) = [some (subJobId exampleUuid.text 0)] ∧
      ¬ AsWhole listThenFile.requests
        (handleMultiRequest (fun _ => withoutFiles) exampleUuid listThenFile) := by
  have hresponse : (handleMultiRequest (fun _ => withoutFiles) exampleUuid listThenFile).response =
      some ⟨exampleUuid.text, .error .requestFileNotFound⟩ := rfl
  refine ⟨hresponse, rfl, fun h => ?_⟩
  cases h.refused _ _ hresponse

end Overload.Standalone
