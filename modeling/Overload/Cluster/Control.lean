import Overload.Cluster.Submit
import Overload.Job.Query
import Overload.Provider.Upload

namespace Overload.Cluster

open Job Serde
open Json (Value)
open Provider (Holds HttpReqCsvHelper Table Texts csvReaderToSqlite uploaded)

def internal500 (msg : String) : GenericError := ⟨msg, 500⟩

def inactiveClusterError : GenericError := ⟨"\x7b\"Error\":\"InactiveCluster\"\x7d", 404⟩

def genericError (e : GenericError) : Value :=
  .object [("error_code", .number (.posInt e.errorCode.toUInt64)), ("message", .string e.message)]

abbrev GenericResult (A : Type) := Except GenericError (Std.ExtTreeMap String A)

structure Seat (S : Type) where
  isActive : Bool
  isPrimary : Bool
  primaries : Option (List (Option String))
  state : S
  replies : Bool

def primaryUri (primaries : Option (List (Option String))) : Option String :=
  primaries.bind fun s => s.head?.bind id

def statusCode (code : UInt16) : Option UInt16 :=
  if 100 ≤ code ∧ code < 1000 then some code else none

/-- A kind of requests.  `serve` has no answer where the handler panics, as have `noUri` and
`errorStatus`; `forward` is what the node behind a uri reads of a request, none if they make no
uri; `failed` is the text of what went wrong with a reply. -/
structure Control (S Q A : Type) where
  serve : S → Q → Option (GenericResult A) × S
  forward : String → Q → Option (Except GenericError Q)
  noUri : String → Q → Option GenericError
  errorStatus : GenericError → Option UInt16
  value : Codec Unit A
  order : MapOrder A
  failed : Option Value → String

structure Outcome (S A : Type) where
  answer : Option (GenericResult A)
  states : List S

namespace Control

variable {S Q A : Type} (ctl : Control S Q A)

def response : Codec Unit (Std.ExtTreeMap String A) := ctl.value.map ctl.order

def reply : GenericResult A → Option Value
  | .ok data => some (ctl.response.encode data)
  | .error e => (ctl.errorStatus e).map fun _ => genericError e

def forwardOtherRequestsToPrimary (replied : Option Value) : GenericResult A :=
  match replied.bind (ctl.response.decode ()) with
  | some data => .ok data
  | none => .error (internal500 (ctl.failed replied))

def handle : List (Seat S) → Q → Outcome S A
  | [], _ => ⟨none, []⟩
  | seat :: rest, request =>
    let states := (seat :: rest).map Seat.state
    if !seat.isActive then ⟨some (.error inactiveClusterError), states⟩
    else if seat.isPrimary then
      let (answer, state) := ctl.serve seat.state request
      ⟨answer, state :: rest.map Seat.state⟩
    else
      match primaryUri seat.primaries with
      | none => ⟨some (.error (internal500 "Unknown error")), states⟩
      | some uri =>
        let replies := rest.head?.any Seat.replies
        match ctl.forward uri request with
        | none => ⟨(ctl.noUri uri request).map .error, states⟩
        -- the filter of the next node does not accept what it reads
        | some (.error e) =>
          let replied := if replies then ctl.reply (.error e) else none
          ⟨some (ctl.forwardOtherRequestsToPrimary replied), states⟩
        | some (.ok next) =>
          let asked := handle rest next
          let replied := if replies then asked.answer.bind ctl.reply else none
          ⟨some (ctl.forwardOtherRequestsToPrimary replied), seat.state :: asked.states⟩

end Control

def stopMessage : Option JobStatus → String
  | some .starting | some .inProgress => "Job stopped"
  | some .stopped => "Job already stopped"
  | some .completed => "Job already completed"
  | some .failed => "Job failed"
  | some _ => "Invalid job status"
  | none => "Job Not Found"

def stopJob (jobId : String) (jobStatus : StatusMap) : Std.ExtTreeMap String String × StatusMap :=
  let (jobStatus, result) := stopRequestByJobId jobId jobStatus
  (.ofList (result.map fun job => (job.1, stopMessage job.2)), jobStatus)

/-- The directory of a node, the name that it draws next, and what becomes of opening a file of
that name and of each insert into it.  A file is what the table in it is. -/
structure Storage where
  files : Std.ExtTreeMap String Table
  fileName : String
  opened : Except String Unit
  inserts : Nat → Except String Unit

def fileUploadSuccessResponse (fileName : String) (validCount : Nat) :
    Std.ExtTreeMap String String :=
  .ofList [("file", fileName), ("valid_count", toString validCount)]

/-- The rows that were inserted before an error stay in the file. -/
def csvStreamToSqlite (x : Texts) (records : List (Except String HttpReqCsvHelper))
    (storage : Storage) : GenericResult String × Storage :=
  let (result, table) := csvReaderToSqlite x storage.opened storage.inserts records
  let files := match storage.opened with
    | .ok _ => storage.files.insert storage.fileName table
    | .error _ => storage.files
  match result with
  | .ok count => (.ok (fileUploadSuccessResponse storage.fileName count), { storage with files })
  | .error _ => (.error ⟨"Unknown error.", 65535⟩, { storage with files })

section Kinds

variable (failed : Option Value → String)

def stop (isUri : String → String → Bool) (invalidUri : String → String → String)
    (order : MapOrder String) : Control StatusMap String String where
  serve jobStatus jobId := (stopJob jobId jobStatus).map (some ∘ .ok) id
  forward uri jobId := if isUri uri jobId then some (.ok jobId) else none
  noUri uri jobId := some ⟨invalidUri uri jobId, 400⟩
  errorStatus e := statusCode e.errorCode
  value := .string
  order := order
  failed := failed

def handleHistoryAll (grammar : String → UriGrammar)
    (invalidUri : String → JobStatusQueryParams → String) (order : MapOrder JobStatus) :
    Control StatusMap JobStatusQueryParams JobStatus where
  serve jobStatus params := ((handleGetStatus params jobStatus).map .ok, jobStatus)
  forward uri := (grammar uri).forward
  noUri uri params := some ⟨invalidUri uri params, 400⟩
  errorStatus e := statusCode e.errorCode
  value := Cluster.jobStatus
  order := order
  failed := failed

def handleFileUpload (x : Texts) (isUri : String → Bool) (noUri : String → Option GenericError)
    (order : MapOrder String) :
    Control Storage (List (Except String HttpReqCsvHelper)) String where
  serve storage records := (csvStreamToSqlite x records storage).map some id
  forward uri records := if isUri uri then some (.ok records) else none
  noUri uri _ := noUri uri
  errorStatus _ := some 500
  value := .string
  order := order
  failed := failed

end Kinds

namespace Control

variable {S Q A : Type} {ctl : Control S Q A} {seat : Seat S} {seats before after : List (Seat S)}
  {request request' : Q} {data : Std.ExtTreeMap String A}

structure Legible (ctl : Control S Q A) : Prop where
  faithful : ctl.value.Faithful
  number : ∀ n, ctl.value.decode () (.number n) = none

namespace Legible

theorem read_error (h : ctl.Legible) (e : GenericError) :
    ∃ e', ctl.forwardOtherRequestsToPrimary (ctl.reply (.error e)) = .error e' := by
  have hread : ctl.response.decode () (genericError e) = none := by
    simp only [response, Codec.map, genericError, Codec.decodeMembers, h.number]
    rfl
  rw [reply]
  cases ctl.errorStatus e with
  | none => exact ⟨_, rfl⟩
  | some status =>
    rw [Option.map_some, forwardOtherRequestsToPrimary, Option.bind_some, hread]
    exact ⟨_, rfl⟩

theorem read_eq_ok (h : ctl.Legible) {answer : Option (GenericResult A)} :
    ctl.forwardOtherRequestsToPrimary (answer.bind ctl.reply) = .ok data ↔
      answer = some (.ok data) := by
  match answer with
  | none => exact ⟨nofun, nofun⟩
  | some (.ok data') =>
    have hread : ctl.response.decode () (ctl.response.encode data') = some data' :=
      Codec.map_faithful ctl.order h.faithful data' ()
    rw [Option.bind_some, reply, forwardOtherRequestsToPrimary, Option.bind_some, hread,
      Option.some.injEq]
  | some (.error e) =>
    obtain ⟨e', he'⟩ := h.read_error e
    rw [Option.bind_some, he']
    exact ⟨nofun, nofun⟩

end Legible

inductive Passes (ctl : Control S Q A) : List (Seat S) → Q → Q → Prop
  | here {request : Q} : Passes ctl [] request request
  | on {seat : Seat S} {before : List (Seat S)} {uri : String} {request next request' : Q} :
    seat.isActive = true → seat.isPrimary = false → primaryUri seat.primaries = some uri →
    ctl.forward uri request = some (.ok next) → Passes ctl before next request' →
    Passes ctl (seat :: before) request request'

/-- A request comes to a node that takes itself for the primary of an active cluster. -/
def Reaches (ctl : Control S Q A) (seats : List (Seat S)) (request : Q) (before : List (Seat S))
    (seat : Seat S) (after : List (Seat S)) (request' : Q) : Prop :=
  seats = before ++ seat :: after ∧ ctl.Passes before request request' ∧
    seat.isActive = true ∧ seat.isPrimary = true

def Returns (before : List (Seat S)) (seat : Seat S) : Prop :=
  ∀ s ∈ (before ++ [seat]).tail, s.replies = true

theorem returns_nil : Returns [] seat := fun _ hs => nomatch hs

theorem returns_cons {s : Seat S} (after : List (Seat S)) :
    Returns (s :: before) seat ↔
      (before ++ seat :: after).head?.any Seat.replies = true ∧ Returns before seat := by
  cases before with
  | nil => simp [Returns]
  | cons first before => simp [Returns, or_imp, forall_and]

theorem handle_inactive (hactive : seat.isActive = false) :
    ctl.handle (seat :: after) request =
      ⟨some (.error inactiveClusterError), (seat :: after).map Seat.state⟩ := by
  simp only [handle, hactive, Bool.not_false, if_true]

theorem handle_primary (hactive : seat.isActive = true) (hprimary : seat.isPrimary = true) :
    ctl.handle (seat :: after) request =
      ⟨(ctl.serve seat.state request).1,
        (ctl.serve seat.state request).2 :: after.map Seat.state⟩ := by
  simp only [handle, hactive, hprimary, Bool.not_true, Bool.false_eq_true, if_false, if_true]

theorem handle_forward {uri : String} (hactive : seat.isActive = true)
    (hprimary : seat.isPrimary = false) (huri : primaryUri seat.primaries = some uri)
    (hforward : ctl.forward uri request = some (.ok request')) :
    ctl.handle (seat :: after) request =
      ⟨some (ctl.forwardOtherRequestsToPrimary
        (if after.head?.any Seat.replies then
          (ctl.handle after request').answer.bind ctl.reply else none)),
        seat.state :: (ctl.handle after request').states⟩ := by
  simp only [handle, hactive, hprimary, huri, hforward, Bool.not_true, Bool.false_eq_true, if_false]

theorem handle_secondary (h : ctl.Legible) (hactive : seat.isActive = true)
    (hprimary : seat.isPrimary = false) :
    (∃ uri next, primaryUri seat.primaries = some uri ∧
        ctl.forward uri request = some (.ok next)) ∨
      ∃ e : Option GenericError, ctl.handle (seat :: after) request =
        ⟨e.map .error, (seat :: after).map Seat.state⟩ := by
  simp only [handle, hactive, hprimary, Bool.not_true, Bool.false_eq_true, if_false]
  cases primaryUri seat.primaries with
  | none => exact .inr ⟨some _, rfl⟩
  | some uri =>
    match hforward : ctl.forward uri request with
    | none => exact .inr ⟨ctl.noUri uri request, by simp only [hforward]⟩
    | some (.ok next) => exact .inl ⟨uri, next, rfl, hforward⟩
    | some (.error e) =>
      refine .inr ?_
      simp only [hforward]
      cases after.head?.any Seat.replies with
      | false => exact ⟨some _, rfl⟩
      | true =>
        obtain ⟨e', he'⟩ := h.read_error e
        exact ⟨some e', by rw [if_pos rfl, he', Option.map_some]⟩

theorem forwarded_eq_ok (h : ctl.Legible) {replies : Bool} {answer : Option (GenericResult A)} :
    some (ctl.forwardOtherRequestsToPrimary (if replies then answer.bind ctl.reply else none)) =
        some (.ok data) ↔ replies = true ∧ answer = some (.ok data) := by
  rw [Option.some.injEq]
  cases replies with
  | false => exact ⟨nofun, nofun⟩
  | true => rw [if_pos rfl, h.read_eq_ok, eq_self, true_and]

theorem handle_of_reaches (h : ctl.Legible)
    (hreach : ctl.Reaches seats request before seat after request') :
    (ctl.handle seats request).states =
        before.map Seat.state ++ (ctl.serve seat.state request').2 :: after.map Seat.state ∧
      ∀ data, (ctl.handle seats request).answer = some (.ok data) ↔
        Returns before seat ∧ (ctl.serve seat.state request').1 = some (.ok data) := by
  obtain ⟨rfl, hpass, hactive, hprimary⟩ := hreach
  induction hpass with
  | here =>
    rw [List.nil_append, handle_primary hactive hprimary]
    exact ⟨rfl, fun data => (and_iff_right returns_nil).symm⟩
  | @on s before uri request next request' hactive' hprimary' huri hforward hpass ih =>
    obtain ⟨hstates, hanswer⟩ := ih
    rw [List.cons_append, handle_forward hactive' hprimary' huri hforward, hstates,
      returns_cons after]
    refine ⟨rfl, fun data => ?_⟩
    rw [forwarded_eq_ok h, hanswer, and_assoc]

theorem exists_error_of_lost (h : ctl.Legible)
    (hreach : ctl.Reaches seats request before seat after request')
    (hlost : ¬ Returns before seat) :
    ∃ msg, (ctl.handle seats request).answer = some (.error (internal500 msg)) := by
  have hanswer := (handle_of_reaches h hreach).2
  obtain ⟨rfl, hpass, -⟩ := hreach
  cases hpass with
  | here => exact absurd returns_nil hlost
  | @on s before uri request next request' hactive' hprimary' huri hforward hpass =>
    rw [List.cons_append, handle_forward hactive' hprimary' huri hforward] at hanswer ⊢
    dsimp only at hanswer ⊢
    rw [forwardOtherRequestsToPrimary] at hanswer ⊢
    split
    next data hdata => exact absurd ((hanswer data).mp (by rw [hdata])).1 hlost
    next => exact ⟨_, rfl⟩

theorem handle_of_not_reaches (h : ctl.Legible)
    (hnone : ∀ before seat after request',
      ¬ ctl.Reaches seats request before seat after request') :
    (ctl.handle seats request).states = seats.map Seat.state ∧
      ∀ data, (ctl.handle seats request).answer ≠ some (.ok data) := by
  induction seats generalizing request with
  | nil => exact ⟨rfl, nofun⟩
  | cons seat rest ih =>
    cases hactive : seat.isActive with
    | false =>
      rw [handle_inactive hactive]
      exact ⟨rfl, nofun⟩
    | true =>
      cases hprimary : seat.isPrimary with
      | true => exact absurd ⟨rfl, .here, hactive, hprimary⟩ (hnone [] seat rest request)
      | false =>
        obtain ⟨uri, next, huri, hforward⟩ | ⟨e, he⟩ := handle_secondary h hactive hprimary
        · obtain ⟨hstates, hanswer⟩ := @ih next fun before seat' after request' hreach =>
            hnone (seat :: before) seat' after request' ⟨by rw [hreach.1, List.cons_append],
              .on hactive hprimary huri hforward hreach.2.1, hreach.2.2⟩
          rw [handle_forward hactive hprimary huri hforward, hstates]
          exact ⟨rfl, fun data hdata => hanswer data ((forwarded_eq_ok h).mp hdata).2⟩
        · rw [he]
          exact ⟨rfl, fun data => by cases e <;> nofun⟩

theorem handle_cases (h : ctl.Legible) (seats : List (Seat S))
    (hsame : ∀ before request', ctl.Passes before request request' → request' = request) :
    (∃ before seat after, ctl.Reaches seats request before seat after request ∧
      (ctl.handle seats request).states =
        before.map Seat.state ++ (ctl.serve seat.state request).2 :: after.map Seat.state ∧
      ∀ data, (ctl.handle seats request).answer = some (.ok data) ↔
        Returns before seat ∧ (ctl.serve seat.state request).1 = some (.ok data)) ∨
    (¬ ∃ before seat after, ctl.Reaches seats request before seat after request) ∧
      (ctl.handle seats request).states = seats.map Seat.state ∧
      ∀ data, (ctl.handle seats request).answer ≠ some (.ok data) := by
  by_cases hreach : ∃ before seat after, ctl.Reaches seats request before seat after request
  · obtain ⟨before, seat, after, hreach⟩ := hreach
    exact .inl ⟨before, seat, after, hreach, handle_of_reaches h hreach⟩
  · refine .inr ⟨hreach, handle_of_not_reaches h fun before seat after request' hreach' => ?_⟩
    cases hsame before request' hreach'.2.1
    exact hreach ⟨before, seat, after, hreach'⟩

theorem Passes.same (hforward : ∀ uri next, ctl.forward uri request = some (.ok next) →
    next = request) (h : ctl.Passes before request request') : request' = request := by
  induction h with
  | here => rfl
  | @on seat before uri request next request' hactive hprimary huri hnext hpass ih =>
    cases hforward uri next hnext
    exact ih hforward

end Control

theorem eq_of_sent {Q : Type} {p : Bool} {request next : Q}
    (h : (if p then some (Except.ok request) else none : Option (Except GenericError Q)) =
      some (.ok next)) : next = request := by
  cases p with
  | false => cases h
  | true =>
    cases h
    rfl

section Stop

variable {jobId : String}

theorem distinct_stopRequestByJobId (jobStatus : StatusMap) :
    ((stopRequestByJobId jobId jobStatus).2.map fun job => (job.1, stopMessage job.2)).Pairwise
      fun a b => ¬ compare a.1 b.1 = .eq := by
  rw [stopRequestByJobId, List.map_map, List.pairwise_map]
  exact Std.TreeMap.distinct_keys_toList.sublist List.filter_sublist

theorem getElem?_stopJob (jobStatus : StatusMap) (id : String) :
    (stopJob jobId jobStatus).1[id]? =
      (getStatusByJobId jobId jobStatus)[id]?.map fun status => stopMessage (some status) := by
  rw [getElem?_getStatusByJobId]
  cases hid : jobStatus[id]?.filter fun _ => startsWith id jobId with
  | some status =>
    obtain ⟨hstatus, hstarts⟩ := Option.filter_eq_some_iff.mp hid
    refine Std.ExtTreeMap.getElem?_ofList_of_mem Std.ReflCmp.compare_self
      (distinct_stopRequestByJobId jobStatus) ?_
    exact List.mem_map.mpr ⟨(id, some status), mem_stopRequestByJobId.mpr ⟨hstarts, hstatus⟩, rfl⟩
  | none =>
    refine Std.ExtTreeMap.getElem?_ofList_of_contains_eq_false ?_
    refine Bool.eq_false_iff.mpr fun hcontains => ?_
    obtain ⟨entry, hentry, rfl⟩ := List.mem_map.mp (List.contains_iff_mem.mp hcontains)
    obtain ⟨job, hjob, rfl⟩ := List.mem_map.mp hentry
    obtain ⟨⟨id, status⟩, hmem, rfl⟩ := List.mem_map.mp hjob
    obtain ⟨hstarts, hstatus⟩ := mem_stopRequestByJobId.mp (List.mem_map_of_mem hmem)
    exact Option.filter_eq_none_iff.mp hid status hstatus hstarts

theorem stopJob_eq {jobStatus : StatusMap} {data : Std.ExtTreeMap String String} :
    (stopJob jobId jobStatus).1 = data ↔ ∀ id : String, data[id]? =
      (getStatusByJobId jobId jobStatus)[id]?.map fun status => stopMessage (some status) := by
  constructor
  · rintro rfl id
    exact getElem?_stopJob jobStatus id
  · intro h
    exact Std.ExtTreeMap.ext_getElem? fun id => by rw [getElem?_stopJob, h]

/-- A node that is asked to stop jobs has the jobs of one table stopped, that of a primary to
which the request comes, or none.  If all replies arrive, it answers with what the jobs were
before; if one is lost, it answers with an error, and they are stopped nevertheless. -/
theorem stop_at_one_primary (failed : Option Value → String) (isUri : String → String → Bool)
    (invalidUri : String → String → String) (order : MapOrder String)
    (seats : List (Seat StatusMap)) (jobId : String) :
    let ctl := stop failed isUri invalidUri order
    let outcome := ctl.handle seats jobId
    (∃ before seat after, ctl.Reaches seats jobId before seat after jobId ∧
      outcome.states = before.map Seat.state ++
        (stopRequestByJobId jobId seat.state).1 :: after.map Seat.state ∧
      (∀ data, outcome.answer = some (.ok data) ↔ Control.Returns before seat ∧
        ∀ id : String, data[id]? = (getStatusByJobId jobId seat.state)[id]?.map
          fun status => stopMessage (some status)) ∧
      (¬ Control.Returns before seat →
        ∃ msg, outcome.answer = some (.error (internal500 msg)))) ∨
    (¬ ∃ before seat after, ctl.Reaches seats jobId before seat after jobId) ∧
      outcome.states = seats.map Seat.state ∧
      ∀ data, outcome.answer ≠ some (.ok data) := by
  intro ctl outcome
  have hlegible : ctl.Legible := ⟨fun _ _ => rfl, fun _ => rfl⟩
  have hforward : ∀ uri next, ctl.forward uri jobId = some (.ok next) → next = jobId :=
    fun uri _ => eq_of_sent (p := isUri uri jobId)
  refine (Control.handle_cases hlegible seats fun _ _ => Control.Passes.same hforward).imp_left ?_
  rintro ⟨before, seat, after, hreach, hstates, hanswer⟩
  refine ⟨before, seat, after, hreach, hstates, fun data => ?_,
    Control.exists_error_of_lost hlegible hreach⟩
  rw [hanswer, ← stopJob_eq]
  change _ ∧ some (Except.ok (stopJob jobId seat.state).1) = some (Except.ok data) ↔ _
  rw [Option.some.injEq, Except.ok.injEq]

end Stop

theorem forward_of_survives {grammar : UriGrammar} {value : Params} {params : JobStatusQueryParams}
    (hread : JobStatusQueryParams.tryFrom value = .ok params)
    (hsurvives : grammar.Survives params) : grammar.forward params = some (.ok params) := by
  cases params with
  | jobId jobId => exact (UriGrammar.forward_jobId_iff jobId).mpr hsurvives
  | pagerOptions offset limit =>
    obtain ⟨hoffset, hlimit, hone⟩ := JobStatusQueryParams.bounds_of_tryFrom hread
    exact UriGrammar.forward_pager hoffset hlimit hone

/-- Asking for statuses changes no table, and what it is answered is what the query is answered
at a primary to which it comes. -/
theorem status_of_one_primary (failed : Option Value → String) (grammar : String → UriGrammar)
    (invalidUri : String → JobStatusQueryParams → String) (order : MapOrder JobStatus)
    (seats : List (Seat StatusMap)) {value : Params} {params : JobStatusQueryParams}
    (hread : JobStatusQueryParams.tryFrom value = .ok params)
    (hsurvives : ∀ uri, (grammar uri).Survives params) :
    let ctl := handleHistoryAll failed grammar invalidUri order
    let outcome := ctl.handle seats params
    outcome.states = seats.map Seat.state ∧
      ∀ page, outcome.answer = some (.ok page) ↔
        ∃ before seat after, ctl.Reaches seats params before seat after params ∧
          Control.Returns before seat ∧ handleGetStatus params seat.state = some page := by
  intro ctl outcome
  have hlegible : ctl.Legible := ⟨jobStatus_faithful, fun _ => rfl⟩
  have hserve : ∀ (seat : Seat StatusMap) page, (ctl.serve seat.state params).1 = some (.ok page) ↔
      handleGetStatus params seat.state = some page := by
    intro seat page
    change (handleGetStatus params seat.state).map Except.ok = _ ↔ _
    cases handleGetStatus params seat.state <;> simp
  have hforward : ∀ uri next, ctl.forward uri params = some (.ok next) → next = params := by
    intro uri next hnext
    cases (forward_of_survives hread (hsurvives uri)).symm.trans hnext
    rfl
  obtain ⟨before, seat, after, hreach, hstates, hanswer⟩ | ⟨hnone, hstates, hanswer⟩ :=
    Control.handle_cases hlegible seats fun _ _ => Control.Passes.same hforward
  · refine ⟨?_, fun page => ⟨fun h => ?_, ?_⟩⟩
    · rw [hstates, hreach.1, List.map_append, List.map_cons]
      rfl
    · obtain ⟨hreturns, hpage⟩ := (hanswer page).mp h
      exact ⟨before, seat, after, hreach, hreturns, (hserve seat page).mp hpage⟩
    · rintro ⟨before, seat, after, hreach, hreturns, hpage⟩
      exact ((Control.handle_of_reaches hlegible hreach).2 page).mpr
        ⟨hreturns, (hserve seat page).mpr hpage⟩
  · refine ⟨hstates, fun page => ⟨fun h => absurd h (hanswer page), ?_⟩⟩
    rintro ⟨before, seat, after, hreach, -⟩
    exact absurd ⟨before, seat, after, hreach⟩ hnone

def relay : List (Seat StatusMap) :=
  [⟨true, false, some [some "http://10.0.0.1:3030"], ∅, true⟩,
    ⟨true, true, none, .ofList [("smoke", JobStatus.inProgress)], true⟩]

theorem status_of_one_primary_relay :
    ∃ page, (handleHistoryAll (fun _ => "") (fun _ => .lenient) (fun _ _ => "")
        ⟨id, fun _ => .refl _⟩).handle relay (.jobId "smoke") =
      ⟨some (.ok page), relay.map Seat.state⟩ := by
  have hsurvives : ∀ _uri : String, UriGrammar.lenient.Survives (.jobId "smoke") := fun _ =>
    ⟨rfl, by decide, by decide, by decide,
      fun h => absurd (FormUrlencoded.percent_mem_of_hasEscape h) (by decide)⟩
  obtain ⟨hstates, hanswer⟩ := status_of_one_primary (fun _ => "") (fun _ => .lenient)
    (fun _ _ => "") ⟨id, fun _ => .refl _⟩ relay (JobStatusQueryParams.tryFrom_single "smoke")
    hsurvives
  have hforward := forward_of_survives (JobStatusQueryParams.tryFrom_single "smoke") (hsurvives "")
  refine ⟨_, congrArg₂ Outcome.mk ((hanswer _).mpr ⟨relay.take 1, relay[1], [], ?_, ?_, rfl⟩)
    hstates⟩
  · exact ⟨rfl, .on rfl rfl rfl hforward .here, rfl, rfl⟩
  · exact fun s hs => by
      rw [List.mem_singleton.mp hs]
      rfl

section Upload

variable {x : Texts} {records : List (Except String HttpReqCsvHelper)} {storage : Storage}
  {data : Std.ExtTreeMap String String}

def Stores (x : Texts) (records : List (Except String HttpReqCsvHelper))
    (storage storage' : Storage) (data : Std.ExtTreeMap String String) : Prop :=
  ∃ table, Holds x (uploaded x records) table ∧
    storage' = { storage with files := storage.files.insert storage.fileName table } ∧
    data = fileUploadSuccessResponse storage.fileName (uploaded x records).length

theorem files_csvStreamToSqlite (name : String) (hname : name ≠ storage.fileName) :
    (csvStreamToSqlite x records storage).2.files[name]? = storage.files[name]? := by
  unfold csvStreamToSqlite
  dsimp only
  have hfiles : (match storage.opened with
      | .ok _ => storage.files.insert storage.fileName
          (csvReaderToSqlite x storage.opened storage.inserts records).2
      | .error _ => storage.files)[name]? = storage.files[name]? := by
    split
    · rw [Std.ExtTreeMap.getElem?_insert, if_neg]
      exact fun h => hname (Std.LawfulEqCmp.eq_of_compare h).symm
    · rfl
  split <;> exact hfiles

theorem csvStreamToSqlite_eq_ok (h : (csvStreamToSqlite x records storage).1 = .ok data) :
    Stores x records storage (csvStreamToSqlite x records storage).2 data := by
  unfold csvStreamToSqlite at h ⊢
  generalize hread : csvReaderToSqlite x storage.opened storage.inserts records = read at h ⊢
  obtain ⟨count | count, table⟩ := read
  · cases h
  · obtain ⟨hopened, hcount, hholds⟩ := Provider.csvReaderToSqlite_ok hread
    cases h
    refine ⟨table, hholds, ?_, by rw [hcount]⟩
    simp only [hopened]

/-- A file that is uploaded to any node is stored once, at a primary to which it comes, or not at
all, if the names that are drawn are new.  An answer names a file which holds the valid records
and no others; a failure may leave some of them in a file that nobody is told of. -/
theorem upload_at_one_primary (failed : Option Value → String) (x : Texts) (isUri : String → Bool)
    (noUri : String → Option GenericError) (order : MapOrder String)
    (seats : List (Seat Storage)) (records : List (Except String HttpReqCsvHelper))
    (hfresh : ∀ seat ∈ seats, seat.state.fileName ∉ seat.state.files) :
    let ctl := handleFileUpload failed x isUri noUri order
    let outcome := ctl.handle seats records
    (∃ before seat after, ctl.Reaches seats records before seat after records ∧
      let (result, storage) := csvStreamToSqlite x records seat.state
      outcome.states = before.map Seat.state ++ storage :: after.map Seat.state ∧
      (∀ name, name ≠ seat.state.fileName → storage.files[name]? = seat.state.files[name]?) ∧
      (∀ name ∈ seat.state.files, storage.files[name]? = seat.state.files[name]?) ∧
      ∀ data, outcome.answer = some (.ok data) ↔ Control.Returns before seat ∧
        result = .ok data ∧ Stores x records seat.state storage data) ∨
    (¬ ∃ before seat after, ctl.Reaches seats records before seat after records) ∧
      outcome.states = seats.map Seat.state ∧
      ∀ data, outcome.answer ≠ some (.ok data) := by
  intro ctl outcome
  have hlegible : ctl.Legible := ⟨fun _ _ => rfl, fun _ => rfl⟩
  have hforward : ∀ uri next, ctl.forward uri records = some (.ok next) → next = records :=
    fun uri _ => eq_of_sent (p := isUri uri)
  refine (Control.handle_cases hlegible seats fun _ _ => Control.Passes.same hforward).imp_left ?_
  rintro ⟨before, seat, after, hreach, hstates, hanswer⟩
  have hnew : seat.state.fileName ∉ seat.state.files := hfresh seat (by simp [hreach.1])
  refine ⟨before, seat, after, hreach, hstates, files_csvStreamToSqlite, fun name hname => ?_,
    fun data => ?_⟩
  · refine files_csvStreamToSqlite name ?_
    rintro rfl
    exact hnew hname
  rw [hanswer]
  change _ ∧ some (csvStreamToSqlite x records seat.state).1 = some (.ok data) ↔ _
  rw [Option.some.injEq]
  exact and_congr_right fun _ => ⟨fun h => ⟨h, csvStreamToSqlite_eq_ok h⟩, And.left⟩

def emptyDirectory (fileName : String) : Storage := ⟨∅, fileName, .ok (), fun _ => .ok ()⟩

def uploadRelay : List (Seat Storage) :=
  [⟨true, false, some [some "http://10.0.0.1:3030"], emptyDirectory "a", true⟩,
    ⟨true, true, none, emptyDirectory "b", true⟩]

theorem upload_at_one_primary_relay :
    ((handleFileUpload (fun _ => "") Provider.plain (fun _ => true) (fun _ => none)
        ⟨id, fun _ => .refl _⟩).handle uploadRelay Provider.fiveLines).answer =
      some (.ok (fileUploadSuccessResponse "b" 3)) := by
  have hfresh : ∀ seat ∈ uploadRelay, seat.state.fileName ∉ seat.state.files :=
    List.forall_mem_cons.mpr ⟨Std.ExtTreeMap.not_mem_empty,
      List.forall_mem_singleton.mpr Std.ExtTreeMap.not_mem_empty⟩
  have hpassed := upload_at_one_primary (fun _ => "") Provider.plain (fun _ => true)
    (fun _ => none) ⟨id, fun _ => .refl _⟩ uploadRelay Provider.fiveLines hfresh
  obtain ⟨before, seat, after, hreach, hrest⟩ | ⟨hnone, -⟩ := hpassed
  · obtain ⟨-, -, -, hanswer⟩ := hrest
    obtain ⟨hseats, -, -, hprimary⟩ := hreach
    match before with
    | [] =>
      cases hseats
      cases hprimary
    | [s] =>
      cases hseats
      refine (hanswer _).mpr ⟨?_, rfl, csvStreamToSqlite_eq_ok rfl⟩
      exact fun s hs => by
        rw [List.mem_singleton.mp hs]
    | _ :: _ :: _ => simp [uploadRelay] at hseats
  · exact absurd ⟨uploadRelay.take 1, uploadRelay[1], [], rfl, .on rfl rfl rfl rfl .here, rfl, rfl⟩
      hnone

end Upload

end Overload.Cluster
