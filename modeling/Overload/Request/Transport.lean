import Overload.Pool.QueuePool
import Overload.Request.Spec

namespace Overload.Transport

open Json (Value)
open Pool (ConnectionKeepAlive)
open Request Serde

def nonZeroU32 : Codec Host {n : UInt32 // n ≠ 0} :=
  u32.tryFrom (fun _ n => if h : n ≠ 0 then some ⟨n, h⟩ else none) Subtype.val

theorem nonZeroU32_faithful : nonZeroU32.Faithful := fun n =>
  Codec.settled_tryFrom (u32_faithful _) fun _ => dif_pos n.2

def connectionKeepAlive : Codec Host ConnectionKeepAlive :=
  .record (Fields.build (fun ttl (most : {n : UInt32 // n ≠ 0}) => .mk ttl most.1 most.2)
    |>.field "ttl" u32 ConnectionKeepAlive.ttl
    |>.field "maxRequestPerConnection" nonZeroU32
      (fun keepAlive => ⟨keepAlive.maxRequestPerConnection, keepAlive.nonzero⟩))

theorem u32Max_ne_zero : (0xffffffff : UInt32) ≠ 0 := by decide

def defaultConnectionKeepAlive : ConnectionKeepAlive where
  ttl := 0xffffffff
  maxRequestPerConnection := 0xffffffff
  nonzero := u32Max_ne_zero

theorem connectionKeepAlive_faithful : connectionKeepAlive.Faithful := fun _ =>
  Codec.settled_record (show ["ttl", "maxRequestPerConnection"].Nodup by decide)
    (Fields.settled_build _ |>.field (u32_faithful _) |>.field (nonZeroU32_faithful _))

inductive LoadGenerationMode
  | batch (batchSize : {n : UInt64 // 1 ≤ n ∧ n ≤ 0xffffffffffffffff})
  | immediate
  deriving DecidableEq, Repr

def batch : Codec Host {n : UInt64 // 1 ≤ n ∧ n ≤ 0xffffffffffffffff} :=
  .record (Fields.build id |>.field "batchSize" (.within 1 0xffffffffffffffff) id)

def loadGenerationMode : Codec Host LoadGenerationMode where
  encode
    | .batch batchSize => tagged "batch" (batch.encode batchSize)
    | .immediate => .string "immediate"
  decode host v :=
    if isUnit "immediate" v then some .immediate
    else do
      match ← untag v with
      | ("batch", v) => (batch.decode host v).map .batch
      | _ => none

theorem loadGenerationMode_faithful : loadGenerationMode.Faithful := by
  intro mode
  cases mode with
  | batch batchSize =>
    have hbatch : batch.Settled batchSize := Codec.settled_record (by decide)
      (Fields.settled_build _ |>.field (Codec.within_faithful _ _ _))
    refine hbatch.variant rfl fun host v => ?_
    change (if isUnit "immediate" (tagged "batch" v) then _ else _) = _
    rw [isUnit_tagged (by decide)]
    rfl
  | immediate => exact fun _ => rfl

variable (x : Externals)

structure JsonPath where
  path : String
  inner : x.CompiledPath
  compiled : x.compilePath path = some inner

def JsonPath.tryFrom (path : String) : Option (JsonPath x) :=
  match h : x.compilePath path with
  | some inner => some ⟨path, inner, h⟩
  | none => none

abbrev SegmentNumber := {n : UInt64 // 1 ≤ n ∧ n ≤ 0xff}

inductive Expectation
  | requestPath (segment : SegmentNumber)
  | requestQueryParam (name : String)
  | requestBody (path : JsonPath x)
  | constant (value : Value)

inductive Actual
  | fromJsonResponse (path : JsonPath x)
  | constant (value : Value)

structure Assertion where
  id : UInt32
  expectation : Expectation x
  actual : Actual x

structure ResponseAssertion where
  simpleAssertions : Option (List (Assertion x))
  luaAssertion : Option (List String)

def jsonPathShadowType : Codec Host String :=
  .record (Fields.build id |>.field "path" .string id)

def jsonPath : Codec Host (JsonPath x) :=
  jsonPathShadowType.tryFrom (fun _ path => JsonPath.tryFrom x path) JsonPath.path

def segmentNumber : Codec Host SegmentNumber := .within 1 0xff

def expectation : Codec Host (Expectation x) where
  encode
    | .requestPath segment => tagged "RequestPath" (segmentNumber.encode segment)
    | .requestQueryParam name => tagged "RequestQueryParam" (.string name)
    | .requestBody path => tagged "RequestBody" ((jsonPath x).encode path)
    | .constant value => tagged "Constant" value
  decode host v := do
    match ← untag v with
    | ("RequestPath", v) => (segmentNumber.decode host v).map .requestPath
    | ("RequestQueryParam", v) => (Codec.string.decode host v).map .requestQueryParam
    | ("RequestBody", v) => ((jsonPath x).decode host v).map .requestBody
    | ("Constant", v) => (Codec.value.decode host v).map .constant
    | _ => none

def actual : Codec Host (Actual x) where
  encode
    | .fromJsonResponse path => tagged "FromJsonResponse" ((jsonPath x).encode path)
    | .constant value => tagged "Constant" value
  decode host v := do
    match ← untag v with
    | ("FromJsonResponse", v) => ((jsonPath x).decode host v).map .fromJsonResponse
    | ("Constant", v) => (Codec.value.decode host v).map .constant
    | _ => none

def assertion : Codec Host (Assertion x) :=
  .record (Fields.build Assertion.mk
    |>.field "id" u32 Assertion.id
    |>.field "expectation" (expectation x) Assertion.expectation
    |>.field "actual" (actual x) Assertion.actual)

def responseAssertion : Codec Host (ResponseAssertion x) :=
  .record (Fields.build ResponseAssertion.mk
    |>.fieldOption "simpleAssertions" ((assertion x).list fun host _ => host)
      ResponseAssertion.simpleAssertions
    |>.fieldOption "luaAssertion" (Codec.string.list fun host _ => host)
      ResponseAssertion.luaAssertion)

theorem JsonPath.tryFrom_path (path : JsonPath x) : JsonPath.tryFrom x path.path = some path := by
  obtain ⟨path, inner, compiled⟩ := path
  rw [tryFrom]
  split
  · rename_i inner' h
    cases compiled.symm.trans h
    rfl
  · rename_i h
    exact nomatch compiled.symm.trans h

theorem jsonPath_faithful : (jsonPath x).Faithful := fun path =>
  Codec.settled_tryFrom
    (Codec.settled_record (show ["path"].Nodup by decide)
      (Fields.settled_build _ |>.field (Codec.string_faithful _)))
    fun _ => JsonPath.tryFrom_path x path

theorem expectation_faithful : (expectation x).Faithful
  | .requestPath segment => (Codec.within_faithful 1 0xff segment).variant rfl fun _ _ => rfl
  | .requestQueryParam name => (Codec.string_faithful name).variant rfl fun _ _ => rfl
  | .requestBody path => (jsonPath_faithful x path).variant rfl fun _ _ => rfl
  | .constant value => (Codec.value_faithful value).variant rfl fun _ _ => rfl

theorem actual_faithful : (actual x).Faithful
  | .fromJsonResponse path => (jsonPath_faithful x path).variant rfl fun _ _ => rfl
  | .constant value => (Codec.value_faithful value).variant rfl fun _ _ => rfl

theorem assertion_faithful : (assertion x).Faithful := fun _ =>
  Codec.settled_record (show ["id", "expectation", "actual"].Nodup by decide)
    (Fields.settled_build _
      |>.field (u32_faithful _)
      |>.field (expectation_faithful x _)
      |>.field (actual_faithful x _))

theorem responseAssertion_faithful : (responseAssertion x).Faithful := by
  intro assertions
  have hsimple : ((assertion x).list fun host _ => host).option.Settled
      assertions.simpleAssertions :=
    Codec.option_faithful
      (fun _ => Codec.settled_list fun _ _ => assertion_faithful x _) (fun _ => nofun) _
  have hlua : ((Codec.string : Codec Host String).list fun host _ => host).option.Settled
      assertions.luaAssertion :=
    Codec.option_faithful
      (fun _ => Codec.settled_list fun _ _ => Codec.string_faithful _) (fun _ => nofun) _
  exact Codec.settled_record (show ["simpleAssertions", "luaAssertion"].Nodup by decide)
    (Fields.settled_build _ |>.fieldOption hsimple |>.fieldOption hlua)

structure RequestShadow where
  name : Option String
  duration : UInt32
  target : Target
  req : RequestSpecEnum x
  qps : RateSpecEnum x.F32
  concurrentConnection : ConcurrentConnectionRateSpec x.F32
  connectionKeepAlive : ConnectionKeepAlive
  histogramBuckets : List x.F64
  responseAssertion : Option (ResponseAssertion x)
  generationMode : LoadGenerationMode

/-- A request has the fields of its shadow; the host header has been seen to. -/
structure Request extends RequestShadow x where
  hasHost : req.HasHost x

def Request.from (value : RequestShadow x) : Request x where
  toRequestShadow := { value with req := value.req.withHost x value.target }
  hasHost := value.req.hasHost_withHost x value.target

def defaultHistogramBucket : List x.F64 := [20, 50, 100, 300, 700, 1100].map x.f64OfNat

def requestShadow : Codec Host (RequestShadow x) :=
  .record (Fields.build RequestShadow.mk
    |>.fieldOption "name" .string RequestShadow.name
    |>.field "duration" u32 RequestShadow.duration
    |>.field "target" target RequestShadow.target
    |>.field "req" (requestSpecEnum x) RequestShadow.req
    |>.field "qps" (rateSpecEnum x.f32) RequestShadow.qps
    |>.fieldOr "concurrentConnection" (concurrentConnectionRateSpec x.f32)
      RequestShadow.concurrentConnection (fun _ => some (.elastic .default))
    |>.fieldOr "connectionKeepAlive" connectionKeepAlive RequestShadow.connectionKeepAlive
      (fun _ => some defaultConnectionKeepAlive)
    |>.fieldOr "histogramBuckets" (x.f64.list fun host _ => host) RequestShadow.histogramBuckets
      (fun _ => some (defaultHistogramBucket x))
    |>.fieldOption "responseAssertion" (responseAssertion x) RequestShadow.responseAssertion
    |>.fieldOr "generationMode" loadGenerationMode RequestShadow.generationMode
      (fun _ => some .immediate))

def request : Codec Host (Request x) :=
  (requestShadow x).tryFrom (fun _ value => some (Request.from x value)) Request.toRequestShadow

theorem withoutSchema_withHost {spec : RequestSpecEnum x} {target : Target}
    (h : (spec.withHost x target).WithoutSchema x) : spec.WithoutSchema x := by
  cases spec <;> exact h

theorem settled_requestShadow {value : RequestShadow x}
    (hreq : (requestSpecEnum x).Settled value.req)
    (hqps : (rateSpecEnum x.f32).Settled value.qps)
    (hconnection : (concurrentConnectionRateSpec x.f32).Settled value.concurrentConnection) :
    (requestShadow x).Settled value := by
  have hbuckets : (x.f64.list fun host _ => host).Settled value.histogramBuckets :=
    Codec.settled_list fun _ _ => x.f64_faithful _
  have hassertion : (responseAssertion x).option.Settled value.responseAssertion :=
    Codec.option_faithful (responseAssertion_faithful x) (fun _ => nofun) _
  exact Codec.settled_record
    (show ["name", "duration", "target", "req", "qps", "concurrentConnection",
      "connectionKeepAlive", "histogramBuckets", "responseAssertion", "generationMode"].Nodup
      by decide)
    (Fields.settled_build _
      |>.fieldOption (optionString_faithful value.name)
      |>.field (u32_faithful _)
      |>.field (target_faithful _)
      |>.field hreq
      |>.field hqps
      |>.fieldOr hconnection
      |>.fieldOr (connectionKeepAlive_faithful _)
      |>.fieldOr hbuckets
      |>.fieldOption hassertion
      |>.fieldOr (loadGenerationMode_faithful _))

theorem reads_requestShadow {host : Host} {v : Value} {value : RequestShadow x}
    (h : (requestShadow x).decode host v = some value) :
    (value.req.WithoutSchema x →
        ∀ target, (requestSpecEnum x).Settled (value.req.withHost x target)) ∧
      (rateSpecEnum x.f32).Settled value.qps ∧
      (concurrentConnectionRateSpec x.f32).Settled value.concurrentConnection := by
  refine Codec.reads_record (P := fun value => (value.req.WithoutSchema x →
      ∀ target, (requestSpecEnum x).Settled (value.req.withHost x target)) ∧
    (rateSpecEnum x.f32).Settled value.qps ∧
    (concurrentConnectionRateSpec x.f32).Settled value.concurrentConnection) ?_ host v value h
  refine .pass <| .pass <| .pass <| .pass <|
    .fieldOr (concurrentConnectionRateSpec_lossless x.f32_faithful)
      (fun _ _ hdefault => Option.some.inj hdefault ▸ settled_defaultConcurrentConnection) <|
    .field (rateSpecEnum_lossless x.f32_faithful) <|
    .field (fun _ _ _ hreq hschema => settled_withHost x hreq hschema) <|
    .pass <| .pass <| .pass <| Fields.reads_build ?_
  intro _ _ _ req hreq qps hqps connection hconnection
  intros
  exact ⟨hreq, hqps, hconnection⟩

theorem Request.from_toRequestShadow (r : Request x) :
    Request.from x r.toRequestShadow = r := by
  obtain ⟨value, hasHost⟩ := r
  have hreq := RequestSpecEnum.withHost_of_hasHost x hasHost value.target
  simp only [Request.from, hreq]

theorem settled_request {host : Host} {v : Value} {r : Request x}
    (h : (request x).decode host v = some r) (hschema : r.req.WithoutSchema x) :
    (request x).Settled r := by
  obtain ⟨value, hvalue, hr⟩ := Option.bind_eq_some_iff.mp h
  cases hr
  obtain ⟨hreq, hqps, hconnection⟩ := reads_requestShadow x hvalue
  refine Codec.settled_tryFrom ?_ fun _ => congrArg some (Request.from_toRequestShadow x _)
  exact settled_requestShadow x (hreq (withoutSchema_withHost x hschema) value.target) hqps
    hconnection

def Request.reset (r : Request x) : Request x where
  toRequestShadow :=
    { r.toRequestShadow with
      req := r.req.reset x
      qps := r.qps.reset
      concurrentConnection := r.concurrentConnection.reset }
  hasHost := r.req.hasHost_reset x r.hasHost

theorem requestShadow_encode (value : RequestShadow x) :
    (requestShadow x).encode value = .object
      [("name", optionString.encode value.name),
        ("duration", u32.encode value.duration),
        ("target", target.encode value.target),
        ("req", (requestSpecEnum x).encode value.req),
        ("qps", (rateSpecEnum x.f32).encode value.qps),
        ("concurrentConnection",
          (concurrentConnectionRateSpec x.f32).encode value.concurrentConnection),
        ("connectionKeepAlive", connectionKeepAlive.encode value.connectionKeepAlive),
        ("histogramBuckets", (x.f64.list fun host _ => host).encode value.histogramBuckets),
        ("responseAssertion", (responseAssertion x).option.encode value.responseAssertion),
        ("generationMode", loadGenerationMode.encode value.generationMode)] := rfl

theorem request_encode_reset (r : Request x) :
    (request x).encode (r.reset x) = (request x).encode r := by
  change (requestShadow x).encode (r.reset x).toRequestShadow =
    (requestShadow x).encode r.toRequestShadow
  rw [requestShadow_encode, requestShadow_encode, Request.reset, requestSpecEnum_encode_reset,
    rateSpecEnum_encode_reset, concurrentConnectionRateSpec_encode_reset]

/-- A stay at some host, where the request runs, and the reading of what that host sends. -/
structure Hop where
  use : Request x → Request x
  runtimeOnly : ∀ r, (use r).reset x = r.reset x
  receiver : Host

def Hop.carry (hop : Hop x) (r : Request x) : Option (Request x) :=
  (request x).decode hop.receiver ((request x).encode (hop.use r))

/-- Whatever route a request takes after it was first read, it arrives as it was read. -/
theorem transport_lossless {host : Host} {document : Value} {r : Request x}
    (h : (request x).decode host document = some r) (hschema : r.req.WithoutSchema x)
    (hops : List (Hop x)) : hops.foldlM (fun r hop => hop.carry x r) r = some r := by
  refine (settled_request x h hschema).hops Hop.receiver Hop.use (fun hop => ?_) hops
  rw [← request_encode_reset, hop.runtimeOnly, request_encode_reset]

def plainExternals : Externals where
  F32 := UInt32
  F64 := UInt32
  Schema := Value
  Ast := String
  CompiledPath := String
  f32 := u32
  f32_faithful := u32_faithful
  f64 := u32
  f64_faithful := u32_faithful
  f64OfNat := UInt32.ofNat
  schema := .value
  compile := .ok
  compilePath := some
  order := ⟨id, fun _ => .refl _⟩

def fileDocument : Value :=
  .object
    [("duration", .number (.posInt 10)),
      ("target", .object
        [("host", .string "example"), ("port", .number (.posInt 80)),
          ("protocol", .string "HTTP")]),
      ("req", tagged "RequestFile" (.object [("file_name", .string "load.csv")])),
      ("qps", tagged "ConstantRate" (.object [("countPerSec", .number (.posInt 5))]))]

theorem transport_lossless_file :
    ∃ r, (request plainExternals).decode ⟨some "data", fun _ => ""⟩ fileDocument = some r ∧
      r.req = .requestFile ⟨"/data/load.sqlite", false, 2147483647⟩ ∧
      ∀ hops : List (Hop plainExternals),
        hops.foldlM (fun r hop => hop.carry plainExternals r) r = some r := by
  have hread : (request plainExternals).decode ⟨some "data", fun _ => ""⟩ fileDocument = some _ :=
    rfl
  exact ⟨_, hread, rfl, transport_lossless plainExternals hread trivial⟩

end Overload.Transport
