import Overload.Datagen.Template
import Overload.Path
import Overload.Request.RateSpec
import Overload.Request.UrlParam
import Overload.Split.RequestFile

/-! Request specifications (`request_specs.rs`) and how they are read and written.  What a
decoding hook rewrites is rewritten once: file names are made absolute, templates compiled,
and what only a running request uses is reset. -/

namespace Overload.Request

open Json (Value)
open Serde
open Split (SplitRequestFile defaultUsizeMax)

/-- What other crates bring: floating-point numbers, whose codecs are faithful, the schemas
of random data, the compilers of expressions and of JSON paths, and the order in which a
hash map is walked. -/
structure Externals where
  F32 : Type
  F64 : Type
  Schema : Type
  Ast : Type
  CompiledPath : Type
  f32 : Codec Host F32
  f32_faithful : f32.Faithful
  f64 : Codec Host F64
  f64_faithful : f64.Faithful
  f64OfNat : Nat → F64
  schema : Codec Host Schema
  compile : String → Except String Ast
  compilePath : String → Option CompiledPath
  order : MapOrder String

variable (x : Externals)

abbrev Headers := Std.ExtTreeMap String String

def headers : Codec Host Headers := Codec.string.map x.order

theorem headers_faithful : (headers x).Faithful :=
  Codec.map_faithful x.order Codec.string_faithful

def optionString : Codec Host (Option String) := .option .string

theorem optionString_faithful : optionString.Faithful :=
  Codec.option_faithful Codec.string_faithful fun _ => nofun

def isMethodChar (c : Char) : Bool := c.isAlphanum || "!#$%&'*+-.^_`|~".toList.contains c

def isMethod (text : String) : Bool := !text.isEmpty && text.toList.all isMethodChar

structure Method where
  text : String
  valid : isMethod text = true
  deriving DecidableEq, Repr

def Method.fromStr (text : String) : Option Method :=
  if h : isMethod text = true then some ⟨text, h⟩ else none

def method : Codec Host Method :=
  Codec.string.tryFrom (fun _ text => Method.fromStr text) Method.text

theorem method_faithful : method.Faithful := fun m =>
  Codec.settled_tryFrom (Codec.string_faithful _) fun _ => dif_pos m.valid

theorem isMethod_get : isMethod "GET" = true := by decide

structure HttpReq where
  id : String
  method : Method
  url : String
  body : Option String
  headers : Headers

structure RequestList where
  data : List HttpReq

def httpReq : Codec Host HttpReq :=
  .record (Fields.build HttpReq.mk
    |>.fieldOr "id" .string HttpReq.id (fun host => some (host.uuid 0))
    |>.field "method" method HttpReq.method
    |>.field "url" .string HttpReq.url
    |>.fieldOption "body" .string HttpReq.body
    |>.fieldOr "headers" (headers x) HttpReq.headers (fun _ => some ∅))

def requestList : Codec Host RequestList :=
  .record (Fields.build RequestList.mk
    |>.field "data" ((httpReq x).list Host.element) RequestList.data)

theorem httpReq_faithful : (httpReq x).Faithful := fun r =>
  Codec.settled_record (show ["id", "method", "url", "body", "headers"].Nodup by decide)
    (Fields.settled_build _
      |>.fieldOr (Codec.string_faithful _)
      |>.field (method_faithful _)
      |>.field (Codec.string_faithful _)
      |>.fieldOption (optionString_faithful r.body)
      |>.fieldOr (headers_faithful x _))

theorem requestList_faithful : (requestList x).Faithful := fun _ =>
  Codec.settled_record (show ["data"].Nodup by decide)
    (Fields.settled_build _ |>.field (Codec.settled_list fun _ _ => httpReq_faithful x _))

def dataDirPath (host : Host) : List Char :=
  match host.dataDir with
  | some env => Path.join "/".toList env.toList
  | none => "/tmp".toList

def fileNameDeserializer (host : Host) (fileName : String) : String :=
  .ofList (Path.setExtension (Path.join (dataDirPath host) fileName.toList) "sqlite".toList)

theorem isAbsolute_dataDirPath (host : Host) : Path.isAbsolute (dataDirPath host) := by
  rw [dataDirPath]
  split
  · exact Path.isAbsolute_join rfl
  · rfl

theorem fileNameDeserializer_again (host host' : Host) (fileName : String) :
    fileNameDeserializer host' (fileNameDeserializer host fileName) =
      fileNameDeserializer host fileName := by
  have habsolute : Path.isAbsolute (Path.setExtension
      (Path.join (dataDirPath host) fileName.toList) "sqlite".toList) :=
    Path.isAbsolute_setExtension (Path.isAbsolute_join (isAbsolute_dataDirPath host))
  rw [fileNameDeserializer, fileNameDeserializer, String.toList_ofList,
    Path.join_of_isAbsolute habsolute,
    Path.setExtension_setExtension (by decide) (by decide) (by decide)]

def fileName : Codec Host String :=
  Codec.string.tryFrom (fun host name => some (fileNameDeserializer host name)) id

theorem fileName_lossless : fileName.Lossless := by
  intro host v name hname
  obtain ⟨given, -, hname⟩ := Option.bind_eq_some_iff.mp hname
  cases hname
  refine Codec.settled_tryFrom (Codec.string_faithful _) fun host' => ?_
  exact congrArg some (fileNameDeserializer_again host host' given)

def usize : Codec Host Nat := .uint UInt64.ofNat fun n => some n.toNat

theorem usize_lossless : usize.Lossless := by
  refine Codec.uint_lossless fun n m hm => ?_
  cases hm
  rw [UInt64.ofNat_toNat]

structure RequestFile where
  fileName : String
  inner : Bool
  size : Nat
  deriving DecidableEq, Repr

def requestFile : Codec Host RequestFile :=
  .record (Fields.build RequestFile.mk
    |>.field "file_name" fileName RequestFile.fileName
    |>.skip false
    |>.skip defaultUsizeMax)

def defaultSplitRange : Nat := 0

def splitRequestFile : Codec Host SplitRequestFile :=
  .record (Fields.build SplitRequestFile.mk
    |>.field "file_name" fileName SplitRequestFile.fileName
    |>.skip false
    |>.skip defaultUsizeMax
    |>.fieldOr "range_start_inclusive" usize SplitRequestFile.rangeStartInclusive
      (fun _ => some defaultSplitRange)
    |>.fieldOr "range_end_inclusive" usize SplitRequestFile.rangeEndInclusive
      (fun _ => some defaultSplitRange)
    |>.fieldOr "next_read_cursor" usize SplitRequestFile.nextReadCursor
      (fun _ => some defaultSplitRange))

theorem requestFile_lossless : requestFile.Lossless := by
  refine Codec.record_lossless ?_
  refine .skip <| .skip <| .field fileName_lossless <| Fields.reads_build ?_
  intro name hname
  exact Codec.settled_record (show ["file_name"].Nodup by decide)
    (Fields.settled_build _ |>.field hname |>.skip _ |>.skip _)

theorem splitRequestFile_lossless : splitRequestFile.Lossless := by
  have hdefault : ∀ (_ : Host) n, some defaultSplitRange = some n → usize.Settled n := by
    rintro _ _ ⟨⟩ _
    rfl
  refine Codec.record_lossless ?_
  refine .fieldOr usize_lossless hdefault <| .fieldOr usize_lossless hdefault <|
    .fieldOr usize_lossless hdefault <| .skip <| .skip <| .field fileName_lossless <|
    Fields.reads_build ?_
  intro name hname start hstart stop hstop cursor hcursor
  exact Codec.settled_record
    (show ["file_name", "range_start_inclusive", "range_end_inclusive",
      "next_read_cursor"].Nodup by decide)
    (Fields.settled_build _ |>.field hname |>.skip _ |>.skip _ |>.fieldOr hstart
      |>.fieldOr hstop |>.fieldOr hcursor)

structure RandomDataRequest where
  init : Bool
  method : Method
  url : String
  urlParamPos : Option (List UrlParam)
  headers : Headers
  bodySchema : Option x.Schema
  uriParamSchema : Option x.Schema

def randomDataRequest : Codec Host (RandomDataRequest x) :=
  .record (Fields.build RandomDataRequest.mk
    |>.skip false
    |>.field "method" method RandomDataRequest.method
    |>.field "url" .string RandomDataRequest.url
    |>.skip none
    |>.fieldOr "headers" (headers x) RandomDataRequest.headers (fun _ => some ∅)
    |>.fieldOption "bodySchema" x.schema RandomDataRequest.bodySchema
    |>.fieldOption "uriParamSchema" x.schema RandomDataRequest.uriParamSchema)

theorem settled_randomDataRequest {host : Host} {v : Value} {r : RandomDataRequest x}
    (h : (randomDataRequest x).decode host v = some r) (hbody : r.bodySchema = none)
    (huri : r.uriParamSchema = none) (given : Headers) :
    (randomDataRequest x).Settled { r with headers := given } := by
  have hreset : r.init = false ∧ r.urlParamPos = none := by
    refine Codec.reads_record (P := fun r => r.init = false ∧ r.urlParamPos = none) ?_ host v r h
    refine .pass <| .pass <| .pass <| .skip <| .pass <| .pass <| .skip <| Fields.reads_build ?_
    intros
    exact ⟨rfl, rfl⟩
  obtain ⟨init, method, url, urlParamPos, headers, bodySchema, uriParamSchema⟩ := r
  obtain ⟨hinit, hpos⟩ := hreset
  dsimp only at hinit hpos hbody huri
  subst hinit hpos hbody huri
  exact Codec.settled_record
    (show ["method", "url", "headers", "bodySchema", "uriParamSchema"].Nodup by decide)
    (Fields.settled_build _
      |>.skip _
      |>.field (method_faithful _)
      |>.field (Codec.string_faithful _)
      |>.skip _
      |>.fieldOr (headers_faithful x given)
      |>.fieldOption Codec.settled_none
      |>.fieldOption Codec.settled_none)

def messageValidationErrUrlString : String := "Invalid url - requires string starting with /"

def validateUrlStr (url : String) : Except String Unit :=
  if url.toList.head? = some '/' then .ok () else .error messageValidationErrUrlString

def validateUrlJsonVal : Value → Except String Unit
  | .string url =>
    if Datagen.patternFunction.isMatch url.toList then .ok () else validateUrlStr url
  | _ => .error messageValidationErrUrlString

def templatesOf (json : Value) : Option (Std.TreeMap String x.Ast) :=
  Datagen.unwrapTemplates (Datagen.parseTemplates (Datagen.compileOrMessage x.compile) json)

structure JsonTemplate where
  method : Method
  url : Value
  headers : Headers
  body : Value
  urlTemplate : Std.TreeMap String x.Ast
  bodyTemplate : Std.TreeMap String x.Ast
  valid : validateUrlJsonVal url = .ok ()
  compiledUrl : templatesOf x url = some urlTemplate
  compiledBody : templatesOf x body = some bodyTemplate

structure JsonTemplateRequest where
  method : Method
  url : Value
  headers : Headers
  body : Value

/-- An error names the field it is about; `none` is a panic. -/
def JsonTemplate.tryFrom (value : JsonTemplateRequest) :
    Option (Except (String × String) (JsonTemplate x)) :=
  match hvalid : validateUrlJsonVal value.url with
  | .error message => some (.error ("url", message))
  | .ok () =>
    match hurl : templatesOf x value.url, hbody : templatesOf x value.body with
    | some urlTemplate, some bodyTemplate => some (.ok
      { method := value.method
        url := value.url
        headers := value.headers
        body := value.body
        urlTemplate
        bodyTemplate
        valid := hvalid
        compiledUrl := hurl
        compiledBody := hbody })
    | _, _ => none

def JsonTemplateRequest.from (value : JsonTemplate x) : JsonTemplateRequest where
  method := value.method
  url := value.url
  headers := value.headers
  body := value.body

def defaultBody : Value := .null

def jsonTemplateRequest : Codec Host JsonTemplateRequest :=
  .record (Fields.build JsonTemplateRequest.mk
    |>.field "method" method JsonTemplateRequest.method
    |>.field "url" .value JsonTemplateRequest.url
    |>.field "headers" (headers x) JsonTemplateRequest.headers
    |>.fieldOr "body" .value JsonTemplateRequest.body (fun _ => some defaultBody))

def jsonTemplate : Codec Host (JsonTemplate x) :=
  (jsonTemplateRequest x).tryFrom
    (fun _ value => (JsonTemplate.tryFrom x value).bind Except.toOption)
    (JsonTemplateRequest.from x)

theorem JsonTemplate.tryFrom_from (template : JsonTemplate x) :
    JsonTemplate.tryFrom x (.from x template) = some (.ok template) := by
  obtain ⟨method, url, headers, body, urlTemplate, bodyTemplate, hvalid, hurl, hbody⟩ := template
  rw [tryFrom]
  split
  · rename_i message h
    exact nomatch hvalid.symm.trans h
  · split
    · rename_i hurl' hbody'
      cases hurl.symm.trans hurl'
      cases hbody.symm.trans hbody'
      rfl
    · rename_i hnone
      exact (hnone urlTemplate bodyTemplate hurl hbody).elim

theorem jsonTemplate_faithful : (jsonTemplate x).Faithful := by
  intro template
  refine Codec.settled_tryFrom (Codec.settled_record
    (show ["method", "url", "headers", "body"].Nodup by decide) ?_) fun _ => ?_
  · exact Fields.settled_build _
      |>.field (method_faithful _)
      |>.field (Codec.value_faithful _)
      |>.field (headers_faithful x _)
      |>.fieldOr (Codec.value_faithful _)
  · rw [JsonTemplate.tryFrom_from]
    rfl

inductive RequestSpecEnum
  | requestList (list : RequestList)
  | requestFile (file : RequestFile)
  | splitRequestFile (file : SplitRequestFile)
  | randomDataRequest (req : RandomDataRequest x)
  | jsonTemplateRequest (req : JsonTemplate x)

def requestSpecEnum : Codec Host (RequestSpecEnum x) where
  encode
    | .requestList list => tagged "RequestList" ((requestList x).encode list)
    | .requestFile file => tagged "RequestFile" (requestFile.encode file)
    | .splitRequestFile file => tagged "SplitRequestFile" (splitRequestFile.encode file)
    | .randomDataRequest req => tagged "RandomDataRequest" ((randomDataRequest x).encode req)
    | .jsonTemplateRequest req => tagged "JsonTemplateRequest" ((jsonTemplate x).encode req)
  decode host v := do
    match ← untag v with
    | ("RequestList", v) => ((requestList x).decode host v).map .requestList
    | ("RequestFile", v) => (requestFile.decode host v).map .requestFile
    | ("SplitRequestFile", v) => (splitRequestFile.decode host v).map .splitRequestFile
    | ("RandomDataRequest", v) => ((randomDataRequest x).decode host v).map .randomDataRequest
    | ("JsonTemplateRequest", v) => ((jsonTemplate x).decode host v).map .jsonTemplateRequest
    | _ => none

/-- No request of random data carries a schema. -/
def RequestSpecEnum.WithoutSchema : RequestSpecEnum x → Prop
  | .randomDataRequest req => req.bodySchema = none ∧ req.uriParamSchema = none
  | _ => True

/-- What serde leaves behind of the fields that only a running request uses. -/
def RequestSpecEnum.reset : RequestSpecEnum x → RequestSpecEnum x
  | .requestFile file => .requestFile { file with inner := false, size := defaultUsizeMax }
  | .splitRequestFile file => .splitRequestFile file.received
  | .randomDataRequest req => .randomDataRequest { req with init := false, urlParamPos := none }
  | spec => spec

theorem requestSpecEnum_encode_reset (spec : RequestSpecEnum x) :
    (requestSpecEnum x).encode (spec.reset x) = (requestSpecEnum x).encode spec := by
  cases spec <;> rfl

inductive Scheme
  | http
  deriving DecidableEq, Repr

structure Target where
  host : String
  port : {n : UInt64 // 0 ≤ n ∧ n ≤ 0xffff}
  protocol : Scheme
  deriving DecidableEq, Repr

def scheme : Codec Host Scheme where
  encode
    | .http => .string "HTTP"
  decode _ v := if isUnit "HTTP" v then some .http else none

def target : Codec Host Target :=
  .record (Fields.build Target.mk
    |>.field "host" .string Target.host
    |>.field "port" (.within 0 0xffff) Target.port
    |>.field "protocol" scheme Target.protocol)

theorem scheme_faithful : scheme.Faithful
  | .http => fun _ => rfl

theorem target_faithful : target.Faithful := fun _ =>
  Codec.settled_record (show ["host", "port", "protocol"].Nodup by decide)
    (Fields.settled_build _
      |>.field (Codec.string_faithful _)
      |>.field (Codec.within_faithful _ _ _)
      |>.field (scheme_faithful _))

def isHost (key : String) : Bool := key.toList.map Char.toLower == "host".toList

def validateAndUpdateHostHeader (headers : Headers) (target : Target) : Headers :=
  if headers.keys.any isHost then headers else headers.insert "host" target.host

theorem any_isHost_validateAndUpdateHostHeader (headers : Headers) (target : Target) :
    (validateAndUpdateHostHeader headers target).keys.any isHost = true := by
  rw [validateAndUpdateHostHeader]
  split
  · assumption
  · exact List.any_eq_true.mpr
      ⟨"host", Std.ExtTreeMap.mem_keys.mpr Std.ExtTreeMap.mem_insert_self, rfl⟩

def RequestSpecEnum.HasHost : RequestSpecEnum x → Prop
  | .randomDataRequest req => req.headers.keys.any isHost = true
  | .jsonTemplateRequest req => req.headers.keys.any isHost = true
  | _ => True

def RequestSpecEnum.withHost (target : Target) : RequestSpecEnum x → RequestSpecEnum x
  | .jsonTemplateRequest req =>
    .jsonTemplateRequest { req with headers := validateAndUpdateHostHeader req.headers target }
  | .randomDataRequest req =>
    .randomDataRequest { req with headers := validateAndUpdateHostHeader req.headers target }
  | spec => spec

theorem RequestSpecEnum.hasHost_withHost (spec : RequestSpecEnum x) (target : Target) :
    (spec.withHost x target).HasHost x := by
  cases spec with
  | randomDataRequest req => exact any_isHost_validateAndUpdateHostHeader _ _
  | jsonTemplateRequest req => exact any_isHost_validateAndUpdateHostHeader _ _
  | _ => trivial

theorem RequestSpecEnum.withHost_of_hasHost {spec : RequestSpecEnum x} (h : spec.HasHost x)
    (target : Target) : spec.withHost x target = spec := by
  cases spec with
  | randomDataRequest req =>
    have hheaders : validateAndUpdateHostHeader req.headers target = req.headers := if_pos h
    rw [withHost, hheaders]
  | jsonTemplateRequest req =>
    have hheaders : validateAndUpdateHostHeader req.headers target = req.headers := if_pos h
    rw [withHost, hheaders]
  | _ => rfl

theorem RequestSpecEnum.hasHost_reset {spec : RequestSpecEnum x} (h : spec.HasHost x) :
    (spec.reset x).HasHost x := by
  cases spec <;> exact h

theorem settled_withHost {host : Host} {v : Value} {spec : RequestSpecEnum x}
    (h : (requestSpecEnum x).decode host v = some spec) (hschema : spec.WithoutSchema x)
    (target : Target) : (requestSpecEnum x).Settled (spec.withHost x target) := by
  obtain ⟨⟨tag, w⟩, -, h⟩ := Option.bind_eq_some_iff.mp h
  split at h
  · obtain ⟨list, -, rfl⟩ := Option.map_eq_some_iff.mp h
    exact (requestList_faithful x list).variant rfl fun _ _ => rfl
  · obtain ⟨file, hfile, rfl⟩ := Option.map_eq_some_iff.mp h
    exact (requestFile_lossless _ _ file hfile).variant rfl fun _ _ => rfl
  · obtain ⟨file, hfile, rfl⟩ := Option.map_eq_some_iff.mp h
    exact (splitRequestFile_lossless _ _ file hfile).variant rfl fun _ _ => rfl
  · obtain ⟨req, hreq, rfl⟩ := Option.map_eq_some_iff.mp h
    exact (settled_randomDataRequest x hreq hschema.1 hschema.2 _).variant rfl fun _ _ => rfl
  · obtain ⟨req, -, rfl⟩ := Option.map_eq_some_iff.mp h
    exact (jsonTemplate_faithful x _).variant rfl fun _ _ => rfl
  · cases h

end Overload.Request
