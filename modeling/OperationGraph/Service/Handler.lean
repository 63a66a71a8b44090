import OperationGraph.Event.Basic
import OperationGraph.Graph.Analyze
import OperationGraph.Document.Parser
import OperationGraph.Http.CrossOrigin
import OperationGraph.Http.RequestId
import OperationGraph.Log
import OperationGraph.Service.Cache
import OperationGraph.Service.Fingerprint
import OperationGraph.Service.Reply
import OperationGraph.Service.SchemaSource

/-! # The service

The service answers requests with the graphs of documents. It remembers replies: one is used again
only for the schema it was made for and for a request with the same canonical text, so that a digest
that maps two requests to one key does no harm. A document whose walk is endless gets no reply, and the
request that asks for it no response: its account breaks off, and nothing is remembered of it. -/

namespace OperationGraph

structure ServiceOptions where
  pretty : Bool := false
  /-- The greatest number of bytes of a body; none unless positive. -/
  maxBodyBytes : Int64 := 0
  /-- The origins whose pages may read responses. -/
  origins : List String := []
  /-- The number of replies to remember; none unless positive. -/
  cacheSize : Int := 0

structure AnalysisResult where
  operationType : String := ""
  vertices : Nat := 0
  failure : Option String := none
  reply : Reply
deriving DecidableEq, Repr

/-- A result that is remembered, and what it was made for. -/
structure CachedResult where
  schemaNumber : Nat
  canonical : String
  result : AnalysisResult
deriving Repr

/-- The circumstances of a request: an identifier nobody has used, whether its time is already over,
and how many nanoseconds each analysis takes. -/
structure Circumstances where
  freshId : String
  expired : Bool := false
  elapsed : Int := 0

/-- What is told to others about a request on its way. -/
structure Account where
  events : List Event := []
  logs : List LogRecord := []

def Account.append (a b : Account) : Account :=
  { events := a.events ++ b.events, logs := a.logs ++ b.logs }

instance : Append Account := ⟨Account.append⟩

namespace AnalysisRequest

/-- The type of the operation that is asked for, as far as the document tells. -/
def operationType (r : AnalysisRequest) : String :=
  match Document.parse r.query with
  | .error _ => ""
  | .ok doc => doc.operationType r.operationName

/-- The result of an analysis that was not remembered; there is none if the analysis is endless. -/
def analyze (s : Schema) (r : AnalysisRequest) : Option AnalysisResult :=
  match Document.parse r.query with
  | .error e => some { failure := some e.diagnostic.text, reply := .unparsed e.diagnostic }
  | .ok doc =>
    let operationType := doc.operationType r.operationName
    match OperationGraph.analyze s doc r.operationName r.variableValues with
    | .failed e => some { operationType, failure := some e.message, reply := .failed e }
    | .unfinished => none
    | .finished g =>
      let record := g.record
      some { operationType, vertices := record.vertices.length, reply := .graph record }

end AnalysisRequest

/-- A service with its schema and a memory for results. -/
structure ServiceWith (μ : Type) where
  options : ServiceOptions
  source : SchemaSource
  memory : μ

/-- A service that remembers a bounded number of results. -/
abbrev Service := ServiceWith (Cache UInt64 CachedResult)

def Service.create (options : ServiceOptions) (source : SchemaSource) : Service :=
  { options, source, memory := { capacity := options.cacheSize.toNat } }

namespace ServiceWith

variable {μ : Type}

def replaceSchema (s : ServiceWith μ) (schema : Schema) (generation : Nat) : ServiceWith μ :=
  { s with source := s.source.replace schema generation }

def account (c : Circumstances) (requestId : String) (r : AnalysisRequest) (cached : Bool)
    (a : AnalysisResult) : Account where
  events :=
    [.analysisStarted r.query r.operationName a.operationType,
     .analysisFinished
      { query := r.query, operationName := r.operationName, operationType := a.operationType
        vertices := a.vertices, failure := a.failure, duration := c.elapsed, cached }]
  logs :=
    match a.failure with
    | some e =>
      [{ level := .info, message := "analysis failed",
         fields := [("request_id", .string requestId), ("operation", .string r.operationName),
           ("cached", .bool cached), ("error", .string e)] }]
    | none =>
      [{ level := .debug, message := "analyzed document",
         fields := [("request_id", .string requestId), ("operation", .string r.operationName),
           ("vertices", .int a.vertices), ("cached", .bool cached)] }]

def respond (s : ServiceWith μ) (status : Nat) (headers : Http.Headers) (j : Json) :
    Http.Response where
  status
  headers := headers.set "Content-Type" "application/json; charset=utf-8"
  body := j.document s.options.pretty

variable [Memory μ UInt64 CachedResult]

/-- The result remembered under a key, if it was made for this schema and this request. -/
def remembered? (s : ServiceWith μ) (key : UInt64) (canonical : String) : Option AnalysisResult :=
  match Memory.find? s.memory key with
  | some e =>
    if e.schemaNumber = s.source.number && e.canonical = canonical then some e.result else none
  | none => none

/-- Answers one document, from memory if possible. Of an endless analysis only the start is told. -/
def answer (digest : List Nat → UInt64) (s : ServiceWith μ) (c : Circumstances)
    (requestId : String) (r : AnalysisRequest) : ServiceWith μ × Option Reply × Account :=
  if c.expired then (s, some .timedOut, {})
  else
    let canonical := r.canonical
    let key := AnalysisRequest.key digest s.source.shownGeneration canonical
    let touched := { s with memory := Memory.touch s.memory key }
    match s.remembered? key canonical with
    | some a => (touched, some a.reply, account c requestId r true a)
    | none =>
      match r.analyze s.source.schema with
      | none =>
        (touched, none, { events := [.analysisStarted r.query r.operationName r.operationType] })
      | some a =>
        let e : CachedResult := { schemaNumber := s.source.number, canonical, result := a }
        ({ s with memory := Memory.add touched.memory key e }, some a.reply,
          account c requestId r false a)

/-- Answers documents in turn, up to the first one that gets no reply. -/
def answerAll (digest : List Nat → UInt64) (s : ServiceWith μ) (c : Circumstances)
    (requestId : String) : List AnalysisRequest → ServiceWith μ × Option (List Reply) × Account
  | [] => (s, some [], {})
  | r :: rest =>
    match s.answer digest c requestId r with
    | (s, none, told) => (s, none, told)
    | (s, some reply, told) =>
      let (s, replies, more) := answerAll digest s c requestId rest
      (s, replies.map (reply :: ·), told ++ more)

/-- Deals with a request between its start and its finish. -/
def process (digest : List Nat → UInt64) (s : ServiceWith μ) (c : Circumstances)
    (requestId : String) (r : Http.Request) : ServiceWith μ × Option Http.Response × Account :=
  let headers : Http.Headers := [(Http.requestIdHeader, requestId)]
  let open_ := Http.allowOrigin s.options.origins r headers
  if r.method = "OPTIONS" then (s, some { status := 204, headers := open_ }, {})
  else if r.method ≠ "POST" && r.method ≠ "GET" then
    (s, some (s.respond 405 headers (Reply.badRequest "method not allowed").toJson), {})
  else
    match Submission.ofRequest s.options.maxBodyBytes r with
    | .error e =>
      let log : LogRecord :=
        { level := .info, message := "rejected request"
          fields := [("request_id", .string requestId), ("status", .int e.status),
            ("reason", .string e.message)] }
      (s, some (s.respond e.status headers (Reply.badRequest e.message).toJson), { logs := [log] })
    | .ok (.single q) =>
      let (s, reply, told) := s.answer digest c requestId q
      (s, reply.map fun reply => s.respond 200 open_ reply.toJson, told)
    | .ok (.batch qs) =>
      let (s, replies, told) := s.answerAll digest c requestId qs
      (s, replies.map fun replies => s.respond 200 open_ (.array (replies.map Reply.toJson)), told)

/-- Serves a request. Its start is told too, and its finish if it gets a response. -/
def serve (digest : List Nat → UInt64) (s : ServiceWith μ) (c : Circumstances) (r : Http.Request) :
    ServiceWith μ × Option Http.Response × Account :=
  let requestId := Http.RequestId.ofIncoming c.freshId (r.headers.get Http.requestIdHeader)
  let (s, response, told) := s.process digest c requestId r
  let finish := response.map fun response => Event.requestFinished response.status
  (s, response,
    { told with events := .requestStarted r.method r.target.path :: told.events ++ finish.toList })

end ServiceWith

end OperationGraph
