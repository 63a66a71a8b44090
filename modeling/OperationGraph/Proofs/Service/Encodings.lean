import OperationGraph.Proofs.Service.BodyLimit
import OperationGraph.Proofs.Service.Received

/-! # Three ways to send a document

A document gets the same result whether it is sent in the query of a target, as an object in a body or as
one of several objects in a body, whatever the service remembers (`ServiceWith.serve_encodings`). A
document without a result gets no response, and neither do those that are sent together with it. The
exception is the greatest limit for a body: no room is left for a byte more, and every body is cut off. -/

namespace OperationGraph

/-! ### The three encodings -/

/-- A request sends a document in the query of its target. -/
structure AnalysisRequest.SentInTarget (q : AnalysisRequest) (r : Http.Request) : Prop where
  method : r.method = "GET"
  query : r.target.parameter "query" = q.query
  operationName : r.target.parameter "operationName" = q.operationName
  values : r.target.parameter "variables" = "" ∧ q.variableValues = [] ∨
    AnalysisRequest.variablesOf? (r.target.parameter "variables") = some q.variableValues

/-- A request has a body of the exchange format, within a limit of bytes. -/
structure Http.Request.Posts (limit : Int64) (r : Http.Request) : Prop where
  method : r.method = "POST"
  contentType : Submission.acceptsContentType (r.headers.get "Content-Type") = true
  fits : limit ≤ 0 ∨ (Text.byteLength r.body.toList : Int) ≤ limit.toInt

/-- A request sends a document as an object in its body. -/
structure AnalysisRequest.SentInBody (limit : Int64) (q : AnalysisRequest) (r : Http.Request) : Prop
    extends r.Posts limit where
  decoded : ∃ rest, AnalysisRequest.read? (Incoming.steps r.body.toList) r.body.toList =
    some (q, rest) ∧ Incoming.isEnd rest = true

/-- A request sends documents as objects in a list, which its body begins with. -/
structure AnalysisRequest.SentInBatch (limit : Int64) (qs : List AnalysisRequest) (r : Http.Request) :
    Prop extends r.Posts limit where
  bracket : r.body.toList.head? = some '['
  decoded : ∃ rest, AnalysisRequest.readBatch? (Incoming.steps r.body.toList) r.body.toList =
    some (qs, rest) ∧ Incoming.isEnd rest = true

theorem Submission.readBody_of_fits {limit : Int64} (hlimit : limit ≠ Int64.maxValue) {body : String}
    (h : limit ≤ 0 ∨ (Text.byteLength body.toList : Int) ≤ limit.toInt) :
    readBody limit body = .ok body := by
  rw [readBody_eq hlimit, if_neg]
  rintro ⟨hpos, hlong⟩
  rcases h with h | h
  · exact absurd h (by simpa using hpos)
  · omega

theorem AnalysisRequest.SentInTarget.ofRequest {q : AnalysisRequest} {r : Http.Request}
    (h : q.SentInTarget r) (hne : q.query ≠ "") (limit : Int64) :
    Submission.ofRequest limit r = .ok (.single q) := by
  have htarget : AnalysisRequest.ofTarget r.target = .ok q := by
    simp only [AnalysisRequest.ofTarget, h.query, h.operationName, if_neg hne]
    rcases h.values with ⟨hnone, hempty⟩ | hvalues
    · simp [hnone, ← hempty]
    · have hgiven : r.target.parameter "variables" ≠ "" := by
        intro hnone
        rw [hnone] at hvalues
        cases hvalues
      simp [hgiven, hvalues]
  rw [Submission.ofRequest, if_pos h.method, htarget]
  rfl

theorem Http.Request.Posts.ofRequest {limit : Int64} (hlimit : limit ≠ Int64.maxValue)
    {r : Http.Request} (h : r.Posts limit) :
    Submission.ofRequest limit r = Submission.ofBody r.body := by
  rw [Submission.ofRequest, if_neg (by simp [h.method]), if_pos h.contentType,
    Submission.readBody_of_fits hlimit h.fits]

theorem AnalysisRequest.SentInBody.ofBody {limit : Int64} {q : AnalysisRequest} {r : Http.Request}
    (h : q.SentInBody limit r) (hne : q.query ≠ "") : Submission.ofBody r.body = .ok (.single q) := by
  obtain ⟨rest, hread, hend⟩ := h.decoded
  have hbracket : r.body.toList.head? ≠ some '[' := by
    intro hhead
    obtain ⟨cs, hcs⟩ : ∃ cs, r.body.toList = '[' :: cs := List.head?_eq_some_iff.1 hhead
    rw [hcs] at hread
    cases hread
  simp [Submission.ofBody, hbracket, hread, hend, hne]

theorem AnalysisRequest.SentInBatch.ofBody {limit : Int64} {qs : List AnalysisRequest}
    {r : Http.Request} (h : SentInBatch limit qs r) (hnil : qs ≠ []) (hne : ∀ q ∈ qs, q.query ≠ "") :
    Submission.ofBody r.body = .ok (.batch qs) := by
  obtain ⟨rest, hread, hend⟩ := h.decoded
  have hany : qs.any (·.query = "") = false := by
    simpa using hne
  simp [Submission.ofBody, h.bracket, hread, hend, hnil, hany]

/-! ### Results -/

/-- The result for a document, if it has one. It depends on nothing but the schema. -/
def AnalysisRequest.result? (schema : Schema) (q : AnalysisRequest) : Option Json :=
  (q.analyze schema).map (·.reply.toJson)

/-- A response succeeds and shows an exchange value; where there is no value there is no response. -/
def Http.Shows (pretty : Bool) (response : Option Http.Response) (j : Option Json) : Prop :=
  response.map (fun r => (r.status, r.body)) = j.map fun j => (200, j.document pretty)

theorem Http.Shows.isSome_eq {pretty : Bool} {response : Option Http.Response} {j : Option Json}
    (h : Http.Shows pretty response j) : response.isSome = j.isSome := by
  simpa using congrArg Option.isSome h

/-- If all results are there, they are as many as the documents and in their order. -/
theorem AnalysisRequest.getElem?_of_results {schema : Schema} {qs : List AnalysisRequest}
    {js : List Json} (h : qs.mapM (result? schema) = some js) :
    js.length = qs.length ∧
      ∀ (i : Nat) (q : AnalysisRequest), qs[i]? = some q → js[i]? = q.result? schema := by
  have hmap := mapM_eq_some_iff.1 h
  refine ⟨by simpa using (congrArg List.length hmap).symm, fun i q hq => ?_⟩
  have hi := congrArg (fun results => results[i]?) hmap
  simp only [List.getElem?_map, hq, Option.map_some] at hi
  cases hj : js[i]? with
  | none => simp [hj] at hi
  | some j => simpa [hj] using hi.symm

namespace ServiceWith
variable {μ : Type} [Memory μ UInt64 CachedResult] [LawfulMemory μ]

/-- A request that is accepted gets the result for each of its documents. -/
theorem serve_of_accepted {known : List AnalysisRequest} {s : ServiceWith μ}
    (hk : AnalysisRequest.ToldApart known) (hs : s.Faithful known) (digest : List Nat → UInt64)
    {c : Circumstances} (hc : c.expired = false) {r : Http.Request} {sub : Submission}
    (hsub : s.options.accepted? r = some sub) (hknown : ∀ q ∈ sub.documents, q ∈ known) :
    Http.Shows s.options.pretty (s.serve digest c r).2.1
      ((sub.documents.mapM fun q : AnalysisRequest =>
        (q.analyze s.source.schema).map (·.reply)).map sub.shown) := by
  set requestId := Http.RequestId.ofIncoming c.freshId (r.headers.get Http.requestIdHeader) with hid
  obtain ⟨headers, hprocess⟩ := process_of_accepted digest s c requestId hsub
  obtain ⟨memory, told, hanswer, -, -⟩ := answerAll_spec hk hs digest c requestId hknown
  have hfresh : (fun q : AnalysisRequest => q.freshReply s.source.schema c.expired) =
      fun q => (q.analyze s.source.schema).map (·.reply) := by
    funext q
    simp [AnalysisRequest.freshReply, hc]
  rw [hanswer, hfresh] at hprocess
  simp only [Http.Shows, serve, ← hid, hprocess, Option.map_map]
  rfl

/-- After any requests and reloads, a document gets the same result in each of the three encodings, and
documents that are sent together get their results in their order, each as if it was sent alone. They get
them if each of them has one, which is so if no fragment in them contains itself below a field. -/
theorem serve_encodings (digest : List Nat → UInt64) (s : ServiceWith μ)
    (hempty : ∀ k, Memory.find? s.memory k = none)
    (hlimit : s.options.maxBodyBytes ≠ Int64.maxValue) (past : List Incident)
    (q : AnalysisRequest) (qs : List AnalysisRequest) (i : Nat) (hi : qs[i]? = some q)
    (hne : ∀ q ∈ qs, q.query ≠ "")
    (htold : ∀ q ∈ Incident.askedIn s.options.maxBodyBytes past ++ qs, q.isTold = true)
    (get post batch : Http.Request) (hget : q.SentInTarget get)
    (hpost : q.SentInBody s.options.maxBodyBytes post)
    (hbatch : AnalysisRequest.SentInBatch s.options.maxBodyBytes qs batch)
    (c : Circumstances) (hc : c.expired = false) :
    let served (r : Http.Request) := ((s.after digest past).serve digest c r).2.1
    let schema := (s.source.after past).schema
    let results := qs.mapM (AnalysisRequest.result? schema)
    Http.Shows s.options.pretty (served get) (q.result? schema) ∧
      Http.Shows s.options.pretty (served post) (q.result? schema) ∧
      Http.Shows s.options.pretty (served batch) (results.map Json.array) ∧
      (∀ js, results = some js → js.length = qs.length ∧ js[i]? = q.result? schema) ∧
      ((served batch).isSome ↔ ∀ q ∈ qs, (q.analyze schema).isSome) ∧
      ((∀ q ∈ qs, q.NoFieldCycle) → (served batch).isSome) := by
  intro served schema results
  set limit := s.options.maxBodyBytes with hlimitEq
  have hq : q ∈ qs := List.mem_of_getElem? hi
  have hnil : qs ≠ [] := List.ne_nil_of_mem hq
  -- all documents that were or are asked for are told apart
  obtain ⟨rest, hdecoded, -⟩ := hbatch.decoded
  have hreceived : ∀ q ∈ Incident.askedIn limit past ++ qs, q.IsReceived := by
    intro q hq
    rcases List.mem_append.1 hq with hq | hq
    · obtain ⟨incident, -, hasked⟩ := List.mem_flatMap.1 hq
      cases incident with
      | request c r => exact Submission.isReceived_of_mem_asked hasked
      | reload _ _ => cases hasked
    · exact AnalysisRequest.isReceived_of_readBatch? hdecoded q hq
  have hk := AnalysisRequest.toldApart_of_isReceived hreceived htold
  obtain ⟨hoptions, hsource, hfaithful⟩ := after_spec hk (faithful_of_empty hempty) digest
    fun i hi q hq => List.mem_append_left _ (List.mem_flatMap.2 ⟨i, hi, hq⟩)
  have haccepted {r : Http.Request} {sub : Submission} (hmethod : r.method = "POST" ∨ r.method = "GET")
      (hsub : Submission.ofRequest limit r = .ok sub) :
      (s.after digest past).options.accepted? r = some sub := by
    rw [hoptions, ServiceOptions.accepted?, if_pos hmethod, ← hlimitEq, hsub]
    rfl
  have hsingle (r : Http.Request) (hmethod : r.method = "POST" ∨ r.method = "GET")
      (hsub : Submission.ofRequest limit r = .ok (.single q)) :
      Http.Shows s.options.pretty (served r) (q.result? schema) := by
    have h := serve_of_accepted hk hfaithful digest hc (haccepted hmethod hsub)
      (by simpa [Submission.documents] using .inr hq)
    rw [hoptions, hsource, Submission.documents, List.mapM_cons] at h
    refine h.trans ?_
    rw [AnalysisRequest.result?]
    cases q.analyze schema <;> rfl
  have hfirst := hsingle get (.inr hget.method) (hget.ofRequest (hne q hq) limit)
  have hsecond := hsingle post (.inl hpost.method)
    ((hpost.toPosts.ofRequest hlimit).trans (hpost.ofBody (hne q hq)))
  have hthird : Http.Shows s.options.pretty (served batch) (results.map Json.array) := by
    have h := serve_of_accepted hk hfaithful digest hc
      (haccepted (.inl hbatch.method)
        ((hbatch.toPosts.ofRequest hlimit).trans (hbatch.ofBody hnil hne)))
      fun q hq => List.mem_append_right _ hq
    rw [hoptions, hsource, Submission.documents] at h
    have hresults : results =
        (qs.mapM fun q : AnalysisRequest => (q.analyze schema).map (·.reply)).map
          (List.map Reply.toJson) := by
      rw [map_mapM]
      simp only [Option.map_map]
      rfl
    refine h.trans ?_
    simp only [hresults, Option.map_map]
    rfl
  have hall : (served batch).isSome ↔ ∀ q ∈ qs, (q.analyze schema).isSome := by
    rw [hthird.isSome_eq, Option.isSome_map, isSome_mapM_iff]
    simp only [AnalysisRequest.result?, Option.isSome_map]
  refine ⟨hfirst, hsecond, hthird, fun js hjs => ?_, hall, fun hends => ?_⟩
  · obtain ⟨hlength, heach⟩ := AnalysisRequest.getElem?_of_results hjs
    exact ⟨hlength, heach i q hi⟩
  · exact hall.2 fun q hq => AnalysisRequest.isSome_analyze (hends q hq) schema

end ServiceWith

namespace Encoded

/-- A service that remembers one result, under a limit for bodies. -/
def service (limit : Int64) (schema : Schema) : Service :=
  Service.create { maxBodyBytes := limit, cacheSize := 1 }
    { kind := .versioned, schema, generation := 1 }

def get : Http.Request where
  method := "GET"
  target := { path := "/", query := "query=query($x:Float)%7Bself%7D&variables=%7B%22x%22:1e-7%7D" }

def object (number : String) : String :=
  "\x7b\"query\":\"query($x:Float)\x7bself\x7d\",\"variables\":\x7b\"x\":" ++ number ++ "\x7d\x7d"

def send (body : String) : Http.Request :=
  { method := "POST", target := { path := "/", query := "" }, body }

def post : Http.Request := send (object "0.0000001")

def batch : Http.Request :=
  send ("[\x7b\"query\":\"\x7bme\x7d\"\x7d," ++ object "10e-8" ++ "]")

def value : Binary := .finite false 7555786372591432 (-76)

/-- The document that all three requests send. -/
def document : AnalysisRequest :=
  { query := "query($x:Float)\x7bself\x7d", variableValues := [("x", .float .double value)] }

def parsed : Document where
  operations := [{
    type := .query
    variableDefinitions := [{ name := "x", type := .named "Float" false ⟨"", 1, 10⟩, pos := ⟨"", 1, 7⟩ }]
    selections := [.field { key := "self", name := "self", pos := ⟨"", 1, 17⟩ }]
    pos := ⟨"", 1, 1⟩ }]

theorem parse_document : Document.parse document.query = .ok parsed := rfl

def result : AnalysisResult where
  operationType := "query"
  vertices := 1
  reply := .graph {
    vertices := [{ id := 1, type := "Query", field := "self", name := "self", returnType := "Query"
                   parent := 0, locations := [(1, 17)] }]
    edges := [(1, 0)] }

theorem analyze_document : document.analyze Endless.schema = some result := by
  have hgraph : analyze Endless.schema parsed "" document.variableValues = .finished _ :=
    analyze_of_built rfl (.tree rfl .empty .empty)
  exact AnalysisRequest.analyze_of_finished parse_document hgraph

def isValues (es : Entries) : Bool :=
  match es with
  | [(k, .float .double x)] => k = "x" && x = value
  | _ => false

theorem eq_of_isValues {es : Entries} (h : isValues es = true) :
    es = [("x", .float .double value)] := by
  unfold isValues at h
  split at h
  · simp only [Bool.and_eq_true, decide_eq_true_eq] at h
    rw [h.1, h.2]
  · cases h

def isDocument (q : AnalysisRequest) : Bool :=
  q.query = document.query && q.operationName = "" && isValues q.variableValues

theorem eq_document {q : AnalysisRequest} (h : isDocument q = true) : q = document := by
  simp only [isDocument, Bool.and_eq_true, decide_eq_true_eq] at h
  have hvalues := eq_of_isValues h.2
  cases q
  simp_all [document]

def isPlain (query : String) (q : AnalysisRequest) : Bool :=
  q.query = query && q.operationName = "" && q.variableValues.isEmpty

theorem eq_of_isPlain {query : String} {q : AnalysisRequest} (h : isPlain query q = true) :
    q = { query } := by
  simp only [isPlain, Bool.and_eq_true, decide_eq_true_eq, List.isEmpty_iff] at h
  cases q
  simp_all

def both : List AnalysisRequest := [Endless.renamedSingle, document]

def isBoth : List AnalysisRequest → Bool
  | [q, q'] => isPlain Endless.renamedSingle.query q && isDocument q'
  | _ => false

theorem eq_both {qs : List AnalysisRequest} (h : isBoth qs = true) : qs = both := by
  unfold isBoth at h
  split at h
  · rw [Bool.and_eq_true] at h
    rw [eq_of_isPlain h.1, eq_document h.2]
    rfl
  · cases h

/-- The endless document in front of another one. -/
def loopingBatch : Http.Request :=
  send ("[\x7b\"query\":\"" ++ Endless.looping.query ++ "\"\x7d,\x7b\"query\":\"\x7bself\x7d\"\x7d]")

def isLoopingBatch : Submission → Bool
  | .batch [q, q'] => isPlain Endless.looping.query q && isPlain Endless.single.query q'
  | _ => false

/-- What is read from the requests, by tests that can be decided. -/
theorem recognised :
    (AnalysisRequest.variablesOf? (get.target.parameter "variables")).any isValues = true ∧
      (AnalysisRequest.read? (Incoming.steps post.body.toList) post.body.toList).any
        (fun p => isDocument p.1 && Incoming.isEnd p.2) = true ∧
      (AnalysisRequest.readBatch? (Incoming.steps batch.body.toList) batch.body.toList).any
        (fun p => isBoth p.1 && Incoming.isEnd p.2) = true ∧
      ((service 1000 Endless.schema).options.accepted? loopingBatch).any isLoopingBatch = true := by
  decide +kernel

theorem sentInTarget : document.SentInTarget get where
  method := rfl
  query := by decide
  operationName := by decide
  values := by
    right
    obtain ⟨es, hes, h⟩ := (Option.any_eq_true _ _).1 recognised.1
    rw [hes, eq_of_isValues h]
    rfl

theorem sentInBody : document.SentInBody 1000 post where
  method := rfl
  contentType := by decide
  fits := by decide
  decoded := by
    obtain ⟨⟨q, rest⟩, hread, h⟩ := (Option.any_eq_true _ _).1 recognised.2.1
    rw [Bool.and_eq_true] at h
    obtain rfl := eq_document h.1
    exact ⟨rest, hread, h.2⟩

theorem sentInBatch : AnalysisRequest.SentInBatch 1000 both batch where
  method := rfl
  contentType := by decide
  fits := by decide
  bracket := by decide
  decoded := by
    obtain ⟨⟨qs, rest⟩, hread, h⟩ := (Option.any_eq_true _ _).1 recognised.2.2.1
    rw [Bool.and_eq_true] at h
    obtain rfl := eq_both h.1
    exact ⟨rest, hread, h.2⟩

/-- The document was sent before and after a new schema that has its field. -/
def past : List Incident :=
  [.request { freshId := "1" } get, .reload Endless.schema 2, .request { freshId := "2" } get]

def answered (r : Http.Request) : Option Http.Response :=
  (((service 1000 Endless.renamed).after (fun _ => 0) past).serve (fun _ => 0) { freshId := "3" } r).2.1

def shown : Json := result.reply.toJson

def failed : Json := (Endless.unknownField "me").reply.toJson

end Encoded

/-- A document is sent in three spellings of the number in it, once together with one that fails. The
service answered it before, with an error under an earlier schema and then with the graph. -/
theorem ServiceWith.serve_encodings_spelled :
    Encoded.document.SentInTarget Encoded.get ∧ Encoded.document.SentInBody 1000 Encoded.post ∧
      AnalysisRequest.SentInBatch 1000 Encoded.both Encoded.batch ∧
      Http.Shows false (Encoded.answered Encoded.get) (some Encoded.shown) ∧
      Http.Shows false (Encoded.answered Encoded.post) (some Encoded.shown) ∧
      Http.Shows false (Encoded.answered Encoded.batch) (some (.array [Encoded.failed, Encoded.shown])) := by
  have htold : ∀ q ∈ Incident.askedIn 1000 Encoded.past ++ Encoded.both, q.isTold = true := by
    decide +kernel
  have hpretty : (Encoded.service 1000 Endless.renamed).options.pretty = false := rfl
  have hschema : ((Encoded.service 1000 Endless.renamed).source.after Encoded.past).schema =
      Endless.schema := rfl
  obtain ⟨hget, hpost, hbatch, -⟩ := ServiceWith.serve_encodings (fun _ => 0)
    (Encoded.service 1000 Endless.renamed) (fun _ => rfl) (by decide) Encoded.past Encoded.document
    Encoded.both 1 rfl (by decide) htold Encoded.get Encoded.post Encoded.batch Encoded.sentInTarget
    Encoded.sentInBody Encoded.sentInBatch { freshId := "3" } rfl
  have hshown : Encoded.document.result? Endless.schema = some Encoded.shown := by
    rw [AnalysisRequest.result?, Encoded.analyze_document]
    rfl
  have hfailed : Endless.renamedSingle.result? Endless.schema = some Encoded.failed := by
    rw [AnalysisRequest.result?, Endless.analyze_unknownField.2]
    rfl
  have hboth : Encoded.both.mapM (AnalysisRequest.result? Endless.schema) = some [Encoded.failed, Encoded.shown] := by
    rw [mapM_eq_some_iff, Encoded.both, List.map_cons, List.map_cons, hfailed, hshown]
    rfl
  rw [hpretty, hschema, hshown] at hget hpost
  rw [hpretty, hschema, hboth, Option.map_some] at hbatch
  refine ⟨Encoded.sentInTarget, Encoded.sentInBody, Encoded.sentInBatch, ?_⟩
  simp only [Encoded.answered]
  -- nothing is to be computed here
  with_reducible exact ⟨hget, hpost, hbatch⟩

namespace Encoded

def served (limit : Int64) (r : Http.Request) : Option Http.Response :=
  ((service limit Endless.schema).serve (fun _ => 0) { freshId := "1" } r).2.1

theorem shows_served {limit : Int64} {r : Http.Request} {q : AnalysisRequest} {a : AnalysisResult}
    (h : (service limit Endless.schema).options.accepted? r = some (.single q))
    (ha : q.analyze Endless.schema = some a) :
    Http.Shows false (served limit r) (some a.reply.toJson) := by
  obtain ⟨headers, hserve⟩ := ServiceWith.serve_of_single (fun _ => 0) (service limit Endless.schema)
    { freshId := "1" } h (ServiceWith.answer_of_analyze (fun _ => 0) _ _ rfl rfl ha)
  rw [served, hserve]
  rfl

theorem accepted_get (limit : Int64) :
    (service limit Endless.schema).options.accepted? get = some (.single document) := by
  rw [ServiceOptions.accepted?, if_pos (.inr rfl), sentInTarget.ofRequest (by decide)]
  rfl

theorem accepted_loopingBatch : (service 1000 Endless.schema).options.accepted? loopingBatch =
    some (.batch [Endless.looping, Endless.single]) := by
  obtain ⟨sub, hsub, h⟩ := (Option.any_eq_true _ _).1 recognised.2.2.2
  unfold isLoopingBatch at h
  split at h
  · rw [Bool.and_eq_true] at h
    rw [hsub, eq_of_isPlain h.1, eq_of_isPlain h.2]
    rfl
  · cases h

theorem served_loopingBatch : served 1000 loopingBatch = none := by
  set requestId := Http.RequestId.ofIncoming "1" (loopingBatch.headers.get Http.requestIdHeader) with hid
  obtain ⟨headers, hprocess⟩ := ServiceWith.process_of_accepted (fun _ => 0)
    (service 1000 Endless.schema) { freshId := "1" } requestId accepted_loopingBatch
  have hanswer := ServiceWith.answer_of_endless (c := { freshId := "1" }) (fun _ => 0)
    (service 1000 Endless.schema) requestId rfl rfl Endless.analyze_looping
  simp only [Submission.documents, ServiceWith.answerAll, hanswer, Option.map_none] at hprocess
  simp only [served, ServiceWith.serve, ← hid, hprocess]

/-- The documents of two requests that differ in a stray byte of a variable. -/
def stray (byte : String) : List AnalysisRequest :=
  let query := "query=a&variables=%7B%22x%22:%22" ++ byte ++ "%22%7D"
  Submission.requests (Submission.ofRequest 0 { method := "GET", target := { path := "/", query } })

def texts (es : Entries) : List String :=
  es.filterMap fun
    | (_, .string s) => some s
    | _ => none

end Encoded

/-- Under the greatest limit a body within the limit is refused while the same document is answered when it
is sent in the query of a target; a batch is refused if a blank stands before it; variables that differ in
a stray byte are written alike; and a document that is answered alone gets no response together with one
that is endless. -/
theorem ServiceWith.encodings_differ :
    Encoded.post.Posts Int64.maxValue ∧ Encoded.batch.Posts Int64.maxValue ∧
      Http.Shows false (Encoded.served Int64.maxValue Encoded.get) (some Encoded.shown) ∧
      (Encoded.served Int64.maxValue Encoded.post).map (·.status) = some 400 ∧
      (Encoded.served Int64.maxValue Encoded.batch).map (·.status) = some 400 ∧
      (Submission.requests (Submission.ofBody Encoded.batch.body)).length = 2 ∧
      (Submission.requests (Submission.ofBody (" " ++ Encoded.batch.body))).length = 0 ∧
      (Encoded.stray "%FE").map AnalysisRequest.canonical =
        (Encoded.stray "%FF").map AnalysisRequest.canonical ∧
      (Encoded.stray "%FE").map (fun q => Encoded.texts q.variableValues) ≠
        (Encoded.stray "%FF").map (fun q => Encoded.texts q.variableValues) ∧
      Http.Shows false (Encoded.served 1000 (Repeated.ask "query=%7Bself%7D"))
        (some Endless.singleResult.reply.toJson) ∧
      Encoded.served 1000 Encoded.loopingBatch = none := by
  refine ⟨⟨rfl, ?_, ?_⟩, ⟨rfl, ?_, ?_⟩, ?shown, ?_, ?_, ?_, ?_, ?_, ?_, ?alone, ?together⟩
  case shown => exact Encoded.shows_served (Encoded.accepted_get _) Encoded.analyze_document
  case alone => exact Encoded.shows_served rfl Endless.analyze_single
  case together => exact Encoded.served_loopingBatch
  all_goals decide +kernel

end OperationGraph
