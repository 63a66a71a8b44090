import OperationGraph.Proofs.Service.Answers
import OperationGraph.Proofs.Service.Canonical

/-! # Requests and their responses

A request that is accepted is answered document by document, and its response shows the replies, if all
documents have one; any other request leaves the service as it is, and nothing is told about it between
its start and its finish. -/

namespace OperationGraph

namespace Submission

def documents : Submission → List AnalysisRequest
  | single q => [q]
  | batch qs => qs

/-- What a response shows of the replies to the documents. -/
def shown (replies : List Reply) : Submission → Json
  | single _ => (replies.map Reply.toJson).headD .null
  | batch _ => .array (replies.map Reply.toJson)

end Submission

def Submission.asked (limit : Int64) (r : Http.Request) : List AnalysisRequest :=
  if r.method = "POST" ∨ r.method = "GET" then requests (ofRequest limit r) else []

def ServiceOptions.accepted? (o : ServiceOptions) (r : Http.Request) : Option Submission :=
  if r.method = "POST" ∨ r.method = "GET" then (Submission.ofRequest o.maxBodyBytes r).toOption
  else none

theorem Account.events_append (a b : Account) : (a ++ b).events = a.events ++ b.events := rfl

theorem Account.append_empty (a : Account) : a ++ ({} : Account) = a := by
  change Account.append a {} = a
  simp [Account.append]

namespace ServiceWith
variable {μ : Type} [Memory μ UInt64 CachedResult] (digest : List Nat → UInt64) (s : ServiceWith μ)
  (c : Circumstances) (requestId : String)

theorem answerAll_singleton (q : AnalysisRequest) :
    s.answerAll digest c requestId [q] =
      ((s.answer digest c requestId q).1, (s.answer digest c requestId q).2.1.map ([·]),
        (s.answer digest c requestId q).2.2) := by
  simp only [answerAll]
  obtain ⟨s', _ | reply, told⟩ := s.answer digest c requestId q
  · rfl
  · simp [Account.append_empty]

/-- A request that is accepted is answered document by document. -/
theorem process_of_accepted {r : Http.Request} {sub : Submission}
    (h : s.options.accepted? r = some sub) :
    ∃ headers, s.process digest c requestId r =
      let answered := s.answerAll digest c requestId sub.documents
      (answered.1, answered.2.1.map fun replies => answered.1.respond 200 headers (sub.shown replies),
        answered.2.2) := by
  unfold ServiceOptions.accepted? at h
  split at h
  · next hmethod =>
    have hoptions : r.method ≠ "OPTIONS" := by
      rcases hmethod with h | h <;> simp [h]
    have hpasses : (decide (r.method ≠ "POST") && decide (r.method ≠ "GET")) = false := by
      rcases hmethod with h | h <;> simp [h]
    cases hsub : Submission.ofRequest s.options.maxBodyBytes r with
    | error e => simp [hsub, Except.toOption] at h
    | ok sub' =>
      obtain rfl : sub' = sub := by simpa [hsub, Except.toOption] using h
      simp only [process, if_neg hoptions, hpasses, Bool.false_eq_true, if_false, hsub]
      cases sub' with
      | single q =>
        simp only [Submission.documents, answerAll_singleton, Option.map_map]
        exact ⟨_, rfl⟩
      | batch qs => exact ⟨_, rfl⟩
  · cases h

/-- A request for one document is served by the answer to the document. -/
theorem serve_of_single {r : Http.Request} {q : AnalysisRequest} {s' : ServiceWith μ}
    {reply : Option Reply} {told : Account} (h : s.options.accepted? r = some (.single q))
    (hanswer : s.answer digest c
      (Http.RequestId.ofIncoming c.freshId (r.headers.get Http.requestIdHeader)) q =
        (s', reply, told)) :
    ∃ headers, s.serve digest c r =
      (s', reply.map fun reply => s'.respond 200 headers reply.toJson,
        { told with
          events := .requestStarted r.method r.target.path :: told.events ++
            (reply.map fun _ => Event.requestFinished 200).toList }) := by
  obtain ⟨headers, hprocess⟩ := process_of_accepted digest s c
    (Http.RequestId.ofIncoming c.freshId (r.headers.get Http.requestIdHeader)) h
  refine ⟨headers, ?_⟩
  simp only [serve, hprocess, Submission.documents, answerAll_singleton, hanswer]
  cases reply <;> rfl

end ServiceWith

end OperationGraph
