import OperationGraph.Proofs.Graph.Termination
import OperationGraph.Service.Handler

/-! # Answers to documents

A document is answered from memory or by its analysis. It gets no reply only if its analysis is endless,
and that takes a fragment that contains itself below a field (`AnalysisRequest.isSome_analyze`). -/

namespace OperationGraph

namespace AnalysisRequest
variable {s : Schema} {r : AnalysisRequest} {doc : Document}

theorem analyze_of_unparsed {e : SyntaxError} (h : Document.parse r.query = .error e) :
    r.analyze s =
      some { failure := some e.diagnostic.text, reply := .unparsed e.diagnostic } := by
  simp only [analyze, h]

section
variable (hdoc : Document.parse r.query = .ok doc)
include hdoc

theorem analyze_of_failed {e : AnalysisError}
    (h : OperationGraph.analyze s doc r.operationName r.variableValues = .failed e) :
    r.analyze s = some {
      operationType := doc.operationType r.operationName
      failure := some e.message
      reply := .failed e } := by
  simp only [analyze, hdoc, h]

theorem analyze_of_finished {g : Graph}
    (h : OperationGraph.analyze s doc r.operationName r.variableValues = .finished g) :
    r.analyze s = some {
      operationType := doc.operationType r.operationName
      vertices := g.record.vertices.length
      reply := .graph g.record } := by
  simp only [analyze, hdoc, h]

theorem analyze_of_unfinished
    (h : OperationGraph.analyze s doc r.operationName r.variableValues = .unfinished) :
    r.analyze s = none := by
  simp only [analyze, hdoc, h]

end

/-- No fragment of the document contains itself below a field. -/
def NoFieldCycle (r : AnalysisRequest) : Prop :=
  ∀ doc, Document.parse r.query = .ok doc → doc.NoFieldCycle

theorem isSome_analyze (h : r.NoFieldCycle) (s : Schema) : (r.analyze s).isSome := by
  cases hdoc : Document.parse r.query with
  | error e =>
    rw [analyze_of_unparsed hdoc]
    rfl
  | ok doc =>
    cases hgraph : OperationGraph.analyze s doc r.operationName r.variableValues with
    | unfinished => exact absurd hgraph (analyze_ne_unfinished (h doc hdoc))
    | failed e =>
      rw [analyze_of_failed hdoc hgraph]
      rfl
    | finished g =>
      rw [analyze_of_finished hdoc hgraph]
      rfl

end AnalysisRequest

/-! ### One document -/

namespace ServiceWith
variable {μ : Type} [Memory μ UInt64 CachedResult]

/-- The key under which a service remembers the result for a document. -/
def keyOf (digest : List Nat → UInt64) (s : ServiceWith μ) (r : AnalysisRequest) : UInt64 :=
  AnalysisRequest.key digest s.source.shownGeneration r.canonical

variable (digest : List Nat → UInt64) (s : ServiceWith μ) {c : Circumstances} (requestId : String)
  {r : AnalysisRequest} {a : AnalysisResult}

theorem answer_of_expired (hc : c.expired = true) :
    s.answer digest c requestId r = (s, some .timedOut, {}) := by
  rw [answer, if_pos hc]

variable (hc : c.expired = false)
include hc

theorem answer_of_remembered (h : s.remembered? (s.keyOf digest r) r.canonical = some a) :
    s.answer digest c requestId r =
      ({ s with memory := Memory.touch s.memory (s.keyOf digest r) }, some a.reply,
        account c requestId r true a) := by
  simp only [keyOf] at h
  simp only [answer, hc, h, Bool.false_eq_true, if_false, keyOf]

variable (hmiss : s.remembered? (s.keyOf digest r) r.canonical = none)
include hmiss

theorem answer_of_analyze (h : r.analyze s.source.schema = some a) :
    s.answer digest c requestId r =
      ({ s with
          memory := Memory.add (Memory.touch s.memory (s.keyOf digest r)) (s.keyOf digest r)
            { schemaNumber := s.source.number, canonical := r.canonical, result := a } },
        some a.reply, account c requestId r false a) := by
  simp only [keyOf] at hmiss
  simp only [answer, hc, hmiss, h, Bool.false_eq_true, if_false, keyOf]

theorem answer_of_endless (h : r.analyze s.source.schema = none) :
    s.answer digest c requestId r =
      ({ s with memory := Memory.touch s.memory (s.keyOf digest r) }, none,
        { events := [.analysisStarted r.query r.operationName r.operationType] }) := by
  simp only [keyOf] at hmiss
  simp only [answer, hc, hmiss, h, Bool.false_eq_true, if_false, keyOf]

end ServiceWith

/-! ### A document with and one without an end -/

namespace Endless

def looping : AnalysisRequest :=
  { query := "\x7b ...Self \x7d fragment Self on Query \x7b self \x7b ...Self \x7d \x7d" }

theorem parse_looping : Document.parse looping.query = .ok document := rfl

theorem analyze_looping : looping.analyze schema = none :=
  AnalysisRequest.analyze_of_unfinished parse_looping analyze_document

def single : AnalysisRequest := { query := "\x7bself\x7d" }

def singleDocument : Document where
  operations := [{
    type := .query
    selections := [.field { key := "self", name := "self", pos := ⟨"", 1, 2⟩ }]
    pos := ⟨"", 1, 1⟩ }]

theorem parse_single : Document.parse single.query = .ok singleDocument := rfl

def singleResult : AnalysisResult where
  operationType := "query"
  vertices := 1
  reply := .graph {
    vertices := [{ id := 1, type := "Query", field := "self", name := "self", returnType := "Query"
                   parent := 0, locations := [(1, 2)] }]
    edges := [(1, 0)] }

theorem analyze_single : single.analyze schema = some singleResult := by
  have hgraph : analyze schema singleDocument "" [] = .finished _ :=
    analyze_of_built rfl (.tree rfl .empty .empty)
  exact AnalysisRequest.analyze_of_finished parse_single hgraph

def renamed : Schema where
  types := [{ name := "Query", kind := .object, fields := [{ name := "me", type := .named "Query" }] }]
  query := "Query"

def renamedSingle : AnalysisRequest := { query := "\x7bme\x7d" }

def unknownField (field : String) : AnalysisResult :=
  let message := "cannot query field \"" ++ field ++ "\" on type \"Query\""
  { operationType := "query", failure := some message
    reply := .error { message, places := [(1, 2)], code := "UNKNOWN_FIELD" } }

theorem analyze_unknownField :
    single.analyze renamed = some (unknownField "self") ∧
      renamedSingle.analyze schema = some (unknownField "me") := by
  decide +kernel

end Endless

end OperationGraph
