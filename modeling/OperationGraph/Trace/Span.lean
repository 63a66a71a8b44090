import OperationGraph.Event.Basic

/-! # Spans

A span is a stretch of time in the course of a request. Requests and analyses have one each, and the
span of an analysis is a child of the span of its request. Starts and finishes are matched by the
identifier of the request. -/

namespace OperationGraph

inductive AttributeValue where
  | text (s : String)
  | int (n : Int)
  | flag (b : Bool)
deriving DecidableEq, Repr

inductive SpanStatus where
  | unset
  | error (description : String)
deriving DecidableEq, Repr

/-- A span. Its number says how many were started before it. -/
structure Span where
  number : Nat
  name : String
  /-- The number and the name of the span around it. -/
  parent : Option (Nat × String) := none
  attributes : List (String × AttributeValue) := []
  status : SpanStatus := .unset
  /-- The errors that happened in its course. -/
  exceptions : List String := []
deriving DecidableEq, Repr

namespace Span

def requestName : String := "http.request"

def analysisName : String := "graphql.analysis"

def finishRequest (s : Span) (status : Int) : Span :=
  { s with
    attributes := s.attributes ++ [("http.status_code", .int status)]
    status := if 500 ≤ status then .error "" else s.status }

def finishAnalysis (s : Span) (r : AnalysisReport) : Span :=
  { s with
    attributes := s.attributes
      ++ [("fieldgraph.vertices", .int r.vertices), ("fieldgraph.cached", .flag r.cached)]
    status := match r.failure with
      | some e => .error e
      | none => s.status
    exceptions := s.exceptions ++ r.failure.toList }

end Span

/-- Spans on their way, by the identifier of their request. -/
abbrev OpenSpans := List (String × Span)

namespace OpenSpans

def get? (o : OpenSpans) (id : String) : Option Span := (o.find? (·.1 = id)).map (·.2)

def erase (o : OpenSpans) (id : String) : OpenSpans := List.filter (·.1 ≠ id) o

/-- Sets the span of a request; one that was there before is forgotten. -/
def set (o : OpenSpans) (id : String) (s : Span) : OpenSpans := (id, s) :: o.erase id

end OpenSpans

/-- The spans started and not yet ended, and those that have ended, in order. -/
structure Tracer where
  started : Nat := 0
  requests : OpenSpans := []
  analyses : OpenSpans := []
  ended : List Span := []
deriving DecidableEq, Repr

namespace Tracer

def observe (t : Tracer) (o : Occurrence) : Tracer :=
  let id := o.requestId
  match o.event with
  | .requestStarted method path =>
    let span : Span :=
      { number := t.started, name := Span.requestName
        attributes := [("http.method", .text method), ("http.target", .text path),
          ("http.request_id", .text id)] }
    { t with started := t.started + 1, requests := t.requests.set id span }
  | .requestFinished status =>
    match t.requests.get? id with
    | some s =>
      { t with requests := t.requests.erase id, ended := t.ended ++ [s.finishRequest status] }
    | none => t
  | .analysisStarted _ operationName operationType =>
    let span : Span :=
      { number := t.started, name := Span.analysisName
        parent := (t.requests.get? id).map fun s => (s.number, s.name)
        attributes := [("graphql.operation.name", .text operationName),
          ("graphql.operation.type", .text operationType)] }
    { t with started := t.started + 1, analyses := t.analyses.set id span }
  | .analysisFinished r =>
    match t.analyses.get? id with
    | some s =>
      { t with analyses := t.analyses.erase id, ended := t.ended ++ [s.finishAnalysis r] }
    | none => t
  | .schemaReloaded .. => t

end Tracer

end OperationGraph
