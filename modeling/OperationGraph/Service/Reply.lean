import OperationGraph.Analysis.Error
import OperationGraph.Graph.Export

/-! # Replies

The answer to one document: its graph, or what is wrong with it. -/

namespace OperationGraph

/-- What is wrong, where, and by which code a client knows it. -/
structure ReplyError where
  message : String
  places : List (Nat × Int) := []
  code : String
deriving DecidableEq, Repr

inductive Reply where
  | graph (g : GraphRecord)
  | error (e : ReplyError)
deriving DecidableEq, Repr

namespace Reply

def badRequest (message : String) : Reply := .error { message, code := "BAD_REQUEST" }

def timedOut : Reply := .error { message := "request timed out", code := "TIMEOUT" }

def unparsed (d : Diagnostic) : Reply :=
  .error { message := d.message, places := d.place.toList, code := "GRAPHQL_PARSE_FAILED" }

def failed (e : AnalysisError) : Reply :=
  .error { message := e.message, places := e.place?.toList, code := e.code }

def toJson : Reply → Json
  | graph g => .object [("data", g.toJson)]
  | error e =>
    .object [("errors", .array [.object <|
      [("message", .string e.message)]
      ++ (if e.places.isEmpty then [] else [("locations", .array (e.places.map placeJson))])
      ++ [("extensions", .object [("code", .string e.code)])]])]

end Reply

end OperationGraph
