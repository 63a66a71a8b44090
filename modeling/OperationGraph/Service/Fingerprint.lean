import OperationGraph.Json.Printer
import OperationGraph.Service.Request

/-! # Fingerprints of requests

Equal requests have one canonical text: the query, the name of the operation and the variables in the
exchange format, with a NUL character between any two. A digest of it, taken together with the
generation of the schema, is the key under which a reply is kept. -/

namespace OperationGraph.AnalysisRequest

/-- The variables in the exchange format; without any, or if one of them has no such form, `{}`. -/
def variablesText (r : AnalysisRequest) : String :=
  if r.variableValues.isEmpty then "\x7b\x7d"
  else
    match Value.toJson? (.object r.variableValues) with
    | some j => j.compact
    | none => "\x7b\x7d"

/-- The text that equal requests have in common. -/
def canonical (r : AnalysisRequest) : String :=
  r.query ++ "\x00" ++ r.operationName ++ "\x00" ++ r.variablesText

/-- The eight lowest bytes of a number, the lowest first. -/
def wordBytes (n : Nat) : List Nat :=
  (List.range 8).map fun i => n / Nat.pow 256 i % 256

def key (digest : List Nat → UInt64) (generation : Nat) (canonical : String) : UInt64 :=
  digest (wordBytes generation ++ Text.bytes canonical.toList)

end OperationGraph.AnalysisRequest
