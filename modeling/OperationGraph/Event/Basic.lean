/-! # Events

What happens while a service runs. Each event belongs to the request in whose course it happens. -/

namespace OperationGraph

structure AnalysisReport where
  query : String := ""
  operationName : String := ""
  operationType : String := ""
  vertices : Int := 0
  failure : Option String := none
  /-- In nanoseconds. -/
  duration : Int := 0
  cached : Bool := false
deriving DecidableEq, Repr

/-- Something that happens while a service runs. -/
inductive Event where
  | requestStarted (method path : String)
  | requestFinished (status : Int)
  | analysisStarted (query operationName operationType : String)
  | analysisFinished (report : AnalysisReport)
  | schemaReloaded (files : List String) (generation : Nat) (failure : Option String)
deriving DecidableEq, Repr

/-- An event with the identifier of its request; one without a request has the empty one. -/
structure Occurrence where
  requestId : String := ""
  event : Event
deriving DecidableEq, Repr

end OperationGraph
