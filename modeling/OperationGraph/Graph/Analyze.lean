import OperationGraph.Analysis.Operation
import OperationGraph.Graph.Basic
import OperationGraph.Selection.Collect

/-! # The graph of an operation

The fields of an operation wait on a stack. The one on top becomes a vertex with the next number, and
its own fields take its place. A fragment that contains itself below a field can make the walk endless;
then the analysis has no outcome of its own. -/

namespace OperationGraph

/-- A field that waits for its vertex, and the vertex it depends on. -/
structure Frame where
  field : MergedField
  parent : Nat

/-- The state of a walk: the next number, the fields that wait, and the vertices made, the last one
first. -/
structure Walk where
  next : Nat := 1
  stack : List Frame := []
  made : List Vertex := []

/-- How an analysis comes out: with a graph, with an error, or not at all. -/
inductive Outcome where
  | finished (g : Graph)
  | failed (e : AnalysisError)
  | unfinished

def Outcome.ofResult : Option (Except AnalysisError Graph) → Outcome
  | some (.ok g) => .finished g
  | some (.error e) => .failed e
  | none => .unfinished

namespace Walk

/-- The fields of a vertex as they go on the stack. -/
def frames (parent : Nat) (fields : List MergedField) : List Frame :=
  fields.map fun field => { field, parent }

def start (fields : List MergedField) : Walk := { stack := frames 0 fields }

/-- Makes a vertex of the field on top of the stack. -/
def step (c : Collector) (next : Nat) (top : Frame) (stack : List Frame) (made : List Vertex) :
    Except AnalysisError Walk :=
  match c.childFields top.field with
  | .error e => .error e
  | .ok fields =>
    .ok { next := next + 1
          stack := frames next fields ++ stack
          made := { id := next, parent := top.parent, field := top.field } :: made }

/-- Takes steps until no field waits; an endless walk has no result. -/
def run (c : Collector) (w : Walk) : Option (Except AnalysisError Graph) :=
  match w.stack with
  | [] => some (.ok { vertices := w.made.reverse })
  | top :: rest =>
    match step c w.next top rest w.made with
    | .error e => some (.error e)
    | .ok w => w |>.run c
partial_fixpoint

end Walk

/-- Prepares a walk: the operation is selected, its variables are coerced, its root is found and the
fields at the root are collected. -/
def prepare (s : Schema) (doc : Document) (operationName : String) (given : Entries) :
    Except AnalysisError (Collector × List MergedField) := do
  let op ← doc.operation operationName
  let coerced ← op.coerceVariables s given
  let root ← op.root s
  let c : Collector := { schema := s, fragments := doc.fragments, variableValues := coerced }
  let fields ← c.rootFields op root
  return (c, fields)

def analyze (s : Schema) (doc : Document) (operationName : String) (given : Entries) :
    Outcome :=
  match prepare s doc operationName given with
  | .error e => .failed e
  | .ok (c, fields) => .ofResult ((Walk.start fields).run c)

end OperationGraph
