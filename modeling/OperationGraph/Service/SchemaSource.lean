import OperationGraph.Schema.Basic

/-! # Where a service takes its schema from

Each schema that is put in place has a number of its own, so that two schemas are told apart even if
they are equal. A source with generations also says how often its schema was loaded. -/

namespace OperationGraph

/-- How a source deals with new schemas. -/
inductive SourceKind where
  /-- The schema never changes. -/
  | fixed
  /-- The schema may change, and nothing is known of generations. -/
  | changing
  /-- The schema may change and has a generation. -/
  | versioned
deriving DecidableEq, Repr

structure SchemaSource where
  kind : SourceKind
  schema : Schema
  number : Nat := 0
  generation : Nat := 0

namespace SchemaSource

/-- Puts a new schema in place, unless the source is fixed. -/
def replace (s : SchemaSource) (schema : Schema) (generation : Nat) : SchemaSource :=
  match s.kind with
  | .fixed => s
  | .changing => { s with schema, number := s.number + 1 }
  | .versioned => { s with schema, number := s.number + 1, generation }

def shownGeneration (s : SchemaSource) : Nat :=
  match s.kind with
  | .versioned => s.generation
  | _ => 0

end SchemaSource

end OperationGraph
