import OperationGraph.Definition.Check
import OperationGraph.Definition.Parser
import OperationGraph.Definition.Prelude
import OperationGraph.Schema.Build

/-! # Loading schemas from text -/

namespace OperationGraph

inductive LoadError where
  | unreadable (e : SyntaxError)
  | illFormed (e : TypeSystemError)
deriving DecidableEq, Repr

def LoadError.diagnostic : LoadError → Diagnostic
  | unreadable e => e.diagnostic
  | illFormed e => e.diagnostic

def TypeSystem.ofSources (sources : List Source) : Except LoadError TypeSystem := do
  let doc ← (TypeSystemDocument.parseAll sources).mapError .unreadable
  (TypeSystem.ofDocument (builtinDocument.append doc)).mapError .illFormed

namespace Schema

def load (sources : List Source) : Except LoadError Schema :=
  Schema.ofTypeSystem <$> TypeSystem.ofSources sources

def ofText (text : String) : Except LoadError Schema :=
  load [{ name := "schema.graphql", text }]

end Schema

end OperationGraph
