import OperationGraph.Source

/-! # Failures

Reading a source can fail with a diagnostic, with several, or with a text alone, and whoever passes a
failure on may put words in front of it. Only one diagnostic is shown in the end: the first. -/

namespace OperationGraph

inductive Failure where
  | plain (message : String)
  | single (d : Diagnostic)
  | several (ds : List Diagnostic)
  | within (context : String) (f : Failure)
deriving Repr

namespace Failure

/-- A failure in words; each of several diagnostics has a line of its own. -/
def text : Failure → String
  | plain m => m
  | single d => d.text
  | several ds => String.join (ds.map fun d => d.text ++ "\n")
  | within c f => c ++ ": " ++ f.text

def first? : Failure → Option Diagnostic
  | plain _ => none
  | single d => some d
  | several ds => ds.head?
  | within _ f => f.first?

/-- The diagnostic that is shown: the first one, or else one made of the words alone. -/
def diagnostic (f : Failure) : Diagnostic := f.first?.getD { message := f.text }

end Failure

end OperationGraph
