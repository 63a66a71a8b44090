import OperationGraph.Value.OfLiteral

/-! # Which selections count

A selection is left out if its first `@skip` says true or its first `@include` says false. A condition
that is no truth value decides nothing. -/

namespace OperationGraph

/-- The truth value of the condition of the first directive of a name. -/
def condition? (name : String) (ds : List Directive) (vars : Entries) : Option Bool :=
  (Directive.find? name ds).bind fun d =>
    (Argument.find? "if" d.arguments).bind fun a => (a.value.toValue vars).boolean?

/-- Whether a selection with these directives counts. -/
def isIncluded (ds : List Directive) (vars : Entries) : Bool :=
  condition? "skip" ds vars ≠ some true && condition? "include" ds vars ≠ some false

def Selection.directives : Selection → List Directive
  | .field n => n.directives
  | .inline _ ds _ _ => ds
  | .spread _ ds _ => ds

end OperationGraph
