import OperationGraph.Value.Coerce

/-! # Errors of an analysis -/

namespace OperationGraph

inductive VariableFault where
  | missing
  | null
  | uncoercible (fault : CoercionFault)
deriving Repr

inductive AnalysisFault where
  | noOperation
  | unknownOperation (name : String)
  | manyOperations (count : Nat)
  | variable (name type : String) (fault : VariableFault)
  | missingRoot (operation : OperationType)
  | unknownType (name : String)
  | unknownReturnType (name field : String)
  | possibleTypes (fault : PossibleTypeFault)
  | notComposite (name : String) (kind : Kind)
  | unknownField (field type parent : String)
  | unknownFragment (name : String)
deriving Repr

/-- A fault, with its place if it has one. -/
structure AnalysisError where
  fault : AnalysisFault
  pos : Option Position := none
deriving Repr

/-- The sorts of faults that callers tell apart. -/
inductive AnalysisErrorKind where
  | noOperation
  | multipleOperations
  | unknownType
  | invalidType
  | unknownField
  | unknownFragment
  | invalidVariable
deriving DecidableEq, Repr

namespace AnalysisErrorKind

def code : AnalysisErrorKind → String
  | noOperation => "NO_OPERATION"
  | multipleOperations => "MULTIPLE_OPERATIONS"
  | unknownType => "UNKNOWN_TYPE"
  | invalidType => "INVALID_TYPE"
  | unknownField => "UNKNOWN_FIELD"
  | unknownFragment => "UNKNOWN_FRAGMENT"
  | invalidVariable => "INVALID_VARIABLE"

def text : AnalysisErrorKind → String
  | noOperation => "no operation found"
  | multipleOperations => "more than one operation found"
  | unknownType => "unknown type"
  | invalidType => "invalid type"
  | unknownField => "unknown field"
  | unknownFragment => "unknown fragment"
  | invalidVariable => "invalid variable value"

end AnalysisErrorKind

def PossibleTypeFault.message : PossibleTypeFault → String
  | undefined m t => "possible type " ++ Text.quoted m ++ " of " ++ t ++ " is not defined"
  | notObject m t k =>
    "possible type " ++ Text.quoted m ++ " of " ++ t ++ " is " ++ k.text ++ ", not OBJECT"
  | none t k => "type " ++ t ++ " of kind " ++ k.text ++ " has no possible types"

namespace AnalysisFault

def kind : AnalysisFault → AnalysisErrorKind
  | noOperation => .noOperation
  | unknownOperation _ => .noOperation
  | manyOperations _ => .multipleOperations
  | .variable .. => .invalidVariable
  | missingRoot _ => .unknownType
  | unknownType _ => .unknownType
  | unknownReturnType .. => .unknownType
  | possibleTypes _ => .unknownType
  | notComposite .. => .invalidType
  | unknownField .. => .unknownField
  | unknownFragment _ => .unknownFragment

def message : AnalysisFault → String
  | noOperation => "document does not contain an operation"
  | unknownOperation n => "unknown operation named " ++ Text.quoted n
  | manyOperations n =>
    "document contains " ++ toString n ++ " operations; exactly one is required"
  | .variable n t .missing => "variable $" ++ n ++ " of required type " ++ t ++ " was not provided"
  | .variable n t .null => "variable $" ++ n ++ " of type " ++ t ++ " cannot be null"
  | .variable n t (.uncoercible e) =>
    "variable $" ++ n ++ " of type " ++ t ++ " cannot be coerced: " ++ e.message
  | missingRoot op => "schema does not define a " ++ op.text ++ " root type"
  | unknownType n => "unknown type " ++ Text.quoted n
  | unknownReturnType n f => "unknown type " ++ Text.quoted n ++ " returned by " ++ f
  | possibleTypes e => e.message
  | notComposite n k =>
    "type " ++ Text.quoted n ++ " of kind " ++ k.text ++ " has no possible types"
  | unknownField f t p =>
    "cannot query field " ++ Text.quoted f ++ " on type " ++ Text.quoted t
      ++ if t = p then "" else " (selected on " ++ Text.quoted p ++ ")"
  | unknownFragment n => "unknown fragment " ++ Text.quoted n

end AnalysisFault

namespace AnalysisError

def at_ (pos : Position) (fault : AnalysisFault) : AnalysisError := { fault, pos := some pos }

def code (e : AnalysisError) : String := e.fault.kind.code

def message (e : AnalysisError) : String := e.fault.message

/-- Where the error is shown; a place before the first line is none. -/
def place? (e : AnalysisError) : Option (Nat × Int) :=
  match e.pos with
  | some p => if 0 < p.line then some (p.line, p.column) else none
  | none => none

end AnalysisError

end OperationGraph
