import OperationGraph.Analysis.Error
import OperationGraph.Value.OfLiteral

/-! # The operation to analyze and its variables -/

namespace OperationGraph

def Document.operation (doc : Document) (name : String) : Except AnalysisError Operation :=
  if name ≠ "" then
    match doc.operations.find? (·.name = name) with
    | some op => .ok op
    | none => .error { fault := .unknownOperation name }
  else
    match doc.operations with
    | [] => .error { fault := .noOperation }
    | [op] => .ok op
    | _ :: second :: rest => .error (.at_ second.pos (.manyOperations (rest.length + 2)))

/-- The kind of the operation of a name, or of the only one if no name is given; empty if there is
none. -/
def Document.operationType (doc : Document) (name : String) : String :=
  match name, doc.operations with
  | "", [op] => op.type.text
  | name, ops =>
    match ops.find? (·.name = name) with
    | some op => op.type.text
    | none => ""

namespace VariableDefinition

/-- The raw value of a variable: the one given, or else its default. -/
def raw? (d : VariableDefinition) (given : Entries) : Option Value :=
  match given.find? d.name with
  | some v => some v
  | none => d.default.map (Literal.toValue [])

def error (d : VariableDefinition) (fault : VariableFault) : AnalysisError :=
  .at_ d.pos (.variable d.name d.type.text fault)

/-- The coerced value of a variable; one that may be left out can have none. -/
def coerce (s : Schema) (d : VariableDefinition) (given : Entries) :
    Except AnalysisError (Option Value) :=
  match d.raw? given with
  | none => if d.type.nonNull then .error (d.error .missing) else .ok none
  | some v =>
    if v.isNull && d.type.nonNull then .error (d.error .null)
    else
      match v.coerce s (.ofExpr d.type) with
      | .ok w => .ok (some w)
      | .error e => .error (d.error (.uncoercible e))

end VariableDefinition

namespace Operation

def coerceFrom (s : Schema) (given : Entries) :
    List VariableDefinition → Entries → Except AnalysisError Entries
  | [], out => .ok out
  | d :: rest, out =>
    match d.coerce s given with
    | .error e => .error e
    | .ok none => coerceFrom s given rest out
    | .ok (some v) => coerceFrom s given rest (out.put d.name v)

def coerceVariables (s : Schema) (op : Operation) (given : Entries) :
    Except AnalysisError Entries :=
  coerceFrom s given op.variableDefinitions []

def root (s : Schema) (op : Operation) : Except AnalysisError NamedType :=
  match s.root? op.type with
  | some t => .ok t
  | none => .error (.at_ op.pos (.missingRoot op.type))

end Operation

end OperationGraph
