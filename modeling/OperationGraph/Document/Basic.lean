import OperationGraph.Source

/-! # Executable documents

A document holds operations and fragments. Both select fields, and a selection may be narrowed by
fragments and excluded by directives. -/

namespace OperationGraph

/-- A type as written in a document: a name or a list, each possibly marked as never null. -/
inductive TypeExpr where
  | named (name : String) (nonNull : Bool) (pos : Position)
  | list (element : TypeExpr) (nonNull : Bool) (pos : Position)
deriving DecidableEq, Repr

namespace TypeExpr

def nonNull : TypeExpr → Bool
  | named _ b _ => b
  | list _ b _ => b

/-- The place of a type; that of a list is the place of its element. -/
def pos : TypeExpr → Position
  | named _ _ p => p
  | list _ _ p => p

def baseName : TypeExpr → String
  | named n _ _ => n
  | list e _ _ => e.baseName

def text : TypeExpr → String
  | named n b _ => n ++ if b then "!" else ""
  | list e b _ => "[" ++ e.text ++ "]" ++ if b then "!" else ""

end TypeExpr

/-- A value as written in a document; numbers keep their spelling. -/
inductive Literal where
  | variable (name : String)
  | int (raw : String)
  | float (raw : String)
  | string (value : String)
  | block (value : String)
  | boolean (value : Bool)
  | null
  | enum (name : String)
  | list (items : List Literal)
  | object (fields : List (String × Literal))
deriving Repr

/-- The text of a literal that is not a list or an object. -/
def Literal.raw : Literal → String
  | .variable n => n
  | .int r => r
  | .float r => r
  | .string s => s
  | .block s => s
  | .boolean b => if b then "true" else "false"
  | .null => "null"
  | .enum n => n
  | .list _ => ""
  | .object _ => ""

structure Argument where
  name : String
  value : Literal
  pos : Position
deriving Repr

def Argument.find? (name : String) (args : List Argument) : Option Argument :=
  args.find? (·.name = name)

structure Directive where
  name : String
  arguments : List Argument := []
  pos : Position
deriving Repr

def Directive.find? (name : String) (directives : List Directive) : Option Directive :=
  directives.find? (·.name = name)

/-- A selected field. Its key names it in the response and is the alias, or the field's own name. -/
structure FieldNode (σ : Type) where
  key : String
  name : String
  arguments : List Argument := []
  directives : List Directive := []
  selections : List σ := []
  pos : Position
deriving Repr

/-- A field, a fragment written in place, or a named fragment. -/
inductive Selection where
  | field (node : FieldNode Selection)
  | inline (condition : Option String) (directives : List Directive)
      (selections : List Selection) (pos : Position)
  | spread (name : String) (directives : List Directive) (pos : Position)
deriving Repr

abbrev Field := FieldNode Selection

inductive OperationType where
  | query
  | mutation
  | subscription
deriving DecidableEq, Repr

namespace OperationType

def text : OperationType → String
  | query => "query"
  | mutation => "mutation"
  | subscription => "subscription"

def ofText? (word : String) : Option OperationType :=
  if word = "query" then some query
  else if word = "mutation" then some mutation
  else if word = "subscription" then some subscription
  else none

end OperationType

structure VariableDefinition where
  name : String
  type : TypeExpr
  default : Option Literal := none
  directives : List Directive := []
  pos : Position
deriving Repr

/-- An operation; one without a name has the empty name. -/
structure Operation where
  type : OperationType
  name : String := ""
  variableDefinitions : List VariableDefinition := []
  directives : List Directive := []
  selections : List Selection
  pos : Position
deriving Repr

structure Fragment where
  name : String
  variableDefinitions : List VariableDefinition := []
  condition : String
  directives : List Directive := []
  selections : List Selection
  pos : Position
deriving Repr

/-- Operations and fragments, each in the order of the text. -/
structure Document where
  operations : List Operation := []
  fragments : List Fragment := []
deriving Repr

/-- The fragment of a name; the first definition counts. -/
def Document.fragment? (doc : Document) (name : String) : Option Fragment :=
  doc.fragments.find? (·.name = name)

end OperationGraph
