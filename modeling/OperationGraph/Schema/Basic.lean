import OperationGraph.Definition.Basic
import OperationGraph.Schema.TypeRef
import OperationGraph.Value.Basic

/-! # Schemas

A schema holds named types and directives in the order of their names, and the names of the types at
the root of each kind of operation. -/

namespace OperationGraph

/-- A value that goes in: an argument or a field of an input object. A null default is none. -/
structure InputValue where
  name : String
  description : String := ""
  type : TypeRef
  default : Value := .null
  deprecated : Option String := none
deriving Repr

structure OutputField where
  name : String
  description : String := ""
  type : TypeRef
  arguments : List InputValue := []
  deprecated : Option String := none
deriving Repr

structure EnumValue where
  name : String
  description : String := ""
  deprecated : Option String := none
deriving Repr

/-- A named type. Which parts count depends on its kind. -/
structure NamedType where
  name : String
  kind : Kind
  description : String := ""
  fields : List OutputField := []
  interfaces : List String := []
  possibleTypes : List String := []
  enumValues : List EnumValue := []
  inputFields : List InputValue := []
  specifiedBy : Option String := none
  oneOf : Bool := false
deriving Repr

structure DirectiveType where
  name : String
  description : String := ""
  locations : List String := []
  arguments : List InputValue := []
  repeatable : Bool := false
  builtIn : Bool := false
deriving Repr

/-- Types, directives and root operations. An empty root name means that there is none. -/
structure Schema where
  description : String := ""
  query : String := ""
  mutation : String := ""
  subscription : String := ""
  types : List NamedType := []
  directives : List DirectiveType := []
deriving Repr

/-- Names that the language reserves for introspection. -/
def isMetaName (name : String) : Bool := "__".isPrefixOf name

namespace NamedType

def field? (t : NamedType) (name : String) : Option OutputField :=
  t.fields.find? (·.name = name)

def inputField? (t : NamedType) (name : String) : Option InputValue :=
  t.inputFields.find? (·.name = name)

/-- Adds a possible type unless it is there already. -/
def addPossibleType (t : NamedType) (name : String) : NamedType :=
  if t.possibleTypes.contains name then t else { t with possibleTypes := t.possibleTypes ++ [name] }

end NamedType

inductive PossibleTypeFault where
  | undefined (member type : String)
  | notObject (member type : String) (kind : Kind)
  | none (type : String) (kind : Kind)
deriving DecidableEq, Repr

namespace Schema

def addType (s : Schema) (t : NamedType) : Schema :=
  { s with types := putOrdered NamedType.name t s.types }

def addDirective (s : Schema) (d : DirectiveType) : Schema :=
  { s with directives := putOrdered DirectiveType.name d s.directives }

def lookup (s : Schema) (name : String) : Option NamedType := s.types.find? (·.name = name)

/-- The type of a name; nothing has the empty name. -/
def type? (s : Schema) (name : String) : Option NamedType :=
  if name = "" then none else s.lookup name

def rootName (s : Schema) : OperationType → String
  | .query => s.query
  | .mutation => s.mutation
  | .subscription => s.subscription

def root? (s : Schema) (op : OperationType) : Option NamedType := s.lookup (s.rootName op)

/-- The object type that a member of an interface or a union names. -/
def possibleMember (s : Schema) (t : NamedType) (name : String) :
    Except PossibleTypeFault NamedType :=
  match s.lookup name with
  | Option.none => .error (.undefined name t.name)
  | some m => if m.kind = .object then .ok m else .error (.notObject name t.name m.kind)

/-- The object types that a value of a type can have. -/
def possibleTypes (s : Schema) (t : NamedType) : Except PossibleTypeFault (List NamedType) :=
  match t.kind with
  | .object => .ok [t]
  | .interface | .union => t.possibleTypes.mapM (s.possibleMember t)
  | kind => .error (.none t.name kind)

end Schema

end OperationGraph
