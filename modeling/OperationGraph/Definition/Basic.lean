import OperationGraph.Document.Basic

/-! # Type-system documents

A type-system document declares types, directives and root operations, and extends what other
documents declare. -/

namespace OperationGraph

/-- The kinds of named types. A schema assembled by hand may use any other word. -/
inductive Kind where
  | scalar
  | object
  | interface
  | union
  | enum
  | inputObject
  | other (name : String)
deriving DecidableEq, Repr

namespace Kind

def text : Kind → String
  | scalar => "SCALAR"
  | object => "OBJECT"
  | interface => "INTERFACE"
  | union => "UNION"
  | enum => "ENUM"
  | inputObject => "INPUT_OBJECT"
  | other n => n

def ofText (name : String) : Kind :=
  if name = "SCALAR" then scalar
  else if name = "OBJECT" then object
  else if name = "INTERFACE" then interface
  else if name = "UNION" then union
  else if name = "ENUM" then enum
  else if name = "INPUT_OBJECT" then inputObject
  else other name

def isComposite : Kind → Bool
  | object | interface | union => true
  | _ => false

def isLeaf : Kind → Bool
  | scalar | enum => true
  | _ => false

def isInput : Kind → Bool
  | scalar | enum | inputObject => true
  | _ => false

def isOutput : Kind → Bool
  | scalar | object | interface | union | enum => true
  | _ => false

end Kind

structure ArgumentDefinition where
  name : String
  description : String := ""
  type : TypeExpr
  default : Option Literal := none
  directives : List Directive := []
  pos : Position
deriving Repr

/-- A field of an object, an interface or an input object. -/
structure FieldDefinition where
  name : String
  description : String := ""
  arguments : List ArgumentDefinition := []
  type : TypeExpr
  default : Option Literal := none
  directives : List Directive := []
  pos : Position
deriving Repr

structure EnumValueDefinition where
  name : String
  description : String := ""
  directives : List Directive := []
  pos : Position
deriving Repr

structure Definition where
  kind : Kind
  name : String
  description : String := ""
  directives : List Directive := []
  interfaces : List String := []
  fields : List FieldDefinition := []
  members : List String := []
  values : List EnumValueDefinition := []
  pos : Position
  builtIn : Bool := false
deriving Repr

structure DirectiveDefinition where
  name : String
  description : String := ""
  arguments : List ArgumentDefinition := []
  locations : List String := []
  repeatable : Bool := false
  pos : Position
  builtIn : Bool := false
deriving Repr

structure RootDefinition where
  operation : OperationType
  type : String
  pos : Position
deriving Repr

/-- A declaration of root types, or an extension of one. -/
structure SchemaDefinition where
  description : String := ""
  directives : List Directive := []
  roots : List RootDefinition := []
  pos : Position
deriving Repr

/-- The declarations of a type-system document by sort, each in the order of the text. -/
structure TypeSystemDocument where
  schemas : List SchemaDefinition := []
  schemaExtensions : List SchemaDefinition := []
  directives : List DirectiveDefinition := []
  definitions : List Definition := []
  extensions : List Definition := []
deriving Repr

def TypeSystemDocument.append (a b : TypeSystemDocument) : TypeSystemDocument where
  schemas := a.schemas ++ b.schemas
  schemaExtensions := a.schemaExtensions ++ b.schemaExtensions
  directives := a.directives ++ b.directives
  definitions := a.definitions ++ b.definitions
  extensions := a.extensions ++ b.extensions

def directiveLocations : List String :=
  ["QUERY", "MUTATION", "SUBSCRIPTION", "FIELD", "FRAGMENT_DEFINITION", "FRAGMENT_SPREAD",
   "INLINE_FRAGMENT", "VARIABLE_DEFINITION", "SCHEMA", "SCALAR", "OBJECT", "FIELD_DEFINITION",
   "ARGUMENT_DEFINITION", "INTERFACE", "UNION", "ENUM", "ENUM_VALUE", "INPUT_OBJECT",
   "INPUT_FIELD_DEFINITION"]

end OperationGraph
