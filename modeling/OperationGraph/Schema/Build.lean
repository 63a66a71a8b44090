import OperationGraph.Definition.TypeSystem
import OperationGraph.Schema.Builtin
import OperationGraph.Value.OfLiteral

/-! # From type systems to schemas

The schema of a type system. Interfaces and members of unions are put in the order of their names, and
the possible types of an interface are the objects that implement it. -/

namespace OperationGraph

/-- The reason of a deprecation: that of the first directive, empty if it gives none. -/
def deprecation? (ds : List Directive) : Option String :=
  (Directive.find? "deprecated" ds).map fun d =>
    ((Argument.find? "reason" d.arguments).map (·.value.raw)).getD ""

def defaultOf (l : Option Literal) : Value := (l.map (Literal.toValue [])).getD .null

namespace InputValue

def ofArgument (a : ArgumentDefinition) : InputValue where
  name := a.name
  description := a.description
  type := .ofExpr a.type
  default := defaultOf a.default
  deprecated := deprecation? a.directives

def ofField (f : FieldDefinition) : InputValue where
  name := f.name
  description := f.description
  type := .ofExpr f.type
  default := defaultOf f.default
  deprecated := deprecation? f.directives

end InputValue

/-- The output field that a field of an object or an interface declares. -/
def OutputField.ofField (f : FieldDefinition) : OutputField where
  name := f.name
  description := f.description
  type := .ofExpr f.type
  arguments := f.arguments.map InputValue.ofArgument
  deprecated := deprecation? f.directives

def EnumValue.ofDefinition (v : EnumValueDefinition) : EnumValue where
  name := v.name
  description := v.description
  deprecated := deprecation? v.directives

def DirectiveType.ofDefinition (d : DirectiveDefinition) : DirectiveType where
  name := d.name
  description := d.description
  locations := d.locations
  arguments := d.arguments.map InputValue.ofArgument
  repeatable := d.repeatable
  builtIn := d.builtIn

namespace TypeSystem

/-- The objects that implement an interface, in the order of their names; an object that names the
interface twice stands twice. -/
def implementations (ts : TypeSystem) (interface : String) : List String :=
  ts.sortedTypes.flatMap fun d =>
    if d.kind = .object then (d.interfaces.filter (· = interface)).map fun _ => d.name else []

end TypeSystem

namespace NamedType

def specifiedBy? (ds : List Directive) : Option String :=
  (Directive.find? "specifiedBy" ds).bind fun d =>
    (Argument.find? "url" d.arguments).map (·.value.raw)

/-- The type that a definition declares; `implementations` lists the objects that implement it. -/
def ofDefinition (implementations : List String) (d : Definition) : NamedType :=
  let base : NamedType := { name := d.name, kind := d.kind, description := d.description }
  match d.kind with
  | .object =>
    { base with
      interfaces := sortNames d.interfaces
      fields := (d.fields.filter fun f => !isMetaName f.name).map OutputField.ofField }
  | .interface =>
    { base with
      interfaces := sortNames d.interfaces
      fields := (d.fields.filter fun f => !isMetaName f.name).map OutputField.ofField
      possibleTypes := distinct implementations }
  | .union => { base with possibleTypes := distinct (sortNames d.members) }
  | .enum => { base with enumValues := d.values.map EnumValue.ofDefinition }
  | .inputObject =>
    { base with
      oneOf := (Directive.find? "oneOf" d.directives).isSome
      inputFields := d.fields.map InputValue.ofField }
  | .scalar => { base with specifiedBy := specifiedBy? d.directives }
  | .other _ => base

end NamedType

namespace Schema

/-- Adds the type that a definition declares; the built-in scalars stay as they are. -/
def addDefinition (ts : TypeSystem) (s : Schema) (d : Definition) : Schema :=
  match builtinScalar? d.name, d.kind with
  | some b, .scalar => s.addType b
  | _, .other _ => s
  | _, _ => s.addType (NamedType.ofDefinition (ts.implementations d.name) d)

/-- Adds a declared directive unless one of its name is there. -/
def addDirectiveDefinition (s : Schema) (d : DirectiveDefinition) : Schema :=
  if s.directives.any (·.name = d.name) then s else s.addDirective (DirectiveType.ofDefinition d)

def ofTypeSystem (ts : TypeSystem) : Schema :=
  let s := { Schema.empty ts.description with
    query := ts.query.getD ""
    mutation := ts.mutation.getD ""
    subscription := ts.subscription.getD "" }
  let s := ts.sortedTypes.foldl (addDefinition ts) s
  ts.directives.foldl addDirectiveDefinition s

end Schema

end OperationGraph
