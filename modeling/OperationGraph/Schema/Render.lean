import OperationGraph.Definition.Printer
import OperationGraph.Schema.Builtin

/-! # Writing schemas

A schema as a type-system document and as its text. What every schema holds is left out, and the root
types are declared only if one of them has an unusual name. -/

namespace OperationGraph

namespace Schema

/-- The roots that are set, with the names that they usually have. -/
def roots (s : Schema) : List (OperationType × String × String) :=
  [(.query, s.query, "Query"), (.mutation, s.mutation, "Mutation"),
   (.subscription, s.subscription, "Subscription")].filter fun r => r.2.1 ≠ ""

/-- The declaration of roots, if one of them has an unusual name. -/
def schemaDefinition? (s : Schema) : Option SchemaDefinition :=
  if s.roots.any fun r => r.2.1 ≠ r.2.2 then
    some {
      roots := s.roots.map fun r => { operation := r.1, type := r.2.1, pos := default }
      pos := default }
  else none

def namedKind? (s : Schema) (t : TypeRef) : Option Kind := (s.type? t.baseName).map (·.kind)

/-- A reference without its outer non-null wrapper. -/
def nullable : TypeRef → TypeRef
  | .nonNull t => t
  | t => t

/-- The type of the items of a list; unknown if the reference is no list. -/
def itemType : TypeRef → TypeRef
  | .list t => t
  | _ => .absent

/-- The type of a field of an input object; unknown if there is no such field. -/
def entryType (s : Schema) (t : TypeRef) (name : String) : TypeRef :=
  match (s.type? t.baseName).bind (·.inputField? name) with
  | some f => f.type
  | none => .absent

mutual

/-- The literal of a value of a type. A text is an enumeration value where the type says so. -/
def literal (s : Schema) (t : TypeRef) : Value → Literal
  | .null => .null
  | .boolean b => .boolean b
  | .int .plain n => .int (toString n)
  | .float .double x => .float (x.text .double .positional)
  | .string v => if s.namedKind? t = some .enum then .enum v else .string v
  | .list items => .list (literals s (itemType (nullable t)) items)
  | .object entries => .object (literalFields s t entries)
  | .int w n => .string (Value.int w n).text
  | .float w x => .string (Value.float w x).text
  | .moment m => .string m.text
  | .mapping entries => .string (Value.mapping entries).text

def literals (s : Schema) (t : TypeRef) : List Value → List Literal
  | [] => []
  | v :: rest => literal s t v :: literals s t rest

def literalFields (s : Schema) (t : TypeRef) : List (String × Value) → List (String × Literal)
  | [] => []
  | (k, v) :: rest => (k, literal s (s.entryType t k) v) :: literalFields s t rest

end

def defaultLiteral? (s : Schema) (t : TypeRef) (v : Value) : Option Literal :=
  if v.isNull then none else some (s.literal t v)

def deprecatedDirectives : Option String → List Directive
  | none => []
  | some "" => [{ name := "deprecated", pos := default }]
  | some reason =>
    [{ name := "deprecated", pos := default,
       arguments := [{ name := "reason", value := .string reason, pos := default }] }]

def argumentDefinition (s : Schema) (a : InputValue) : ArgumentDefinition where
  name := a.name
  description := a.description
  type := a.type.toExpr
  default := s.defaultLiteral? a.type a.default
  directives := deprecatedDirectives a.deprecated
  pos := default

def inputFieldDefinition (s : Schema) (a : InputValue) : FieldDefinition where
  name := a.name
  description := a.description
  type := a.type.toExpr
  default := s.defaultLiteral? a.type a.default
  directives := deprecatedDirectives a.deprecated
  pos := default

def fieldDefinition (s : Schema) (f : OutputField) : FieldDefinition where
  name := f.name
  description := f.description
  arguments := f.arguments.map s.argumentDefinition
  type := f.type.toExpr
  directives := deprecatedDirectives f.deprecated
  pos := default

def enumValueDefinition (v : EnumValue) : EnumValueDefinition where
  name := v.name
  description := v.description
  directives := deprecatedDirectives v.deprecated
  pos := default

def definition (s : Schema) (t : NamedType) : Definition :=
  let base : Definition :=
    { kind := t.kind, name := t.name, description := t.description, pos := default }
  match t.kind with
  | .object | .interface =>
    { base with interfaces := t.interfaces, fields := t.fields.map s.fieldDefinition }
  | .union => { base with members := t.possibleTypes }
  | .enum => { base with values := t.enumValues.map enumValueDefinition }
  | .inputObject =>
    { base with
      directives := if t.oneOf then [{ name := "oneOf", pos := default }] else []
      fields := t.inputFields.map s.inputFieldDefinition }
  | .scalar =>
    { base with
      directives := match t.specifiedBy with
        | none => []
        | some url =>
          [{ name := "specifiedBy", pos := default,
             arguments := [{ name := "url", value := .string url, pos := default }] }] }
  | .other _ => base

def directiveDefinition (s : Schema) (d : DirectiveType) : DirectiveDefinition where
  name := d.name
  description := d.description
  arguments := d.arguments.map s.argumentDefinition
  locations := d.locations
  repeatable := d.repeatable
  pos := default

def isWritten (d : DirectiveType) : Bool := !d.builtIn && !impliedDirectives.contains d.name

def toDocument (s : Schema) : TypeSystemDocument where
  schemas := s.schemaDefinition?.toList
  directives := (s.directives.filter isWritten).map s.directiveDefinition
  definitions := (s.types.filter fun t => !isImpliedType t.name).map s.definition

/-- A text that ends with exactly one line feed. -/
def endLine (s : String) : String :=
  String.ofList ((s.toList.reverse.dropWhile (· = '\n')).reverse ++ ['\n'])

def render (s : Schema) : String := endLine s.toDocument.text

end Schema

end OperationGraph
