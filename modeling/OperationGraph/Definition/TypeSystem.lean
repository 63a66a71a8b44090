import OperationGraph.Definition.Basic
import OperationGraph.Text.Sorted

/-! # Type systems

The declarations of a document brought together: extensions are merged into the types they extend,
and types and directives can be found by name. `TypeSystem.ofDocument` reports a declaration that
clashes with another one; what the declarations say is checked elsewhere. -/

namespace OperationGraph

/-- Why a document declares no type system, or an ill-formed one. -/
inductive TypeSystemFault where
  | typeRedeclared (name : String)
  | wrongExtension (name : String) (base extension : Kind)
  | directiveRedeclared (name : String)
  | manySchemas
  | missingRoot (operation : OperationType) (type : String)
  | reservedName (name : String)
  | undefinedType (name : String)
  | undefinedTypeQuoted (name : String)
  | notInputType (type : String) (argument : String) (kind : Kind)
  | wrongMemberKind (kind : Kind) (name : String)
  | noFields (kind : Kind) (name : String)
  | noInputFields (kind : Kind) (name : String)
  | noEnumValues (kind : Kind) (name : String)
  | wrongFieldKind (kind : Kind) (name : String)
  | wrongInputFieldKind (kind : Kind) (name : String)
  | reservedEnumValue (kind : Kind) (name value : String)
  | repeatedField (type field : String)
  | selfReference (directive : String)
  | undefinedDirective (name : String)
  | misplacedDirective (name location : String)
  | undefinedArgument (argument directive : String)
  | nullArgument (argument directive : String)
  | notInterface (name : String) (kind : Kind)
  | missingField (type interface field : String)
  | wrongFieldType (type interface field expected : String)
  | missingArgument (type interface field argument : String)
  | wrongArgumentType (type interface field argument : String)
  | extraArgument (type interface field argument : String)
  | circularInterface (type interface : String)
  | missingInterface (type interface via : String)
deriving DecidableEq, Repr

structure TypeSystemError where
  fault : TypeSystemFault
  pos : Position
deriving DecidableEq, Repr

structure TypeSystem where
  description : String := ""
  types : List Definition := []
  directives : List DirectiveDefinition := []
  query : Option String := none
  mutation : Option String := none
  subscription : Option String := none
deriving Repr

namespace TypeSystem

def type? (ts : TypeSystem) (name : String) : Option Definition :=
  ts.types.find? (·.name = name)

def directive? (ts : TypeSystem) (name : String) : Option DirectiveDefinition :=
  ts.directives.find? (·.name = name)

def sortedTypes (ts : TypeSystem) : List Definition := sortBy Definition.name ts.types

def declareType (types : List Definition) (d : Definition) :
    Except TypeSystemError (List Definition) :=
  if types.any (·.name = d.name) then .error ⟨.typeRedeclared d.name, d.pos⟩
  else .ok (types ++ [d])

/-- A type with the parts of an extension behind its own. -/
def merge (d ext : Definition) : Definition :=
  { d with
    directives := d.directives ++ ext.directives
    interfaces := d.interfaces ++ ext.interfaces
    fields := d.fields ++ ext.fields
    members := d.members ++ ext.members
    values := d.values ++ ext.values }

/-- Merges an extension into the type that it extends, which is created if it is missing. -/
def extendType (types : List Definition) (ext : Definition) :
    Except TypeSystemError (List Definition) :=
  match types.find? (·.name = ext.name) with
  | none => .ok (types ++ [{ ext with description := "", builtIn := false }])
  | some d =>
    if d.kind = ext.kind then
      .ok (types.map fun t => if t.name = ext.name then merge t ext else t)
    else .error ⟨.wrongExtension ext.name d.kind ext.kind, ext.pos⟩

/-- Standard directives, which a document may declare anew. -/
def replaceableDirectives : List String :=
  ["include", "skip", "deprecated", "specifiedBy", "defer", "oneOf"]

/-- Adds a directive; a standard one replaces the declaration before it. -/
def declareDirective (ds : List DirectiveDefinition) (d : DirectiveDefinition) :
    Except TypeSystemError (List DirectiveDefinition) :=
  if ds.any (·.name = d.name) then
    if replaceableDirectives.contains d.name then
      .ok (ds.map fun e => if e.name = d.name then d else e)
    else .error ⟨.directiveRedeclared d.name, d.pos⟩
  else .ok (ds ++ [d])

def setRoot (ts : TypeSystem) (op : OperationType) (name : String) : TypeSystem :=
  match op with
  | .query => { ts with query := some name }
  | .mutation => { ts with mutation := some name }
  | .subscription => { ts with subscription := some name }

def declareRoot (ts : TypeSystem) (r : RootDefinition) : Except TypeSystemError TypeSystem :=
  if (ts.type? r.type).isSome then .ok (ts.setRoot r.operation r.type)
  else .error ⟨.missingRoot r.operation r.type, r.pos⟩

/-- Takes the types of the usual names as roots where no root is set. -/
def inferRoots (ts : TypeSystem) : TypeSystem :=
  let usual (root : Option String) (name : String) : Option String :=
    match root with
    | some r => some r
    | none => if (ts.type? name).isSome then some name else none
  { ts with
    query := usual ts.query "Query"
    mutation := usual ts.mutation "Mutation"
    subscription := usual ts.subscription "Subscription" }

def metaFields : List FieldDefinition :=
  [{ name := "__schema", type := .named "__Schema" true default, pos := default },
   { name := "__type", type := .named "__Type" false default, pos := default,
     arguments := [{ name := "name", type := .named "String" true default, pos := default }] }]

/-- Gives the query root the fields of introspection. -/
def addMetaFields (ts : TypeSystem) : TypeSystem :=
  match ts.query with
  | none => ts
  | some q =>
    { ts with
      types := ts.types.map fun d =>
        if d.name = q then { d with fields := d.fields ++ metaFields } else d }

end TypeSystem

end OperationGraph
