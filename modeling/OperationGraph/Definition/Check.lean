import OperationGraph.Definition.TypeSystem
import OperationGraph.Text.Quoted

/-! # Checking type systems

The rules that a type system has to keep. They are tried in a fixed order, and the first one that is
broken is reported: type by type in the order of names, then directive by directive. -/

namespace OperationGraph

namespace TypeSystemFault

def message : TypeSystemFault → String
  | typeRedeclared n => "Cannot redeclare type " ++ n ++ "."
  | wrongExtension n base ext =>
    "Cannot extend type " ++ n ++ " because the base type is a " ++ base.text ++ ", not "
      ++ ext.text ++ "."
  | directiveRedeclared n => "Cannot redeclare directive " ++ n ++ "."
  | manySchemas =>
    "Cannot have multiple schema entry points, consider schema extensions instead."
  | missingRoot op t =>
    "Schema root " ++ op.text ++ " refers to a type " ++ t ++ " that does not exist."
  | reservedName n =>
    "Name \"" ++ n ++ "\" must not begin with \"__\", which is reserved by GraphQL introspection."
  | undefinedType n => "Undefined type " ++ n ++ "."
  | undefinedTypeQuoted n => "Undefined type " ++ Text.quoted n ++ "."
  | notInputType t a kind =>
    "cannot use " ++ t ++ " as argument " ++ a ++ " because " ++ kind.text
      ++ " is not a valid input type"
  | wrongMemberKind kind n => kind.text ++ " type " ++ Text.quoted n ++ " must be OBJECT."
  | noFields kind n => kind.text ++ " " ++ n ++ ": must define one or more fields."
  | noInputFields kind n => kind.text ++ " " ++ n ++ ": must define one or more input fields."
  | noEnumValues kind n => kind.text ++ " " ++ n ++ ": must define one or more unique enum values."
  | wrongFieldKind kind n =>
    kind.text ++ " " ++ n ++ ": field must be one of SCALAR, OBJECT, INTERFACE, UNION, ENUM."
  | wrongInputFieldKind kind n =>
    kind.text ++ " " ++ n ++ ": field must be one of SCALAR, ENUM, INPUT_OBJECT."
  | reservedEnumValue kind n v => kind.text ++ " " ++ n ++ ": non-enum value " ++ v ++ "."
  | repeatedField t f => "Field " ++ t ++ "." ++ f ++ " can only be defined once."
  | selfReference d => "Directive " ++ d ++ " cannot refer to itself."
  | undefinedDirective n => "Undefined directive " ++ n ++ "."
  | misplacedDirective n loc => "Directive " ++ n ++ " is not applicable on " ++ loc ++ "."
  | undefinedArgument a d => "Undefined argument " ++ a ++ " for directive " ++ d ++ "."
  | nullArgument a d => "Argument " ++ a ++ " for directive " ++ d ++ " cannot be null."
  | notInterface n kind => Text.quoted n ++ " is a non interface type " ++ kind.text ++ "."
  | missingField t i f =>
    "For " ++ t ++ " to implement " ++ i ++ " it must have a field called " ++ f ++ "."
  | wrongFieldType t i f expected =>
    "For " ++ t ++ " to implement " ++ i ++ " the field " ++ f ++ " must have type " ++ expected
      ++ "."
  | missingArgument t i f a =>
    "For " ++ t ++ " to implement " ++ i ++ " the field " ++ f
      ++ " must have the same arguments but it is missing " ++ a ++ "."
  | wrongArgumentType t i f a =>
    "For " ++ t ++ " to implement " ++ i ++ " the field " ++ f
      ++ " must have the same arguments but " ++ a ++ " has the wrong type."
  | extraArgument t i f a =>
    "For " ++ t ++ " to implement " ++ i ++ " any additional arguments on " ++ f
      ++ " must be optional or have a default value but " ++ a ++ " is required."
  | circularInterface t i =>
    "Type " ++ t ++ " cannot implement " ++ i
      ++ " because it would create a circular reference."
  | missingInterface t i via =>
    "Type " ++ t ++ " must implement " ++ i ++ " because it is implemented by " ++ via ++ "."

end TypeSystemFault

def TypeSystemError.diagnostic (e : TypeSystemError) : Diagnostic := .at_ e.pos e.fault.message

namespace TypeSystem

abbrev Checked := Except TypeSystemError Unit

/-- Fails at a place unless a condition holds. -/
def require (condition : Bool) (pos : Position) (fault : TypeSystemFault) : Checked :=
  if condition then .ok () else .error ⟨fault, pos⟩

def checkAll {α : Type} (check : α → Checked) : List α → Checked
  | [] => .ok ()
  | a :: rest => do check a; checkAll check rest

/-- Names of documents do not begin with two underscores. -/
def checkName (pos : Position) (name : String) : Checked :=
  require (!"__".isPrefixOf name) pos (.reservedName name)

/-- Arguments that a directive needs: never null and without a default. -/
def isRequired (a : ArgumentDefinition) : Bool := a.type.nonNull && a.default.isNone

/-- Whether an argument is given and is not the word `null`. -/
def isGiven (args : List Argument) (name : String) : Bool :=
  match Argument.find? name args with
  | some { value := .null, .. } => false
  | some _ => true
  | none => false

def checkGivenArguments (d : Directive) (decl : DirectiveDefinition) : Checked := do
  checkAll (fun a => require (decl.arguments.any (·.name = a.name)) a.pos
    (.undefinedArgument a.name d.name)) d.arguments
  checkAll (fun a => require (!isRequired a || isGiven d.arguments a.name) d.pos
    (.nullArgument a.name d.name)) decl.arguments

/-- Checks one use of a directive at a location; `within` is the directive being declared. -/
def checkDirective (ts : TypeSystem) (location : String) (within : Option String)
    (d : Directive) : Checked := do
  checkName d.pos d.name
  require (within ≠ some d.name) d.pos (.selfReference d.name)
  match ts.directive? d.name with
  | none => .error ⟨.undefinedDirective d.name, d.pos⟩
  | some decl =>
    require (decl.locations.contains location) d.pos (.misplacedDirective d.name location)
    checkGivenArguments d decl

def checkDirectives (ts : TypeSystem) (location : String) (within : Option String)
    (ds : List Directive) : Checked :=
  checkAll (ts.checkDirective location within) ds

def checkType (ts : TypeSystem) (t : TypeExpr) : Except TypeSystemError Definition :=
  match ts.type? t.baseName with
  | some d => .ok d
  | none => .error ⟨.undefinedType t.baseName, t.pos⟩

/-- Checks the arguments that a field or a directive takes. -/
def checkArguments (ts : TypeSystem) (within : Option String)
    (args : List ArgumentDefinition) : Checked :=
  checkAll (fun a => do
    checkName a.pos a.name
    let d ← ts.checkType a.type
    require d.kind.isInput a.pos (.notInputType a.type.text a.name d.kind)
    ts.checkDirectives "ARGUMENT_DEFINITION" within a.directives) args

/-- Checks the names, types, arguments and directives of the fields of a type. -/
def checkFields (ts : TypeSystem) (d : Definition) : Checked :=
  let location := if d.kind = .inputObject then "INPUT_FIELD_DEFINITION" else "FIELD_DEFINITION"
  checkAll (fun f => do
    checkName f.pos f.name
    let _ ← ts.checkType f.type
    ts.checkArguments none f.arguments
    ts.checkDirectives location none f.directives) d.fields

def checkMembers (ts : TypeSystem) (d : Definition) : Checked :=
  checkAll (fun m =>
    match ts.type? m with
    | none => .error ⟨.undefinedTypeQuoted m, d.pos⟩
    | some t => require (t.kind = .object) d.pos (.wrongMemberKind d.kind m)) d.members

/-- The names that may stand for a type: the objects and interfaces that implement it, and the
members of a union. -/
def substitutes (ts : TypeSystem) (name : String) : List String :=
  ts.types.flatMap fun d =>
    match d.kind with
    | .union => if d.name = name then d.members else []
    | .object | .inputObject =>
      (if d.interfaces.contains name then [d.name] else [])
        ++ (if d.name = name then [d.name] else [])
    | .interface => if d.interfaces.contains name then [d.name] else []
    | _ => []

/-- Whether a field of the second type can stand in for one of the first. -/
def isCovariant (ts : TypeSystem) : TypeExpr → TypeExpr → Bool
  | .named n b _, .named m c _ => (!b || c) && (n = m || (ts.substitutes n).contains m)
  | .list e b _, .list f c _ => (!b || c) && ts.isCovariant e f
  | _, _ => false

/-- Whether an argument of the second type can stand in for one of the first. -/
def isCompatible : TypeExpr → TypeExpr → Bool
  | .named n b _, .named m c _ => n = m && (!c || b)
  | .list e b _, .list f c _ => isCompatible e f && (!c || b)
  | _, _ => false

def checkImplementedField (ts : TypeSystem) (d i : Definition) (required : FieldDefinition) :
    Checked :=
  match d.fields.find? (·.name = required.name) with
  | none => .error ⟨.missingField d.name i.name required.name, d.pos⟩
  | some found => do
    require (ts.isCovariant required.type found.type) found.pos
      (.wrongFieldType d.name i.name required.name required.type.text)
    checkAll (fun a =>
      match found.arguments.find? (·.name = a.name) with
      | none => .error ⟨.missingArgument d.name i.name required.name a.name, found.pos⟩
      | some b => require (isCompatible a.type b.type) b.pos
          (.wrongArgumentType d.name i.name required.name a.name)) required.arguments
    checkAll (fun b =>
      require (required.arguments.any (·.name = b.name) || !isRequired b) b.pos
        (.extraArgument d.name i.name found.name b.name)) found.arguments

def checkImplements (ts : TypeSystem) (d : Definition) (name : String) : Checked :=
  match ts.type? name with
  | none => .error ⟨.undefinedTypeQuoted name, d.pos⟩
  | some i => do
    require (i.kind = .interface) d.pos (.notInterface name i.kind)
    checkAll (ts.checkImplementedField d i) i.fields
    checkAll (fun j =>
      require (d.interfaces.contains j) d.pos
        (if j = d.name then .circularInterface d.name name
          else .missingInterface d.name j name)) i.interfaces

def kindAllowed (ts : TypeSystem) (allowed : Kind → Bool) (f : FieldDefinition) : Bool :=
  match ts.type? f.type.baseName with
  | some t => allowed t.kind
  | none => true

def fieldKind (ts : TypeSystem) (f : FieldDefinition) : Kind :=
  match ts.type? f.type.baseName with
  | some t => t.kind
  | none => .scalar

def checkKind (ts : TypeSystem) (d : Definition) : Checked :=
  match d.kind with
  | .object | .interface => do
    require (!d.fields.isEmpty) d.pos (.noFields d.kind d.name)
    checkAll (fun f => require (ts.kindAllowed Kind.isOutput f) f.pos
      (.wrongFieldKind d.kind d.name)) d.fields
  | .enum => do
    require (!d.values.isEmpty) d.pos (.noEnumValues d.kind d.name)
    checkAll (fun v => do
      require (!(["true", "false", "null"].contains v.name)) d.pos
        (.reservedEnumValue d.kind d.name v.name)
      ts.checkDirectives "ENUM_VALUE" none v.directives) d.values
  | .inputObject => do
    require (!d.fields.isEmpty) d.pos (.noInputFields d.kind d.name)
    checkAll (fun f => require (ts.kindAllowed Kind.isInput f) f.pos
      (.wrongInputFieldKind (ts.fieldKind f) f.name)) d.fields
  | _ => .ok ()

def checkDistinctFields (type : String) : List FieldDefinition → Checked
  | [] => .ok ()
  | f :: rest => do
    match rest.find? (·.name = f.name) with
    | some g => .error ⟨.repeatedField type g.name, g.pos⟩
    | none => checkDistinctFields type rest

def checkDefinition (ts : TypeSystem) (d : Definition) : Checked := do
  ts.checkFields d
  ts.checkMembers d
  checkAll (ts.checkImplements d) d.interfaces
  ts.checkKind d
  checkDistinctFields d.name d.fields
  if d.builtIn then pure () else checkName d.pos d.name
  ts.checkDirectives d.kind.text none d.directives

def checkDirectiveDefinition (ts : TypeSystem) (d : DirectiveDefinition) : Checked := do
  checkName d.pos d.name
  ts.checkArguments (some d.name) d.arguments

/-- Checks all types and directives in the order of their names. -/
def check (ts : TypeSystem) : Checked := do
  checkAll ts.checkDefinition ts.sortedTypes
  checkAll ts.checkDirectiveDefinition (sortBy DirectiveDefinition.name ts.directives)

/-- Takes over the roots and checks the directives of a declaration of roots. -/
def declareSchema (ts : TypeSystem) (s : SchemaDefinition) : Except TypeSystemError TypeSystem := do
  let ts ← s.roots.foldlM declareRoot ts
  ts.checkDirectives "SCHEMA" none s.directives
  return ts

def ofDocument (doc : TypeSystemDocument) : Except TypeSystemError TypeSystem := do
  let types ← doc.definitions.foldlM declareType []
  let types ← doc.extensions.foldlM extendType types
  let directives ← doc.directives.foldlM declareDirective []
  match doc.schemas with
  | _ :: second :: _ => .error ⟨.manySchemas, second.pos⟩
  | schemas =>
    let ts : TypeSystem :=
      { types, directives, description := (schemas.head?.map (·.description)).getD "" }
    let ts ← schemas.foldlM declareSchema ts
    let ts ← doc.schemaExtensions.foldlM declareSchema ts
    ts.check
    let ts := if schemas.isEmpty then ts.inferRoots else ts
    return ts.addMetaFields

end TypeSystem

end OperationGraph
