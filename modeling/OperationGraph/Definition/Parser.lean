import OperationGraph.Definition.Basic
import OperationGraph.Document.Parser

/-! # Reading type-system documents -/

namespace OperationGraph.Reader

/-- A description in front of a definition; empty if there is none. -/
def description : Reader String := do
  let t ← peek
  if t.kind = .string || t.kind = .blockString then
    skipOne
    return t.value
  else return ""

def argumentDefinition : Reader ArgumentDefinition := do
  let pos := (← peek).pos
  let description ← description
  let name ← name
  let _ ← expect .colon
  let type ← type
  let default ← defaultValue
  return { name, description, type, default, directives := ← directives true, pos }

def argumentDefinitions : Reader (List ArgumentDefinition) :=
  some .parenL .parenR argumentDefinition

def fieldDefinitions : Reader (List FieldDefinition) :=
  some .braceL .braceR do
    let pos := (← peek).pos
    let description ← description
    let name ← name
    let arguments ← argumentDefinitions
    let _ ← expect .colon
    let type ← type
    return { name, description, arguments, type, directives := ← directives true, pos }

def inputFieldDefinitions : Reader (List FieldDefinition) :=
  some .braceL .braceR do
    let a ← argumentDefinition
    return { name := a.name, description := a.description, type := a.type, default := a.default,
             directives := a.directives, pos := a.pos }

def enumValueDefinitions : Reader (List EnumValueDefinition) :=
  some .braceL .braceR do
    let pos := (← peek).pos
    let description ← description
    let name ← name
    return { name, description, directives := ← directives true, pos }

/-- The interfaces after the word `implements`. -/
def interfaces : Reader (List String) := do
  if (← peek).value = "implements" then
    skipOne
    separated .amp name
  else return []

def unionMembers : Reader (List String) := do
  if ← skip .equals then separated .pipe name else return []

/-- The parts that follow the name of a type, by kind; an extension of an interface lists no
interfaces, and the directives of an extended input object may use variables. -/
def definitionBody (extension : Bool) (d : Definition) : Reader Definition := do
  match d.kind with
  | .scalar => return { d with directives := ← directives true }
  | .object =>
    let interfaces ← interfaces
    let directives ← directives true
    return { d with interfaces, directives, fields := ← fieldDefinitions }
  | .interface =>
    let interfaces ← if extension then pure [] else interfaces
    let directives ← directives true
    return { d with interfaces, directives, fields := ← fieldDefinitions }
  | .union =>
    let directives ← directives true
    return { d with directives, members := ← unionMembers }
  | .enum =>
    let directives ← directives true
    return { d with directives, values := ← enumValueDefinitions }
  | .inputObject =>
    let directives ← directives (!extension)
    return { d with directives, fields := ← inputFieldDefinitions }
  | .other _ => return d

def kindOfWord? (word : String) : Option Kind :=
  if word = "scalar" then Option.some .scalar
  else if word = "type" then Option.some .object
  else if word = "interface" then Option.some .interface
  else if word = "union" then Option.some .union
  else if word = "enum" then Option.some .enum
  else if word = "input" then Option.some .inputObject
  else none

def definition (builtIn : Bool) (kind : Kind) (description : String) : Reader Definition := do
  skipOne
  let pos := (← peek).pos
  let name ← name
  definitionBody false { kind, name, description, pos, builtIn }

def addsSomething (d : Definition) : Bool :=
  !(d.directives.isEmpty && d.interfaces.isEmpty && d.fields.isEmpty && d.members.isEmpty
    && d.values.isEmpty)

/-- An extension of a type after the word `extend`. -/
def extension (builtIn : Bool) (word : String) (kind : Kind) : Reader Definition := do
  expectWord word
  let pos := (← peek).pos
  let name ← name
  let d ← definitionBody true { kind, name, pos, builtIn }
  if addsSomething d then return d else unexpected

def roots : Reader (List RootDefinition) :=
  some .braceL .braceR do
    let pos := (← peek).pos
    let operation ← operationType
    let _ ← expect .colon
    return { operation, type := ← name, pos }

def schemaDefinition (description : String) : Reader SchemaDefinition := do
  skipOne
  let pos := (← peek).pos
  let directives ← directives true
  return { description, directives, roots := ← roots, pos }

/-- An extension of the root types after the word `extend`. -/
def schemaExtension : Reader SchemaDefinition := do
  expectWord "schema"
  let pos := (← peek).pos
  let directives ← directives true
  let roots ← roots
  if directives.isEmpty && roots.isEmpty then unexpected
  else return { directives, roots, pos }

def directiveLocation : Reader String := do
  let t ← expect .name
  if directiveLocations.contains t.value then return t.value else fail t (.unexpected t)

def directiveDefinition (builtIn : Bool) (description : String) : Reader DirectiveDefinition := do
  skipOne
  let _ ← expect .at_
  let pos := (← peek).pos
  let name ← name
  let arguments ← argumentDefinitions
  let t ← peek
  let repeatable ← if t.kind = .name && t.value = "repeatable" then do skipOne; pure true
    else pure false
  expectWord "on"
  return { name, description, arguments, locations := ← separated .pipe directiveLocation,
           repeatable, pos, builtIn }

/-- What follows the word `extend`. -/
def extended (builtIn : Bool) (doc : TypeSystemDocument) : Reader TypeSystemDocument := do
  let t ← peek
  if t.value = "schema" then
    return { doc with schemaExtensions := doc.schemaExtensions ++ [← schemaExtension] }
  else
    match kindOfWord? t.value with
    | Option.some kind =>
      return { doc with extensions := doc.extensions ++ [← extension builtIn t.value kind] }
    | none => unexpected

def declared (builtIn : Bool) (doc : TypeSystemDocument) : Reader TypeSystemDocument := do
  let before ← peek
  let description ← description
  let t ← peek
  if t.kind ≠ .name then unexpected
  else if t.value = "schema" then
    return { doc with schemas := doc.schemas ++ [← schemaDefinition description] }
  else if t.value = "directive" then
    return { doc with directives := doc.directives ++ [← directiveDefinition builtIn description] }
  else if t.value = "extend" then
    if description ≠ "" then fail before (.unexpected before)
    else
      skipOne
      extended builtIn doc
  else
    match kindOfWord? t.value with
    | Option.some kind =>
      return { doc with definitions := doc.definitions ++ [← definition builtIn kind description] }
    | none => unexpected

/-- The declarations up to the end of input, `fuel` of them at most. -/
def typeSystemAt (builtIn : Bool) : Nat → TypeSystemDocument → Reader TypeSystemDocument
  | 0, _ => unexpected
  | fuel + 1, doc => do
    if (← peek).kind = .endOfInput then return doc
    else typeSystemAt builtIn fuel (← declared builtIn doc)

end Reader

def TypeSystemDocument.parse (s : Source) : Except SyntaxError TypeSystemDocument :=
  let ts := s.tokens
  (·.1) <$> (Reader.typeSystemAt s.builtIn (ts.length + 1) {}).run ts

/-- Reads several sources as one document, up to the first fault. -/
def TypeSystemDocument.parseAll (sources : List Source) : Except SyntaxError TypeSystemDocument :=
  sources.foldlM (fun doc s => doc.append <$> TypeSystemDocument.parse s) {}

end OperationGraph
