import OperationGraph.Definition.Basic
import OperationGraph.Text.Blank
import OperationGraph.Text.Quoted

/-! # Writing type-system documents

A page takes words, which have a blank between them, and signs, which have none. Lines are indented
by tabs. -/

namespace OperationGraph

/-- A text being written: whether a blank is due before the next word, and whether the next thing
begins a line. -/
structure Page where
  text : String := ""
  indent : Nat := 0
  pad : Bool := false
  lineHead : Bool := false
deriving DecidableEq, Repr

namespace Page

/-- Writes the indentation if a line begins. -/
def begin_ (p : Page) : Page :=
  if p.lineHead then
    { p with text := p.text ++ String.ofList (List.replicate p.indent '\t'), lineHead := false,
             pad := false }
  else p

/-- Writes a blank if one is due. -/
def blank (p : Page) : Page := if p.pad then { p with text := p.text ++ " " } else p

/-- Writes a word without the white space around it; a blank is due after it. -/
def word (w : String) (p : Page) : Page :=
  let p := p.begin_.blank
  { p with text := p.text ++ Text.trimBlanks w, pad := true }

/-- Writes a sign as it is; no blank is due after it. -/
def sign (s : String) (p : Page) : Page :=
  let p := p.begin_.blank
  { p with text := p.text ++ s, pad := false }

def newLine (p : Page) : Page := { p with text := p.text ++ "\n", lineHead := true, pad := false }

def needPad (p : Page) : Page := { p with pad := true }

def noPad (p : Page) : Page := { p with pad := false }

def indentMore (p : Page) : Page := { p with indent := p.indent + 1 }

def indentLess (p : Page) : Page := { p with indent := p.indent - 1 }

def each {α : Type} (write : α → Page → Page) (xs : List α) (p : Page) : Page :=
  xs.foldl (fun p a => write a p) p

/-- Writes elements in turn, and something after each but the last. -/
def eachBetween {α : Type} (write between : α → Page → Page) : List α → Page → Page
  | [], p => p
  | [a], p => write a p
  | a :: rest, p => eachBetween write between rest (between a (write a p))

def comma (p : Page) : Page := p.noPad.word ","

def description (s : String) (p : Page) : Page :=
  if s = "" then p
  else
    let p := (p.sign "\"\"\"").newLine
    let p := p.each (fun line p => (p.sign line).newLine) (Text.split '\n' s)
    (p.sign "\"\"\"").newLine

end Page

mutual

def Literal.notationText : Literal → String
  | .variable n => "$" ++ n
  | .int r => r
  | .float r => r
  | .string s => Text.quoted s
  | .block s => Text.quoted s
  | .boolean b => if b then "true" else "false"
  | .null => "null"
  | .enum n => n
  | .list items => "[" ++ ",".intercalate (Literal.itemTexts items) ++ "]"
  | .object fields => "\x7b" ++ ",".intercalate (Literal.fieldTexts fields) ++ "\x7d"

def Literal.itemTexts : List Literal → List String
  | [] => []
  | l :: rest => l.notationText :: Literal.itemTexts rest

def Literal.fieldTexts : List (String × Literal) → List String
  | [] => []
  | (k, l) :: rest => (k ++ ":" ++ l.notationText) :: Literal.fieldTexts rest

end

namespace Page

def label (name : String) (p : Page) : Page := ((p.word name).noPad.sign ":").needPad

def directive (d : Directive) (p : Page) : Page :=
  let p := (p.sign "@").word d.name
  if d.arguments.isEmpty then p
  else
    let p := p.noPad.sign "("
    let p := p.eachBetween (fun a p => (p.label a.name).sign a.value.notationText)
      (fun _ => comma) d.arguments
    (p.sign ")").needPad

def defaultValue (v : Option Literal) (p : Page) : Page :=
  match v with
  | some l => (p.word "=").sign l.notationText
  | none => p

/-- An argument that is taken; one with a description stands on lines of its own. -/
def argument (a : ArgumentDefinition) (p : Page) : Page :=
  let p := if a.description = "" then p
    else p.newLine.indentMore.description a.description
  let p := ((p.label a.name).word a.type.text).defaultValue a.default
  let p := p.needPad.each directive a.directives
  if a.description = "" then p else p.indentLess.newLine

def arguments (args : List ArgumentDefinition) (p : Page) : Page :=
  if args.isEmpty then p
  else
    let p := p.sign "("
    let p := p.eachBetween argument (fun a p => if a.description = "" then p.comma else p) args
    (p.noPad.sign ")").needPad

/-- A field on a line of its own; reserved names are left out. -/
def field (f : FieldDefinition) (p : Page) : Page :=
  if "__".isPrefixOf f.name then p
  else
    let p := ((p.description f.description).word f.name).noPad
    let p := ((p.arguments f.arguments).noPad.sign ":").needPad
    let p := (p.word f.type.text).defaultValue f.default
    (p.each directive f.directives).newLine

def enumValue (v : EnumValueDefinition) (p : Page) : Page :=
  (((p.description v.description).word v.name).each directive v.directives).newLine

def block {α : Type} (write : α → Page → Page) (xs : List α) (p : Page) : Page :=
  if xs.isEmpty then p
  else (((p.sign "\x7b").newLine.indentMore.each write xs).indentLess).sign "\x7d"

def keyword? : Kind → Option String
  | .scalar => some "scalar"
  | .object => some "type"
  | .interface => some "interface"
  | .union => some "union"
  | .enum => some "enum"
  | .inputObject => some "input"
  | .other _ => none

def definition (d : Definition) (p : Page) : Page :=
  let p := p.description d.description
  let p := match keyword? d.kind with
    | some w => (p.word w).word d.name
    | none => p
  let p := if d.interfaces.isEmpty then p
    else (p.word "implements").word (" & ".intercalate d.interfaces)
  let p := p.each directive d.directives
  let p := if d.members.isEmpty then p else (p.word "=").word (" | ".intercalate d.members)
  ((p.block field d.fields).block enumValue d.values).newLine

def directiveDefinition (d : DirectiveDefinition) (p : Page) : Page :=
  let p := (((p.description d.description).word "directive").sign "@").word d.name
  let p := if d.arguments.isEmpty then p else p.noPad.arguments d.arguments
  let p := if d.repeatable then p.word "repeatable" else p
  let p := if d.locations.isEmpty then p
    else (p.word "on").eachBetween word (fun _ => word "|") d.locations
  p.newLine

def schemaDefinition (s : SchemaDefinition) (p : Page) : Page :=
  let p := ((p.word "schema").sign "\x7b").newLine.indentMore
  let p := p.each (fun r p => ((p.label r.operation.text).word r.type).newLine) s.roots
  (p.indentLess.sign "\x7d").newLine

end Page

def TypeSystemDocument.text (doc : TypeSystemDocument) : String :=
  let p : Page := {}
  let p := p.each Page.schemaDefinition doc.schemas
  let p := p.each Page.directiveDefinition doc.directives
  (p.each Page.definition doc.definitions).text

end OperationGraph
