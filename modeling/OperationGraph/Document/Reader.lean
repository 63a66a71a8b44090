import OperationGraph.Document.Basic
import OperationGraph.Token.Scan

/-! # Reading tokens

The parts that executable and type-system documents have in common: names, types, values, arguments
and directives. Reading stops at the first fault. A token that the text does not allow is a fault only
where it is looked at, so an unreadable text is reported in the words of the place that met it. -/

namespace OperationGraph

inductive SyntaxFault where
  | expectedKind (kind found : TokenKind)
  | expectedWord (word : String) (found : Token)
  | unexpected (found : Token)
  | emptyGroup (found : TokenKind)
  | lexical (fault : LexicalFault)
deriving DecidableEq, Repr

structure SyntaxError where
  fault : SyntaxFault
  pos : Position
deriving DecidableEq, Repr

def SyntaxFault.message : SyntaxFault → String
  | expectedKind kind found => "Expected " ++ kind.text ++ ", found " ++ found.text
  | expectedWord word found => "Expected " ++ Text.quoted word ++ ", found " ++ found.text
  | unexpected found => "Unexpected " ++ found.text
  | emptyGroup found => "expected at least one definition, found " ++ found.text
  | lexical fault => fault.message

def SyntaxError.diagnostic (e : SyntaxError) : Diagnostic := .at_ e.pos e.fault.message

/-- A reader takes tokens from the front of a list. -/
abbrev Reader := StateT (List Token) (Except SyntaxError)

namespace Reader

def fail {α : Type} (t : Token) (fault : SyntaxFault) : Reader α :=
  throw { fault, pos := t.pos }

def peek : Reader Token := do
  match ← get with
  | t :: _ => return t
  | [] => return { kind := .endOfInput, pos := default }

def skipOne : Reader Unit := modify List.tail

/-- Takes the next token if it has a kind. -/
def skip (kind : TokenKind) : Reader Bool := do
  if (← peek).kind = kind then
    skipOne
    return true
  else return false

def expect (kind : TokenKind) : Reader Token := do
  let t ← peek
  if t.kind = kind then
    skipOne
    return t
  else fail t (.expectedKind kind t.kind)

def expectWord (word : String) : Reader Unit := do
  let t ← peek
  if t.kind = .name && t.value = word then skipOne
  else fail t (.expectedWord word t)

def unexpected {α : Type} : Reader α := do
  let t ← peek
  fail t (.unexpected t)

def name : Reader String := return (← expect .name).value

def itemsUntil {α : Type} (close : TokenKind) (item : Reader α) : Nat → Reader (List α)
  | 0 => unexpected
  | fuel + 1 => do
    if ← skip close then return []
    else
      let a ← item
      return a :: (← itemsUntil close item fuel)

/-- A bound for the number of items to come: every item takes a token. -/
def bound : Reader Nat := return (← get).length + 1

/-- Items between two tokens, possibly none; nothing if the first token does not come. -/
def many {α : Type} (openKind close : TokenKind) (item : Reader α) : Reader (List α) := do
  if ← skip openKind then itemsUntil close item (← bound) else return []

/-- Items between two tokens, at least one; nothing if the first token does not come. -/
def some {α : Type} (openKind close : TokenKind) (item : Reader α) : Reader (List α) := do
  if ← skip openKind then
    let t ← peek
    if t.kind = close then fail t (.emptyGroup t.kind)
    else itemsUntil close item (← bound)
  else return []

def each {α : Type} (lead : TokenKind) (item : Reader α) : Nat → Reader (List α)
  | 0 => return []
  | fuel + 1 => do
    if ← skip lead then
      let a ← item
      return a :: (← each lead item fuel)
    else return []

def separated {α : Type} (separator : TokenKind) (item : Reader α) : Reader (List α) := do
  let _ ← skip separator
  let a ← item
  return a :: (← each separator item (← bound))

/-- A type; `fuel` bounds the nesting of lists. -/
def typeAt : Nat → Reader TypeExpr
  | 0 => unexpected
  | fuel + 1 => do
    if ← skip .bracketL then
      let pos := (← peek).pos
      let element ← typeAt fuel
      let _ ← expect .bracketR
      return .list element (← skip .bang) pos
    else
      let pos := (← peek).pos
      let n ← name
      return .named n (← skip .bang) pos

def type : Reader TypeExpr := do typeAt (← bound)

def variableName : Reader String := do
  let _ ← expect .dollar
  name

/-- A value; variables are refused in a constant one. `fuel` bounds the nesting. -/
def valueAt (constant : Bool) : Nat → Reader Literal
  | 0 => unexpected
  | fuel + 1 => do
    let t ← peek
    match t.kind with
    | .bracketL => return .list (← many .bracketL .bracketR (valueAt constant fuel))
    | .braceL =>
      return .object (← many .braceL .braceR do
        let n ← name
        let _ ← expect .colon
        return (n, ← valueAt constant fuel))
    | .dollar => if constant then unexpected else return .variable (← variableName)
    | .int => skipOne; return .int t.value
    | .float => skipOne; return .float t.value
    | .string => skipOne; return .string t.value
    | .blockString => skipOne; return .block t.value
    | .name =>
      skipOne
      return if t.value = "true" then .boolean true
        else if t.value = "false" then .boolean false
        else if t.value = "null" then .null
        else .enum t.value
    | _ => unexpected

def value (constant : Bool) : Reader Literal := do valueAt constant (← bound)

def arguments (constant : Bool) : Reader (List Argument) :=
  some .parenL .parenR do
    let pos := (← peek).pos
    let name ← name
    let _ ← expect .colon
    return { name, value := ← value constant, pos }

/-- The directives that come next. A directive's place is its name. -/
def directives (constant : Bool) : Reader (List Directive) := do
  each .at_ (do
    let pos := (← peek).pos
    let name ← name
    return { name, arguments := ← arguments constant, pos }) (← bound)

def defaultValue : Reader (Option Literal) := do
  if ← skip .equals then return Option.some (← value true) else return none

end Reader

end OperationGraph
