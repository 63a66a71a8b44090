/-! # Places in structured text

A cursor walks over a text and counts characters, lines and columns from zero. Besides the usual two,
three more characters break lines. -/

namespace OperationGraph.Yaml

structure Mark where
  index : Nat := 0
  line : Nat := 0
  column : Nat := 0
deriving DecidableEq, Repr, Inhabited

def isBreak (c : Char) : Bool :=
  c = '\n' || c = '\r' || c = '\x85' || c = '\u2028' || c = '\u2029'

def isBlank (c : Char) : Bool := c = ' ' || c = '\t'

def isNameChar (c : Char) : Bool := c.isAlphanum || c = '_' || c = '-'

def endsLine (c : Option Char) : Bool := (c.map isBreak).getD true

def endsWord (c : Option Char) : Bool := (c.map fun c => isBlank c || isBreak c).getD true

/-- Whether a character may stand in a text at all. -/
def isAllowed (c : Char) : Bool :=
  let n := c.toNat
  n = 0x09 || n = 0x0A || n = 0x0D || (0x20 ≤ n && n ≤ 0x7E) || n = 0x85
    || (0xA0 ≤ n && n ≤ 0xFFFD && n ≠ 0xFEFF) || 0x10000 ≤ n

/-- What remains of a text, and the place where it starts. -/
structure Cursor where
  rest : List Char
  mark : Mark := {}
deriving Repr

namespace Cursor

def here (c : Cursor) : Option Char := c.rest.head?

def next (c : Cursor) : Option Char := (c.rest.drop 1).head?

/-- Goes past characters of a line. -/
def advance (c : Cursor) (n : Nat) : Cursor :=
  { rest := c.rest.drop n,
    mark := { c.mark with index := c.mark.index + n, column := c.mark.column + n } }

def atBreak (c : Cursor) : Bool := (c.here.map isBreak).getD false

def atBlank (c : Cursor) : Bool := (c.here.map isBlank).getD false

/-- The text of the line break at the cursor: mostly a line feed. -/
def breakText (c : Cursor) : List Char :=
  match c.here with
  | some '\u2028' => ['\u2028']
  | some '\u2029' => ['\u2029']
  | some _ => ['\n']
  | none => []

def nextLine (c : Cursor) : Cursor :=
  let n := match c.rest with
    | '\r' :: '\n' :: _ => 2
    | _ => 1
  { rest := c.rest.drop n, mark := ⟨c.mark.index + n, c.mark.line + 1, 0⟩ }

/-- Goes past the characters that satisfy a condition, all on one line. -/
def skipWhile (p : Char → Bool) (c : Cursor) : Cursor := c.advance (c.rest.takeWhile p).length

def skipBlanks (c : Cursor) : Cursor := c.skipWhile isBlank

def skipLine (c : Cursor) : Cursor := c.skipWhile (!isBreak ·)

/-- Goes past a comment that follows on the line. -/
def skipComment (c : Cursor) : Cursor :=
  let after := c.skipBlanks
  if after.here = some '#' then after.skipLine else c

/-- Whether three signs for the start or the end of a document stand at the start of a line. -/
def atDocumentSign (sign : Char) (c : Cursor) : Bool :=
  c.mark.column = 0 &&
    match c.rest with
    | x :: y :: z :: rest => x = sign && y = sign && z = sign && endsWord rest.head?
    | _ => false

def atDocumentBound (c : Cursor) : Bool := c.atDocumentSign '-' || c.atDocumentSign '.'

end Cursor

end OperationGraph.Yaml
