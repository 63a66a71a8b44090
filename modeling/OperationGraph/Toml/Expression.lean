import OperationGraph.Toml.Scalar

/-! # Expressions in tables of settings

A document is a series of expressions on lines of their own: a key with a value, or a key in brackets
that starts a table. Values are kept as they are spelled until the names in the expression have been
looked at. -/

namespace OperationGraph.Toml

abbrev Key := List String

inductive Item where
  | text (s : String)
  | scalar (s : Scalar)
  | array (items : List Item)
  | table (entries : List (Key × Item))
deriving Repr

inductive Expression where
  | entry (key : Key) (item : Item)
  | table (key : Key)
  | arrayTable (key : Key)
deriving Repr

def skipGaps (cs : List Char) : List Char := cs.dropWhile fun c => c = ' ' || c = '\t'

def lineBreak : List Char → Except Fault (List Char)
  | [] => .ok []
  | '\n' :: rest => .ok rest
  | '\r' :: '\n' :: rest => .ok rest
  | ['\r'] => .error .returnAtEnd
  | c :: _ => if c = '\r' then .error .loneReturn else .error (.expectedBreak (leadByte c))

/-- Drops a comment up to the end of the line. -/
def comment : List Char → Except Fault (List Char)
  | [] => .ok []
  | '\n' :: rest => .ok ('\n' :: rest)
  | '\r' :: '\n' :: rest => .ok ('\n' :: rest)
  | c :: rest => if c = '\r' || isForbidden c then .error .commentCharacter else comment rest

/-- Drops blanks, comments and line breaks; `fuel` bounds the lines. -/
def skipLines : Nat → List Char → Except Fault (List Char)
  | 0, cs => .ok cs
  | fuel + 1, cs => do
    let rest ← match skipGaps cs with
      | '#' :: r => comment r
      | r => .ok r
    match rest with
    | [] => return []
    | c :: r => if c = '\n' || c = '\r' then skipLines fuel (← lineBreak (c :: r)) else return c :: r

def sign (c : Char) : List Char → Except Fault (List Char)
  | [] => .error (.endBeforeSign c)
  | d :: rest => if d = c then .ok rest else .error (.expectedSign c)

/-- Whether a character may stand in a key without quotes. -/
def isKeyChar (c : Char) : Bool := c.isAlphanum || c = '_' || c = '-'

def keyPart : List Char → Read String
  | [] => .error .endBeforeKey
  | '\'' :: rest => literalText [] rest
  | '"' :: rest => basicText rest
  | c :: rest =>
    if isKeyChar c then
      .ok (String.ofList ((c :: rest).takeWhile isKeyChar), (c :: rest).dropWhile isKeyChar)
    else .error (.keyStart (leadByte c))

/-- Reads a key of parts with points between, and the blanks after it; `fuel` bounds their number. -/
def key : Nat → List Char → Read Key
  | 0, _ => .error .endBeforeKey
  | fuel + 1, cs =>
    match keyPart cs with
    | .error f => .error f
    | .ok (k, rest) =>
      match skipGaps rest with
      | '.' :: r => (key fuel (skipGaps r)).map fun (ks, r) => (k :: ks, r)
      | r => .ok ([k], r)

def keyAndEquals (fuel : Nat) (cs : List Char) : Read Key :=
  match key fuel cs with
  | .error f => .error f
  | .ok (_, []) => .error .endBeforeEquals
  | .ok (k, rest) => (sign '=' rest).map fun r => (k, skipGaps r)

mutual

/-- Reads a value; `fuel` bounds the steps. -/
def item : Nat → List Char → Read Item
  | 0, _ => .error .endBeforeValue
  | fuel + 1, cs =>
    match cs with
    | [] => .error .endBeforeValue
    | '[' :: rest => (items fuel true rest).map fun (is, r) => (.array is, r)
    | '{' :: rest => (entries fuel true rest).map fun (es, r) => (.table es, r)
    | c :: rest =>
      if c = '"' || c = '\'' then (text (c :: rest)).map fun (s, r) => (.text s, r)
      else (scalar (c :: rest)).map fun (s, r) => (.scalar s, r)

/-- Reads the items of an array up to its closing bracket; `first` tells that there was none yet. -/
def items : Nat → Bool → List Char → Except Fault (List Item × List Char)
  | 0, _, _ => .error .arrayIncomplete
  | fuel + 1, first, cs => do
    if cs.isEmpty then throw (.endBeforeSign ']')
    match ← skipLines fuel cs with
    | [] => throw .arrayIncomplete
    | ']' :: rest => return ([], rest)
    | c :: rest =>
      if c = ',' && first then throw .arrayStartsWithComma
      if c ≠ ',' && !first then throw .arrayWithoutComma
      let rest ← if c = ',' then skipLines fuel rest else pure (c :: rest)
      match rest with
      | ']' :: rest => return ([], rest)
      | rest =>
        let (i, rest) ← item fuel rest
        let rest ← skipLines fuel rest
        let (is, rest) ← items fuel false rest
        return (i :: is, rest)

/-- Reads the entries of a table on one line up to its closing brace. -/
def entries : Nat → Bool → List Char → Except Fault (List (Key × Item) × List Char)
  | 0, _, _ => .error .tableIncomplete
  | fuel + 1, first, cs => do
    if cs.isEmpty then throw (.endBeforeSign '}')
    match skipGaps cs with
    | [] => throw .tableIncomplete
    | '}' :: rest => return ([], rest)
    | rest =>
      let rest ← if first then pure rest else (sign ',' rest).map skipGaps
      let (k, rest) ← keyAndEquals fuel rest
      let (i, rest) ← item fuel rest
      let (es, rest) ← entries fuel false rest
      return ((k, i) :: es, rest)

end

/-- Reads the line of an expression up to the line break; a line may have none. -/
def expression (fuel : Nat) (cs : List Char) : Except Fault (Option Expression × List Char) := do
  match skipGaps cs with
  | [] => return (none, [])
  | '#' :: rest => return (none, ← comment rest)
  | '\n' :: rest => return (none, '\n' :: rest)
  | '\r' :: rest => return (none, '\r' :: rest)
  | c :: rest =>
    let (e, rest) ← (match c, rest with
      | '[', '[' :: rest => do
        let (k, rest) ← key fuel (skipGaps rest)
        return (Expression.arrayTable k, ← sign ']' (← sign ']' rest))
      | '[', rest => do
        let (k, rest) ← key fuel (skipGaps rest)
        return (Expression.table k, ← sign ']' rest)
      | c, rest => do
        let (k, rest) ← keyAndEquals fuel (c :: rest)
        let (i, rest) ← item fuel rest
        return (Expression.entry k i, rest) : Except Fault (Expression × List Char))
    match skipGaps rest with
    | '#' :: rest => return (some e, ← comment rest)
    | rest => return (some e, rest)

end OperationGraph.Toml
