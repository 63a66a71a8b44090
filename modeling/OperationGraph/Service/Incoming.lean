import OperationGraph.Json.Parser
import OperationGraph.Value.Exchange

/-! # Values that clients send

What clients send is read with some tolerance. The word `null` may stand for an empty name, a number may
have a second sign and zeros in front of it, a control character may follow an escape in a text, and
nothing after a zero character is looked at. What nobody asked for is skipped by rules of its own. -/

namespace OperationGraph.Incoming

open Json (Read?)

/-- Half of a pair of surrogates that waits for the other half is replaced. -/
def flush (pending : Option Nat) (acc : List Char) : List Char :=
  match pending with
  | some _ => Text.replacement :: acc
  | none => acc

/-- Reads the inside of a text up to its closing quote. An escaped half of a pair and the escape right
after it are read together. A control character has to be escaped, but only up to the first escape of
the text. Here `escaped` tells whether there was one, `pending` is a half of a pair that has just been
read, and `acc` is the text so far, reversed. -/
def readText (escaped : Bool) (pending : Option Nat) (acc : List Char) : List Char → Read? String
  | [] => none
  | '"' :: rest => some (String.ofList (flush pending acc).reverse, rest)
  | '\\' :: 'u' :: a :: b :: c :: d :: rest =>
    match Text.hexNumber? [a, b, c, d], pending with
    | none, _ => none
    | some n, some p =>
      match Json.ofSurrogates? p n with
      | some ch => readText true none (ch :: acc) rest
      | none => readText true none (Json.ofCode n :: flush pending acc) rest
    | some n, none =>
      if Json.isSurrogate n then readText true (some n) acc rest
      else readText true none (Json.ofCode n :: acc) rest
  | '\\' :: e :: rest =>
    match Json.escape? e with
    | some c => readText true none (c :: flush pending acc) rest
    | none => none
  | c :: rest =>
    if (c.toNat < 0x20 && !escaped) || c = '\\' then none
    else readText escaped none (c :: flush pending acc) rest

/-- Reads a text, or the word that stands for the empty one. -/
def text? (cs : List Char) : Read? String :=
  match Json.skip cs with
  | '"' :: rest => readText false none [] rest
  | 'n' :: 'u' :: 'l' :: 'l' :: rest => some ("", rest)
  | _ => none

def isNumberChar (c : Char) : Bool := c.isDigit || ['+', '-', '.', 'e', 'E'].contains c

/-- Whether the first point of a number is followed by a digit. -/
def pointIsFollowed (cs : List Char) : Bool :=
  match cs.dropWhile (· ≠ '.') with
  | [] => true
  | [_] => false
  | _ :: d :: _ => d.isDigit

/-- Whether a zero stands in front of further digits. -/
def hasLeadingZero : List Char → Bool
  | '0' :: d :: _ => d.isDigit
  | _ => false

/-- Reads a number without its sign. A plus may stand in front, and zeros behind it. A number out of
range is none. -/
def magnitude? (f : BinaryFormat) (negative : Bool) (cs : List Char) : Read? Binary :=
  let spelling := cs.takeWhile isNumberChar
  if hasLeadingZero cs || spelling.head? = some '.' || !pointIsFollowed spelling then none
  else
    let digits := match spelling with
      | '+' :: r => r
      | r => r
    match Binary.readUnsigned? f negative digits with
    | some (.finite s m e) => some (.finite s m e, cs.dropWhile isNumberChar)
    | _ => none

def number? : List Char → Read? Binary
  | '-' :: rest => magnitude? .double true rest
  | cs => magnitude? .double false cs

mutual

/-- Reads a value; `fuel` bounds the steps and `room` the nesting. -/
def value? : Nat → Nat → List Char → Read? Value
  | 0, _, _ => none
  | fuel + 1, room, cs =>
    match Json.skip cs with
    | 'n' :: 'u' :: 'l' :: 'l' :: rest => some (.null, rest)
    | 't' :: 'r' :: 'u' :: 'e' :: rest => some (.boolean true, rest)
    | 'f' :: 'a' :: 'l' :: 's' :: 'e' :: rest => some (.boolean false, rest)
    | '"' :: rest => (readText false none [] rest).map fun (s, r) => (.string s, r)
    | '[' :: rest =>
      match room with
      | 0 => none
      | room + 1 =>
        match Json.skip rest with
        | ']' :: r => some (.list [], r)
        | r => (items? fuel room r).map fun (vs, r) => (.list vs, r)
    | '{' :: rest =>
      match room with
      | 0 => none
      | room + 1 =>
        match Json.skip rest with
        | '}' :: r => some (.object [], r)
        | '"' :: r =>
          (members? fuel room ('"' :: r)).map fun (es, r) => (.object (Entries.ofList es), r)
        | _ => none
    | c :: rest =>
      if c = '-' || c.isDigit then (number? (c :: rest)).map fun (x, r) => (.float .double x, r)
      else none
    | [] => none

/-- Reads the items of a list up to the closing bracket. -/
def items? : Nat → Nat → List Char → Option (List Value × List Char)
  | 0, _, _ => none
  | fuel + 1, room, cs => do
    let (v, rest) ← value? fuel room cs
    match Json.skip rest with
    | ',' :: rest =>
      let (vs, rest) ← items? fuel room rest
      return (v :: vs, rest)
    | ']' :: rest => return ([v], rest)
    | _ => none

/-- Reads the members of an object up to the closing brace. -/
def members? : Nat → Nat → List Char → Option (List (String × Value) × List Char)
  | 0, _, _ => none
  | fuel + 1, room, cs => do
    let (name, rest) ← text? cs
    match Json.skip rest with
    | ':' :: rest =>
      let (v, rest) ← value? fuel room rest
      match Json.skip rest with
      | ',' :: rest =>
        let (es, rest) ← members? fuel room rest
        return ((name, v) :: es, rest)
      | '}' :: rest => return ([(name, v)], rest)
      | _ => none
    | _ => none

end

/-- Reads an object, whose entries are added to those before; null takes back all. -/
def entries? (fuel room : Nat) (before : Entries) (cs : List Char) : Read? Entries :=
  match Json.skip cs with
  | 'n' :: 'u' :: 'l' :: 'l' :: rest => some ([], rest)
  | '{' :: rest =>
    match Json.skip rest with
    | '}' :: r => some (before, r)
    | r => (members? fuel room r).map fun (es, r) =>
      (es.foldl (fun acc e => Entries.put acc e.1 e.2) before, r)
  | _ => none

/-- How far a number can be skipped by its digits alone. -/
inductive Skipped where
  | past (rest : List Char)
  | malformed
  | unclear

/-- Skips digits, with one point among them that a digit follows, up to the end of a value. Here
`fresh` tells that nothing has been skipped yet, and `point` that the point has been. -/
def skipDigits (fresh point : Bool) : List Char → Skipped
  | [] => .unclear
  | c :: rest =>
    if c.isDigit then skipDigits false point rest
    else if c = '.' then
      if point then .malformed
      else
        match rest with
        | [] => .unclear
        | d :: _ => if d.isDigit then skipDigits false true rest else .malformed
    else if Json.isBlank c || c = ',' || c = ']' || c = '}' then
      if fresh then .unclear else .past (c :: rest)
    else .unclear

/-- Skips a negative number of any size that starts with a point or with superfluous zeros. -/
def skipUnbounded? (cs : List Char) : Option (List Char) :=
  let spelling := cs.takeWhile isNumberChar
  if hasLeadingZero cs || spelling.head? = some '.' then
    (Binary.readUnsigned? .double false spelling).map fun _ => cs.dropWhile isNumberChar
  else none

/-- Skips a number. A zero in front makes it a number of single precision. -/
def skipNumber? : List Char → Option (List Char)
  | [] => none
  | c :: rest =>
    if c = '0' then (magnitude? .single false (c :: rest)).map (·.2)
    else
      match skipDigits true false rest with
      | .past after => some after
      | .malformed => none
      | .unclear =>
        match number? (c :: rest) with
        | some (_, after) => some after
        | none => if c = '-' then skipUnbounded? rest else none

mutual

/-- Skips a value; `fuel` bounds the steps and `room` the nesting. -/
def skipValue? : Nat → Nat → List Char → Option (List Char)
  | 0, _, _ => none
  | fuel + 1, room, cs =>
    match Json.skip cs with
    | 'n' :: 'u' :: 'l' :: 'l' :: rest => some rest
    | 't' :: 'r' :: 'u' :: 'e' :: rest => some rest
    | 'f' :: 'a' :: 'l' :: 's' :: 'e' :: rest => some rest
    | '"' :: rest => (readText false none [] rest).map (·.2)
    | '[' :: rest =>
      match room with
      | 0 => none
      | room + 1 =>
        match Json.skip rest with
        | ']' :: r => some r
        | r => skipItems? fuel room r
    | '{' :: rest =>
      match room with
      | 0 => none
      | room + 1 =>
        match Json.skip rest with
        | '}' :: r => some r
        | '"' :: r => skipMembers? fuel room ('"' :: r)
        | _ => none
    | c :: rest => if c = '-' || c.isDigit then skipNumber? (c :: rest) else none
    | [] => none

def skipItems? : Nat → Nat → List Char → Option (List Char)
  | 0, _, _ => none
  | fuel + 1, room, cs => do
    let rest ← skipValue? fuel room cs
    match Json.skip rest with
    | ',' :: rest => skipItems? fuel room rest
    | ']' :: rest => return rest
    | _ => none

/-- Skips the members of an object with the closing brace. -/
def skipMembers? : Nat → Nat → List Char → Option (List Char)
  | 0, _, _ => none
  | fuel + 1, room, cs => do
    let (_, rest) ← text? cs
    match Json.skip rest with
    | ':' :: rest =>
      let rest ← skipValue? fuel room rest
      match Json.skip rest with
      | ',' :: rest => skipMembers? fuel room rest
      | '}' :: rest => return rest
      | _ => none
    | _ => none

end

/-- Whether nothing follows but blanks; a zero character ends a text. -/
def isEnd (cs : List Char) : Bool :=
  match Json.skip cs with
  | [] => true
  | c :: _ => c = '\x00'

/-- The steps that reading a text takes at most. -/
def steps (cs : List Char) : Nat := 2 * cs.length + 2

end OperationGraph.Incoming
