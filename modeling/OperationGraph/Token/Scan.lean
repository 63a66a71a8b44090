import OperationGraph.Text.Utf8
import OperationGraph.Token.Basic
import OperationGraph.Token.BlockText

/-! # From text to tokens

`tokens` splits a source into its tokens. The list ends with the end of input, or with an invalid
token where the text has no token; nothing after that is read. Comments and blanks leave no trace
but the count of lines and columns. -/

namespace OperationGraph.Scan

/-- Where the scan stands: the line, the characters read so far, and how many of them came before
the line. -/
structure Cursor where
  line : Nat := 1
  offset : Nat := 0
  lineStart : Nat := 0
deriving DecidableEq, Repr

namespace Cursor

/-- Goes past `n` characters of a line. -/
def advance (cur : Cursor) (n : Nat) : Cursor := { cur with offset := cur.offset + n }

def newLine (cur : Cursor) : Cursor :=
  { cur with line := cur.line + 1, lineStart := cur.offset }

/-- The position of a text that began at `start`. -/
def positionOf (cur : Cursor) (source : String) (start : Nat) : Position :=
  { source, line := cur.line, column := (start : Int) - cur.lineStart + 1 }

def position (cur : Cursor) (source : String) : Position := cur.positionOf source cur.offset

end Cursor

def isNameStart (c : Char) : Bool := c = '_' || c.isAlpha

def isNamePart (c : Char) : Bool := isNameStart c || c.isDigit

def isCommentChar (c : Char) : Bool := c.toNat > 0x1f || c = '\t'

def leadByte (c : Char) : Nat := (Text.charBytes c).headD 0

/-- Skips blanks, commas and line ends. A line feed after a carriage return belongs to the line end
but counts as a column of the new line. -/
def skipBlanks (cur : Cursor) : List Char → Cursor × List Char
  | [] => (cur, [])
  | '\r' :: '\n' :: rest => skipBlanks ((cur.advance 1).newLine.advance 1) rest
  | c :: rest =>
    if c = '\t' ∨ c = ' ' ∨ c = ',' ∨ c = '\ufeff' then skipBlanks (cur.advance 1) rest
    else if c = '\n' ∨ c = '\r' then skipBlanks (cur.advance 1).newLine rest
    else (cur, c :: rest)

/-- The outcome of reading the inside of a token: its value with the cursor before and the text after
its end, or a fault and the cursor there. -/
abbrev Read := Except (LexicalFault × Cursor) (List Char × Cursor × List Char)

def simpleEscape? : Char → Option Char
  | '"' => some '"'
  | '\\' => some '\\'
  | '/' => some '/'
  | 'b' => some '\x08'
  | 'f' => some '\x0c'
  | 'n' => some '\n'
  | 'r' => some '\r'
  | 't' => some '\t'
  | _ => none

/-- The character of a code point, or the replacement character for half a surrogate pair. -/
def charOfCode (n : Nat) : Char :=
  if 0xD800 ≤ n ∧ n < 0xE000 then Text.replacement else Char.ofNat n

/-- A faulty escape by code point. What follows the backslash is shown up to five bytes, or to the end
if the input ends too early. -/
def codeEscapeFault (afterBackslash : List Char) : LexicalFault :=
  let bs := Text.bytes afterBackslash
  if bs.length < 6 then .badEscape (String.ofList afterBackslash)
  else .badEscape (String.ofList (Text.decode (bs.take 5)))

/-- Reads the inside of a string up to its closing quote; `acc` holds the value so far, reversed. After
an escape, of which `escaped` tells, a stray byte gives way to the replacement character. -/
def readString (escaped : Bool) (cur : Cursor) (acc : List Char) : List Char → Read
  | [] => .error (.unterminated, cur)
  | '"' :: rest => .ok (acc.reverse, cur, rest)
  | ['\\'] => .error (.loneEscape, cur.advance 1)
  | '\\' :: 'u' :: a :: b :: c :: d :: rest =>
    match Text.hexNumber? [a, b, c, d], rest with
    | some n, _ :: _ => readString true (cur.advance 6) (charOfCode n :: acc) rest
    | _, _ => .error (codeEscapeFault ('u' :: a :: b :: c :: d :: rest), cur.advance 1)
  | '\\' :: 'u' :: rest => .error (codeEscapeFault ('u' :: rest), cur.advance 1)
  | '\\' :: e :: rest =>
    match simpleEscape? e with
    | some c => readString true (cur.advance 2) (c :: acc) rest
    | none => .error (.unknownEscape (leadByte e), cur.advance 1)
  | c :: rest =>
    if c = '\n' ∨ c = '\r' then .error (.unterminated, cur)
    else if c.toNat < 0x20 ∧ c ≠ '\t' then .error (.controlInString c.toNat, cur)
    else readString escaped (cur.advance 1) ((if escaped then Text.settled c else c) :: acc) rest

/-- Reads the inside of a block string. A run of three or more quotes ends it, and the last three of
them close it; `acc` holds the raw text so far, reversed. A stray byte gives way to the replacement
character. -/
def readBlock (cur : Cursor) (acc : List Char) : List Char → Read
  | [] => .error (.unterminated, cur)
  | '"' :: rest =>
    let run := (rest.takeWhile (· = '"')).length + 1
    if 3 ≤ run then
      .ok (acc.reverse ++ List.replicate (run - 3) '"', cur.advance (run - 3), rest.drop (run - 1))
    else readBlock (cur.advance 1) ('"' :: acc) rest
  | '\\' :: '"' :: '"' :: '"' :: rest =>
    readBlock (cur.advance 4) ('"' :: '"' :: '"' :: acc) rest
  | '\r' :: '\n' :: rest => readBlock (cur.advance 2).newLine ('\n' :: acc) rest
  | c :: rest =>
    if c = '\n' ∨ c = '\r' then readBlock (cur.advance 1).newLine ('\n' :: acc) rest
    else if c.toNat < 0x20 ∧ c ≠ '\t' then .error (.controlInString c.toNat, cur)
    else readBlock (cur.advance 1) (Text.settled c :: acc) rest

/-- The digits at the start of a text, with the cursor after them and the rest. -/
def readDigits (cur : Cursor) (cs : List Char) : List Char × Cursor × List Char :=
  let ds := cs.takeWhile Char.isDigit
  (ds, cur.advance ds.length, cs.dropWhile Char.isDigit)

def readDigits1 (cur : Cursor) (cs : List Char) : Read :=
  match readDigits cur cs with
  | ([], cur, rest) => .error (.missingDigit (rest.head?.map leadByte), cur)
  | read => .ok read

/-- The digits before the point: a zero alone, or any digits that do not begin with one. -/
def readWhole (cur : Cursor) : List Char → Read
  | '0' :: rest =>
    match rest with
    | c :: _ =>
      if c.isDigit then .error (.digitAfterZero c.toNat, cur.advance 1)
      else .ok (['0'], cur.advance 1, rest)
    | [] => .ok (['0'], cur.advance 1, rest)
  | cs => readDigits1 cur cs

def readFraction (cur : Cursor) : List Char → Read
  | '.' :: rest => do
    let (ds, cur, rest) ← readDigits1 (cur.advance 1) rest
    return ('.' :: ds, cur, rest)
  | cs => .ok ([], cur, cs)

def readExponent (cur : Cursor) : List Char → Read
  | [] => .ok ([], cur, [])
  | c :: rest =>
    if c = 'e' ∨ c = 'E' then do
      let (sign, cur, rest) := match rest with
        | '-' :: r => (['-'], cur.advance 2, r)
        | '+' :: r => (['+'], cur.advance 2, r)
        | r => ([], cur.advance 1, r)
      let (ds, cur, rest) ← readDigits1 cur rest
      return (c :: sign ++ ds, cur, rest)
    else .ok ([], cur, c :: rest)

def readSign (cur : Cursor) : List Char → List Char × Cursor × List Char
  | '-' :: rest => (['-'], cur.advance 1, rest)
  | cs => ([], cur, cs)

def readNumber (cur : Cursor) (cs : List Char) :
    Except (LexicalFault × Cursor) (Bool × List Char × Cursor × List Char) := do
  let (sign, cur, rest) := readSign cur cs
  let (whole, cur, rest) ← readWhole cur rest
  let (fraction, cur, rest) ← readFraction cur rest
  let (exponent, cur, rest) ← readExponent cur rest
  return (!(fraction.isEmpty && exponent.isEmpty), sign ++ whole ++ fraction ++ exponent, cur, rest)

/-- A token that was read, with where the scan goes on, or the last token of the scan. -/
inductive Step where
  | token (t : Token) (cur : Cursor) (rest : List Char)
  | comment (cur : Cursor) (rest : List Char)
  | last (t : Token)

def invalid (source : String) (fault : LexicalFault) (cur : Cursor) : Step :=
  .last { kind := .invalid fault, pos := cur.position source }

def plainStep (source : String) (cur : Cursor) (c : Char) (rest : List Char) : Step :=
  if isNameStart c then
    let name := c :: rest.takeWhile isNamePart
    .token { kind := .name, value := String.ofList name, pos := cur.position source }
      (cur.advance name.length) (rest.dropWhile isNamePart)
  else if c = '-' ∨ c.isDigit then
    match readNumber cur (c :: rest) with
    | .ok (isFloat, value, fin, rest) =>
      .token { kind := if isFloat then .float else .int, value := String.ofList value,
               pos := cur.position source } fin rest
    | .error (fault, cur) => invalid source fault cur
  else if c.toNat < 0x20 then invalid source (.controlCharacter c.toNat) cur
  else if c = '\'' then invalid source .singleQuote cur
  else invalid source (.strayCharacter (leadByte c)) cur

/-- Reads one token from a text without leading blanks. -/
def step (source : String) (cur : Cursor) : List Char → Step
  | [] => .last { kind := .endOfInput, pos := cur.position source }
  | '.' :: '.' :: '.' :: rest =>
    .token { kind := .spread, pos := cur.position source } (cur.advance 3) rest
  | '"' :: '"' :: '"' :: rest =>
    match readBlock (cur.advance 3) [] rest with
    | .ok (raw, fin, rest) =>
      .token { kind := .blockString, value := String.ofList (BlockText.value raw),
               pos := fin.positionOf source (cur.offset + 3) } (fin.advance 3) rest
    | .error (fault, cur) => invalid source fault cur
  | '"' :: rest =>
    match readString false (cur.advance 1) [] rest with
    | .ok (value, fin, rest) =>
      .token { kind := .string, value := String.ofList value,
               pos := fin.positionOf source (cur.offset + 1) } (fin.advance 1) rest
    | .error (fault, cur) => invalid source fault cur
  | c :: rest =>
    match TokenKind.ofPunctuation? c with
    | some kind => .token { kind, pos := cur.position source } (cur.advance 1) rest
    | none =>
      if c = '#' then
        let n := (rest.takeWhile isCommentChar).length
        .comment (cur.advance (n + 1)) (rest.drop n)
      else plainStep source cur c rest

/-- Reads at most `fuel` tokens and comments. -/
def run (source : String) : Nat → Cursor → List Char → List Token
  | 0, cur, _ => [{ kind := .endOfInput, pos := cur.position source }]
  | fuel + 1, cur, cs =>
    let (cur, cs) := skipBlanks cur cs
    match step source cur cs with
    | .token t cur rest => t :: run source fuel cur rest
    | .comment cur rest => run source fuel cur rest
    | .last t => [t]

end Scan

def Source.tokens (s : Source) : List Token :=
  let cs := s.text.toList
  Scan.run s.name (cs.length + 1) {} cs

end OperationGraph
