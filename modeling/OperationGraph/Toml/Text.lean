import OperationGraph.Text.Hex
import OperationGraph.Toml.Fault

/-! # Texts in tables of settings

A text stands between quotes, where backslashes escape, or between apostrophes, where they do not. With
three of these marks on either side it may go over several lines. -/

namespace OperationGraph.Toml

/-- What is read from the front of a text, and the rest. -/
abbrev Read (α : Type) := Except Fault (α × List Char)

def leadByte (c : Char) : Nat := (Text.charBytes c).headD 0

def isForbidden (c : Char) : Bool :=
  (c.toNat < 0x20 && c ≠ '\t' && c ≠ '\n' && c ≠ '\r') || c.toNat = 0x7F || (Text.strayByte? c).isSome

/-- The character that a sign after a backslash stands for. -/
def escape? : Char → Option Char
  | 'b' => some '\x08'
  | 't' => some '\t'
  | 'n' => some '\n'
  | 'f' => some '\x0c'
  | 'r' => some '\r'
  | 'e' => some '\x1b'
  | '"' => some '"'
  | '\\' => some '\\'
  | _ => none

/-- The character of a code point that is written with `width` digits at the start of a text. -/
def codePoint (width : Nat) (cs : List Char) : Except Fault Char :=
  let given := Text.byteLength cs
  if given < width then .error (.shortCode width given)
  else
    match Text.hexNumber? (cs.take width) with
    | none => .error .codeDigit
    | some n =>
      if 0x110000 ≤ n ∨ (0xD800 ≤ n ∧ n < 0xE000) then .error .codePoint else .ok (Char.ofNat n)

def endsLine : List Char → Bool
  | [] => false
  | '\n' :: _ => true
  | '\r' :: '\n' :: _ => true
  | c :: rest => (c = ' ' || c = '\t') && endsLine rest

/-- Whether a character is skipped after a backslash at the end of a line. -/
def isLineBlank (c : Char) : Bool := c = '\n' || c = '\r' || c = ' ' || c = '\t'

/-- Replaces the escapes of a text. In a text over several lines, which its closing marks `tail` show,
a backslash at the end of a line joins it to the next; `fuel` bounds the length. -/
def unescape (tail : List Char) : Nat → List Char → List Char → Except Fault (List Char)
  | 0, acc, _ => .ok acc.reverse
  | _ + 1, acc, [] => .ok acc.reverse
  | fuel + 1, acc, '\\' :: rest =>
    if !tail.isEmpty && endsLine rest then unescape tail fuel acc (rest.dropWhile isLineBlank)
    else
      match rest with
      | [] => .error .loneBackslash
      | e :: rest =>
        let width := if e = 'u' then 4 else if e = 'U' then 8 else 0
        if width = 0 then
          match escape? e with
          | some c => unescape tail fuel (c :: acc) rest
          | none => .error (.unknownEscape (leadByte e))
        else
          match codePoint width (rest ++ tail) with
          | .error f => .error f
          | .ok c => unescape tail fuel (c :: acc) (rest.drop width)
  | fuel + 1, acc, c :: rest =>
    if isForbidden c then .error (.escapedTextCharacter (leadByte c))
    else unescape tail fuel (c :: acc) rest

def textOf (tail : List Char) (escaped : Bool) (spelling : List Char) : Except Fault String :=
  if escaped then (unescape tail (spelling.length + 1) [] spelling).map String.ofList
  else if spelling.any isForbidden then .error .textCharacter
  else .ok (String.ofList spelling)

/-- The spelling of a text up to its closing quote, and whether it has escapes; `acc` is the spelling so
far, reversed. -/
def spellText (escaped : Bool) (acc : List Char) : List Char → Read (List Char × Bool)
  | [] => .error .unterminatedText
  | '"' :: rest => .ok ((acc.reverse, escaped), rest)
  | ['\\'] => .error .loneBackslash
  | '\\' :: c :: rest => spellText true (c :: '\\' :: acc) rest
  | c :: rest =>
    if c = '\n' || c = '\r' then .error .breakInText else spellText escaped (c :: acc) rest

def basicText (cs : List Char) : Read String :=
  match spellText false [] cs with
  | .error f => .error f
  | .ok ((spelling, escaped), rest) => (textOf [] escaped spelling).map (·, rest)

def literalText (acc : List Char) : List Char → Read String
  | [] => .error .unterminatedLiteral
  | '\'' :: rest => .ok (String.ofList acc.reverse, rest)
  | c :: rest =>
    if c = '\n' || c = '\r' then .error .breakInLiteral
    else if isForbidden c then .error .literalCharacter
    else literalText (c :: acc) rest

/-- The end of a text over several lines after three marks, up to two of which may belong to the text
before; a third one more is too many. -/
def closeLines (mark : Char) (kind : String) (acc : List Char) (rest : List Char) : Read (List Char) :=
  let extra := (rest.takeWhile (· = mark)).length
  if 2 < extra then .error (.marksInLines (String.ofList [mark, mark, mark]) kind)
  else .ok ((List.replicate extra mark ++ acc).reverse, rest.drop extra)

/-- The spelling of a text over several lines up to its closing quotes, and whether it has escapes. -/
def spellLines (escaped : Bool) (acc : List Char) : List Char → Read (List Char × Bool)
  | [] => .error (.unterminatedLines "\"\"\"")
  | '"' :: '"' :: '"' :: rest =>
    (closeLines '"' "basic" acc rest).map fun (spelling, r) => ((spelling, escaped), r)
  | ['\\'] => .error .loneBackslash
  | '\\' :: c :: rest => spellLines true (c :: '\\' :: acc) rest
  | '\r' :: '\n' :: rest => spellLines escaped ('\n' :: '\r' :: acc) rest
  | c :: rest => if c = '\r' then .error .returnInText else spellLines escaped (c :: acc) rest

/-- The spelling of a text over several lines up to its closing apostrophes. -/
def spellLiteralLines (acc : List Char) : List Char → Read (List Char)
  | [] => .error (.unterminatedLines "'''")
  | '\'' :: '\'' :: '\'' :: rest => closeLines '\'' "literal" acc rest
  | '\r' :: '\n' :: rest => spellLiteralLines ('\n' :: '\r' :: acc) rest
  | c :: rest =>
    if c = '\r' then .error .returnInText
    else if isForbidden c then .error .literalCharacter
    else spellLiteralLines (c :: acc) rest

/-- A text without the line break that it starts with. -/
def dropBreak : List Char → List Char
  | '\n' :: rest => rest
  | '\r' :: '\n' :: rest => rest
  | cs => cs

/-- Reads a text of either sort over one line or several, with its marks. -/
def text : List Char → Read String
  | '"' :: '"' :: '"' :: rest =>
    match spellLines false [] rest with
    | .error f => .error f
    | .ok ((spelling, escaped), rest) =>
      (textOf ['"', '"', '"'] escaped (dropBreak spelling)).map (·, rest)
  | '\'' :: '\'' :: '\'' :: rest =>
    (spellLiteralLines [] rest).map fun (spelling, r) => (String.ofList (dropBreak spelling), r)
  | '\'' :: rest => literalText [] rest
  | '"' :: rest => basicText rest
  | _ => .error .endBeforeValue

end OperationGraph.Toml
