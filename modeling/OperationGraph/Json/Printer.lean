import OperationGraph.Json.Basic
import OperationGraph.Text.Hex
import OperationGraph.Text.Utf8

/-! # Writing data exchange values

Texts escape quotes, backslashes and control characters, and also the signs that have a meaning in
markup and the two line separators of Unicode. A stray byte is written as the escape of the replacement
character. -/

namespace OperationGraph.Json

/-- The written form of one character inside a text. -/
def escapedChar (c : Char) : List Char :=
  if c = '"' then ['\\', '"']
  else if c = '\\' then ['\\', '\\']
  else if c = '\n' then ['\\', 'n']
  else if c = '\r' then ['\\', 'r']
  else if c = '\t' then ['\\', 't']
  else if c.toNat < 0x20 || c = '<' || c = '>' || c = '&' || c = '\u2028' || c = '\u2029' then
    '\\' :: 'u' :: Text.hexDigits 4 c.toNat
  else if (Text.strayByte? c).isSome then '\\' :: 'u' :: Text.hexDigits 4 Text.replacement.toNat
  else [c]

def escaped (s : String) : String :=
  String.ofList ('"' :: s.toList.flatMap escapedChar ++ ['"'])

mutual

def compact : Json → String
  | .null => "null"
  | .bool b => if b then "true" else "false"
  | .number n => n
  | .string s => escaped s
  | .array items => "[" ++ ",".intercalate (compactItems items) ++ "]"
  | .object members => "\x7b" ++ ",".intercalate (compactMembers members) ++ "\x7d"

def compactItems : List Json → List String
  | [] => []
  | j :: rest => compact j :: compactItems rest

def compactMembers : List (String × Json) → List String
  | [] => []
  | (k, j) :: rest => (escaped k ++ ":" ++ compact j) :: compactMembers rest

end

/-- A new line indented by `depth` steps of two blanks. -/
def lineBreak (depth : Nat) : String := String.ofList ('\n' :: List.replicate (2 * depth) ' ')

def bracketed (opening closing : String) (depth : Nat) (parts : List String) : String :=
  if parts.isEmpty then opening ++ closing
  else opening ++ lineBreak (depth + 1) ++ ("," ++ lineBreak (depth + 1)).intercalate parts
    ++ lineBreak depth ++ closing

mutual

/-- A value with each item and member on a line of its own. -/
def indented (depth : Nat) : Json → String
  | .null => "null"
  | .bool b => if b then "true" else "false"
  | .number n => n
  | .string s => escaped s
  | .array items => bracketed "[" "]" depth (indentedItems (depth + 1) items)
  | .object members => bracketed "\x7b" "\x7d" depth (indentedMembers (depth + 1) members)

def indentedItems (depth : Nat) : List Json → List String
  | [] => []
  | j :: rest => indented depth j :: indentedItems depth rest

def indentedMembers (depth : Nat) : List (String × Json) → List String
  | [] => []
  | (k, j) :: rest => (escaped k ++ ": " ++ indented depth j) :: indentedMembers depth rest

end

/-- A value as a document: one line, or indented, with a line feed at the end. -/
def document (pretty : Bool) (j : Json) : String :=
  (if pretty then indented 0 j else compact j) ++ "\n"

end OperationGraph.Json
