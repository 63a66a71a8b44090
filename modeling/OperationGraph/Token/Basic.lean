import OperationGraph.Source
import OperationGraph.Text.Quoted

/-! # Tokens of the query and schema language -/

namespace OperationGraph

/-- Why a text has no token at some place. Characters are named by their first byte. -/
inductive LexicalFault where
  | controlCharacter (byte : Nat)
  | singleQuote
  | strayCharacter (byte : Nat)
  | digitAfterZero (byte : Nat)
  | missingDigit (byte : Option Nat)
  | controlInString (byte : Nat)
  | loneEscape
  | unknownEscape (byte : Nat)
  | badEscape (text : String)
  | unterminated
deriving DecidableEq, Repr

inductive TokenKind where
  | invalid (fault : LexicalFault)
  | endOfInput
  | bang | dollar | amp | parenL | parenR | spread | colon | equals | at_
  | bracketL | bracketR | braceL | braceR | pipe
  | name | int | float | string | blockString
deriving DecidableEq, Repr

/-- A token with its value, which is empty for punctuation. -/
structure Token where
  kind : TokenKind
  value : String := ""
  pos : Position
deriving DecidableEq, Repr

namespace LexicalFault

/-- A byte shown as the character of that code between quotes. -/
def shown (byte : Nat) : String := "\"" ++ String.singleton (Char.ofNat byte) ++ "\""

/-- A control character shown by four decimal digits. -/
def escaped (byte : Nat) : String :=
  let ds := (toString byte).toList
  "\"\\u" ++ String.ofList (List.replicate (4 - ds.length) '0' ++ ds) ++ "\""

def message : LexicalFault → String
  | controlCharacter b => "Cannot contain the invalid character " ++ escaped b
  | singleQuote =>
    "Unexpected single quote character ('), did you mean to use a double quote (\")?"
  | strayCharacter b => "Cannot parse the unexpected character " ++ shown b ++ "."
  | digitAfterZero b => "Invalid number, unexpected digit after 0: " ++ shown b ++ "."
  | missingDigit (some b) => "Invalid number, expected digit but got: " ++ shown b ++ "."
  | missingDigit none => "Invalid number, expected digit but got: <EOF>."
  | controlInString b => "Invalid character within String: " ++ escaped b ++ "."
  | loneEscape => "Invalid character escape sequence."
  | unknownEscape b =>
    "Invalid character escape sequence: \\" ++ String.singleton (Char.ofNat b) ++ "."
  | badEscape t => "Invalid character escape sequence: \\" ++ t ++ "."
  | unterminated => "Unterminated string."

end LexicalFault

namespace TokenKind

def text : TokenKind → String
  | invalid _ => "<Invalid>"
  | endOfInput => "<EOF>"
  | bang => "!"
  | dollar => "$"
  | amp => "&"
  | parenL => "("
  | parenR => ")"
  | spread => "..."
  | colon => ":"
  | equals => "="
  | at_ => "@"
  | bracketL => "["
  | bracketR => "]"
  | braceL => "\x7b"
  | braceR => "\x7d"
  | pipe => "|"
  | name => "Name"
  | int => "Int"
  | float => "Float"
  | string => "String"
  | blockString => "BlockString"

def ofPunctuation? : Char → Option TokenKind
  | '!' => some bang
  | '$' => some dollar
  | '&' => some amp
  | '(' => some parenL
  | ')' => some parenR
  | ':' => some colon
  | '=' => some equals
  | '@' => some at_
  | '[' => some bracketL
  | ']' => some bracketR
  | '{' => some braceL
  | '}' => some braceR
  | '|' => some pipe
  | _ => none

end TokenKind

/-- A token in messages: its kind, and its value in quotes unless that is empty. -/
def Token.text (t : Token) : String :=
  if t.value = "" then t.kind.text else t.kind.text ++ " " ++ Text.quoted t.value

end OperationGraph
