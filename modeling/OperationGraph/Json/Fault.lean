import OperationGraph.Text.Quoted

/-! # Faults in the exchange format

A text stops being the beginning of a value at some character. The fault names the character and what
was being read there. -/

namespace OperationGraph.Json

inductive Place where
  | value
  | literal (word : String) (wanted : Char)
  | number
  | text
  | name
  | afterName
  | afterMember
  | afterItem
  | afterValue
deriving DecidableEq, Repr

def Place.message : Place → String
  | value => "looking for beginning of value"
  | literal word wanted =>
    "in literal " ++ word ++ " (expecting " ++ Text.quotedSingle wanted ++ ")"
  | number => "in numeric literal"
  | text => "in string"
  | name => "looking for beginning of object key string"
  | afterName => "after object key"
  | afterMember => "after object key:value pair"
  | afterItem => "after array element"
  | afterValue => "after top-level value"

inductive Fault where
  | incomplete
  | tooDeep
  | unexpected (c : Char) (place : Place)
  | badEscape (spelling : String)
deriving DecidableEq, Repr

def isPlainEscape (spelling : String) : Bool :=
  spelling.toList.all fun c =>
    Text.isPrintable c && c ≠ ' ' && c ≠ '\x60' && Text.settled c ≠ Text.replacement

def Fault.message : Fault → String
  | incomplete => "unexpected end of JSON input"
  | tooDeep => "exceeded max depth"
  | unexpected c place => "invalid character " ++ Text.quotedSingle c ++ " " ++ place.message
  | badEscape spelling =>
    "invalid escape sequence "
      ++ (if isPlainEscape spelling then "`" ++ spelling ++ "`" else Text.quoted spelling)
      ++ " in string"

end OperationGraph.Json
