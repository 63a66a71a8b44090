import OperationGraph.Text.Quoted

/-! # Faults in tables of settings -/

namespace OperationGraph.Toml

inductive NameKind where
  | value
  | table
  | arrayTable
deriving DecidableEq, Repr

def NameKind.text : NameKind → String
  | value => "value"
  | table => "table"
  | arrayTable => "array table"

inductive Fault where
  | expectedBreak (byte : Nat)
  | loneReturn
  | returnAtEnd
  | returnInText
  | commentCharacter
  | expectedSign (c : Char)
  | endBeforeSign (c : Char)
  | endBeforeEquals
  | endBeforeValue
  | expectedWord (word : String)
  | endBeforeKey
  | keyStart (byte : Nat)
  | breakInLiteral
  | unterminatedLiteral
  | literalCharacter
  | breakInText
  | unterminatedText
  | loneBackslash
  | textCharacter
  | escapedTextCharacter (byte : Nat)
  | unknownEscape (byte : Nat)
  | shortCode (wanted given : Nat)
  | codeDigit
  | codePoint
  | unterminatedLines (mark : String)
  | marksInLines (mark : String) (kind : String)
  | arrayIncomplete
  | arrayStartsWithComma
  | arrayWithoutComma
  | tableIncomplete
  | numberIncomplete
  | letterInNumber (c : Char)
  | underscoreFirst
  | underscoreLast
  | underscoresTogether
  | underscoreBeforeExponent
  | underscoreAfterExponent
  | underscoreAfterPoint
  | underscoreBeforePoint
  | leadingZero
  | notInteger (base : String) (problem : String)
  | pointFirst
  | pointLast
  | secondPoint
  | pointWithoutDigitBefore
  | pointWithoutDigitAfter
  | floatLeadingZero
  | notFloat (problem : String)
  | dateForm
  | dateDigit
  | impossibleDate
  | dateTimeForm
  | dateTimeSeparator
  | timeForm
  | hourRange
  | minuteRange
  | secondRange
  | hourColon
  | minuteColon
  | missingDecimal
  | missingDecimals
  | zoneForm
  | zoneSign
  | zoneColon
  | zoneHours
  | zoneMinutes
  | afterZone
  | afterDateTime
  | afterTime
  | repeatedKey (key : String)
  | notTable (key : String) (kind : NameKind)
  | closedTable (key : String)
  | shouldBeTable (key : String) (kind : NameKind)
  | repeatedTable (key : String)
  | shouldBeArrayTable (key : String) (kind : NameKind)
deriving DecidableEq, Repr

/-- A code point in messages, with its character if that can be shown. -/
def codePointText (n : Nat) : String :=
  let digits := (Text.hexText n).map Char.toUpper
  let padded := String.ofList (List.replicate (4 - digits.length) '0') ++ digits
  let c := Char.ofNat n
  "U+" ++ padded ++ (if Text.isPrintable c then " '" ++ c.toString ++ "'" else "")

namespace Fault

def problem : Fault → String
  | expectedBreak b => "expected newline but got " ++ codePointText b
  | loneReturn => "windows new line should be \\r\\n"
  | returnAtEnd => "windows new line expected"
  | returnInText => "need a \\n after \\r"
  | commentCharacter => "invalid character in comment"
  | expectedSign c => "expected character " ++ c.toString
  | endBeforeSign c => "expected character " ++ c.toString ++ " but the document ended here"
  | endBeforeEquals => "expected = after a key, but the document ends there"
  | endBeforeValue => "expected value, not eof"
  | expectedWord w => "expected '" ++ w ++ "'"
  | endBeforeKey => "expected key but found none"
  | keyStart b => "invalid character at start of key: " ++ (Char.ofNat b).toString
  | breakInLiteral => "literal strings cannot have new lines"
  | unterminatedLiteral => "unterminated literal string"
  | literalCharacter => "invalid character"
  | breakInText => "basic strings cannot have new lines"
  | unterminatedText => "basic string not terminated by \""
  | loneBackslash => "need a character after \\"
  | textCharacter => "invalid UTF-8"
  | escapedTextCharacter b => "invalid character " ++ codePointText b
  | unknownEscape b => "invalid escaped character " ++ codePointText b
  | shortCode wanted given =>
    "unicode point needs " ++ toString wanted ++ " character, not " ++ toString given
  | codeDigit => "non-hex character"
  | codePoint => "escape sequence is invalid Unicode code point"
  | unterminatedLines mark =>
    "multiline " ++ (if mark = "'''" then "literal" else "basic") ++ " string not terminated by " ++ mark
  | marksInLines mark kind => mark ++ " not allowed in multiline " ++ kind ++ " string"
  | arrayIncomplete => "array is incomplete"
  | arrayStartsWithComma => "array cannot start with comma"
  | arrayWithoutComma => "array elements must be separated by commas"
  | tableIncomplete => "inline table is incomplete"
  | numberIncomplete => "incomplete number"
  | letterInNumber c => "unexpected character '" ++ c.toString ++ "' while scanning for a number"
  | underscoreFirst => "number cannot start with underscore"
  | underscoreLast => "number cannot end with underscore"
  | underscoresTogether => "number must have at least one digit between underscores"
  | underscoreBeforeExponent => "cannot have underscore before exponent"
  | underscoreAfterExponent => "cannot have underscore after exponent"
  | underscoreAfterPoint => "cannot have underscore after decimal point"
  | underscoreBeforePoint => "cannot have underscore before decimal point"
  | leadingZero => "leading zero not allowed on decimal number"
  | notInteger base e => "couldn't parse " ++ base ++ " number: " ++ e
  | pointFirst => "float cannot start with a dot"
  | pointLast => "float cannot end with a dot"
  | secondPoint => "float can have at most one decimal point"
  | pointWithoutDigitBefore => "float decimal point must be preceded by a digit"
  | pointWithoutDigitAfter => "float decimal point must be followed by a digit"
  | floatLeadingZero => "float integer part cannot have leading zeroes"
  | notFloat e => "unable to parse float: " ++ e
  | dateForm => "dates are expected to have the format YYYY-MM-DD"
  | dateDigit => "expected digit (0-9)"
  | impossibleDate => "impossible date"
  | dateTimeForm =>
    "local datetimes are expected to have the format YYYY-MM-DDTHH:MM:SS[.NNNNNNNNN]"
  | dateTimeSeparator => "datetime separator is expected to be T or a space"
  | timeForm => "times are expected to have the format HH:MM:SS[.NNNNNN]"
  | hourRange => "hour cannot be greater 23"
  | minuteRange => "minutes cannot be greater 59"
  | secondRange => "seconds cannot be greater 60"
  | hourColon => "expecting colon between hours and minutes"
  | minuteColon => "expecting colon between minutes and seconds"
  | missingDecimal => "need at least one digit after fraction point"
  | missingDecimals => "nanoseconds need at least one digit"
  | zoneForm => "invalid date-time timezone"
  | zoneSign => "invalid timezone offset character"
  | zoneColon => "expected a : separator"
  | zoneHours => "invalid timezone offset hours"
  | zoneMinutes => "invalid timezone offset minutes"
  | afterZone => "extra bytes at the end of the timezone"
  | afterDateTime => "extra characters at the end of a local date time"
  | afterTime => "extra characters at the end of a local time"
  | repeatedKey k => "key " ++ k ++ " is already defined"
  | notTable k kind => "expected " ++ k ++ " to be a table, not a " ++ kind.text
  | closedTable k =>
    "cannot redefine table " ++ k ++ " that has already been explicitly defined"
  | shouldBeTable k kind => "key " ++ k ++ " should be a table, not a " ++ kind.text
  | repeatedTable k => "table " ++ k ++ " already exists"
  | shouldBeArrayTable k kind =>
    "key " ++ kind.text ++ " already exists as a " ++ k ++ ",  but should be an array table"

def message (f : Fault) : String := "toml: " ++ f.problem

end Fault

end OperationGraph.Toml
