import OperationGraph.Text.Quoted
import OperationGraph.Yaml.Cursor

/-! # Faults in structured text -/

namespace OperationGraph.Yaml

inductive Problem where
  | forbiddenCharacter
  | noToken
  | missingColon
  | misplacedEntry
  | misplacedKey
  | misplacedValue
  | tooDeep
  | missingDirectiveName
  | badDirectiveName
  | unknownDirective
  | missingLineBreak
  | missingVersionDigit
  | longVersion
  | missingVersion
  | missingBlank
  | missingBlankOrBreak
  | missingExclamation
  | missingTag
  | missingTagEnd
  | missingOctet
  | badFirstOctet
  | badLaterOctet
  | missingName
  | zeroIndent
  | tabForIndent
  | documentInText
  | endInText
  | unknownEscape
  | missingCodeDigit
  | badCodePoint
  | tabInIndent
  | missingDocumentStart
  | repeatedVersion
  | wrongVersion
  | repeatedHandle
  | unknownHandle
  | missingContent
  | missingDash
  | missingKey
  | missingComma (closing : Char)
deriving DecidableEq, Repr

def Problem.message : Problem → String
  | forbiddenCharacter => "control characters are not allowed"
  | noToken => "found character that cannot start any token"
  | missingColon => "could not find expected ':'"
  | misplacedEntry => "block sequence entries are not allowed in this context"
  | misplacedKey => "mapping keys are not allowed in this context"
  | misplacedValue => "mapping values are not allowed in this context"
  | tooDeep => "exceeded max depth of 10000"
  | missingDirectiveName => "could not find expected directive name"
  | badDirectiveName => "found unexpected non-alphabetical character"
  | unknownDirective => "found unknown directive name"
  | missingLineBreak => "did not find expected comment or line break"
  | missingVersionDigit => "did not find expected digit or '.' character"
  | longVersion => "found extremely long version number"
  | missingVersion => "did not find expected version number"
  | missingBlank => "did not find expected whitespace"
  | missingBlankOrBreak => "did not find expected whitespace or line break"
  | missingExclamation => "did not find expected '!'"
  | missingTag => "did not find expected tag URI"
  | missingTagEnd => "did not find the expected '>'"
  | missingOctet => "did not find URI escaped octet"
  | badFirstOctet => "found an incorrect leading UTF-8 octet"
  | badLaterOctet => "found an incorrect trailing UTF-8 octet"
  | missingName => "did not find expected alphabetic or numeric character"
  | zeroIndent => "found an indentation indicator equal to 0"
  | tabForIndent => "found a tab character where an indentation space is expected"
  | documentInText => "found unexpected document indicator"
  | endInText => "found unexpected end of stream"
  | unknownEscape => "found unknown escape character"
  | missingCodeDigit => "did not find expected hexdecimal number"
  | badCodePoint => "found invalid Unicode character escape code"
  | tabInIndent => "found a tab character that violates indentation"
  | missingDocumentStart => "did not find expected <document start>"
  | repeatedVersion => "found duplicate %YAML directive"
  | wrongVersion => "found incompatible YAML document"
  | repeatedHandle => "found duplicate %TAG directive"
  | unknownHandle => "found undefined tag handle"
  | missingContent => "did not find expected node content"
  | missingDash => "did not find expected '-' indicator"
  | missingKey => "did not find expected key"
  | missingComma closing => "did not find expected ',' or '" ++ closing.toString ++ "'"

/-- A part of a document that does not fit the type wanted, or a key that is there twice. -/
inductive Misfit where
  | wrongType (line : Nat) (tag text wanted : String)
  | repeatedKey (line : Nat) (key : String) (before : Nat)
deriving DecidableEq, Repr

/-- A text in messages, cut short if it is long. -/
def shortened (text : String) : String :=
  let bs := Text.bytes text.toList
  if 10 < bs.length then String.ofList (Text.decode (bs.take 7)) ++ "..." else text

/-- What does not fit, in words. The text of what is tagged as a list or a map is not set off. -/
def Misfit.message : Misfit → String
  | wrongType line tag text wanted =>
    "line " ++ toString line ++ ": cannot unmarshal " ++ tag
      ++ (if tag = "!!seq" || tag = "!!map" then text else " `" ++ shortened text ++ "`")
      ++ " into " ++ wanted
  | repeatedKey line key before =>
    "line " ++ toString line ++ ": mapping key " ++ Text.quoted key ++ " already defined at line "
      ++ toString before

/-- Why a text is no document, or not the document wanted. -/
inductive Fault where
  /-- The text is malformed; line zero is not shown. -/
  | malformed (line : Nat) (problem : Problem)
  | unknownAnchor (name : String)
  | endlessAnchor (name : String)
  | excessiveAliases
  | unresolvable (found text wanted : String)
  | badBinary
  | badMerge
  | badKey (expression : String)
  | misfits (points : List Misfit)
deriving DecidableEq, Repr

namespace Fault

def inToken (start here : Mark) (problem : Problem) : Fault :=
  .malformed (if start.line ≠ 0 then start.line + 1 else if here.line ≠ 0 then here.line + 1 else 0)
    problem

def inNode (start here : Mark) (problem : Problem) : Fault :=
  .malformed (if start.line ≠ 0 then start.line else here.line) problem

def problemText : Fault → String
  | malformed line problem =>
    (if line = 0 then "" else "line " ++ toString line ++ ": ") ++ problem.message
  | unknownAnchor name => "unknown anchor '" ++ name ++ "' referenced"
  | endlessAnchor name => "anchor '" ++ name ++ "' value contains itself"
  | excessiveAliases => "document contains excessive aliasing"
  | unresolvable found text wanted => "cannot decode " ++ found ++ " `" ++ text ++ "` as a " ++ wanted
  | badBinary => "!!binary value contains invalid base64 data"
  | badMerge => "map merge requires map or sequence of maps as the value"
  | badKey expression => "invalid map key: " ++ expression
  | misfits points => "unmarshal errors:\n  " ++ "\n  ".intercalate (points.map Misfit.message)

def message (f : Fault) : String := "yaml: " ++ f.problemText

end Fault

end OperationGraph.Yaml
