/-! # Sources and diagnostics

A source is a named text. A position names a place in one, and a diagnostic is a message about such
a place, or about a source as a whole. -/

namespace OperationGraph

/-- A named text of the query or schema language; what a built-in one defines may have a reserved name. -/
structure Source where
  name : String := ""
  text : String
  builtIn : Bool := false
deriving DecidableEq, Repr

/-- A place in a source. Lines count from one. Columns count characters from one; the column of a
text that runs over several lines is relative to its last line and may be zero or below. -/
structure Position where
  source : String := ""
  line : Nat
  column : Int
deriving DecidableEq, Repr, Inhabited

/-- A message about a source, at a place if one is known. -/
structure Diagnostic where
  message : String
  source : String := ""
  place : Option (Nat × Int) := none
deriving DecidableEq, Repr

namespace Diagnostic

def at_ (pos : Position) (message : String) : Diagnostic :=
  { message, source := pos.source, place := some (pos.line, pos.column) }

/-- The message with the source and the place in front; a source without a name is `input`. -/
def text (d : Diagnostic) : String :=
  let file := if d.source = "" then "input" else d.source
  let place := match d.place with
    | some (line, column) => ":" ++ toString line ++ ":" ++ toString column
    | none => ""
  file ++ place ++ ": " ++ d.message

end Diagnostic

end OperationGraph
