/-! # The text of a block string

The common indentation of a block string is removed from all lines but the first, and blank lines at
both ends are dropped. -/

namespace OperationGraph.BlockText

def isIndent (c : Char) : Bool := c = ' ' || c = '\t'

/-- Whether a line holds nothing but indentation. -/
def isBlank (line : List Char) : Bool := line.all isIndent

def lines : List Char → List (List Char)
  | [] => [[]]
  | c :: rest =>
    if c = '\n' then [] :: lines rest
    else
      match lines rest with
      | [] => [[c]]
      | l :: ls => (c :: l) :: ls

def commonIndent? (ls : List (List Char)) : Option Nat :=
  ((ls.filter fun l => !isBlank l).map fun l => (l.takeWhile isIndent).length).min?

/-- Removes the common indentation from all lines but the first. -/
def dedent (ls : List (List Char)) : List (List Char) :=
  match ls, commonIndent? ls with
  | first :: rest, some n => first :: rest.map (List.drop n)
  | ls, _ => ls

/-- Drops the blank lines at both ends. -/
def trim (ls : List (List Char)) : List (List Char) :=
  ((ls.dropWhile isBlank).reverse.dropWhile isBlank).reverse

def join (ls : List (List Char)) : List Char := List.intercalate ['\n'] ls

/-- The value of a block string from the characters between its quotes. -/
def value (raw : List Char) : List Char := join (trim (dedent (lines raw)))

end OperationGraph.BlockText
