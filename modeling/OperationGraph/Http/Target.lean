import OperationGraph.Text.Blank
import OperationGraph.Text.Hex
import OperationGraph.Text.Utf8

/-! # Request targets

A target is a path and a query, the query being what follows the first question mark. Both may write
bytes as percent escapes, and in the query a plus sign stands for a blank. -/

namespace OperationGraph.Http

/-- The bytes of an escaped text; an escape without two hexadecimal digits spoils it. -/
def unescape? (plusIsBlank : Bool) : List Char → Option (List Nat)
  | [] => some []
  | '%' :: a :: b :: rest =>
    match Text.hexValue? a, Text.hexValue? b with
    | some x, some y => (unescape? plusIsBlank rest).map ((16 * x + y) :: ·)
    | _, _ => none
  | c :: rest =>
    if c = '%' then none
    else
      let c := if plusIsBlank && c = '+' then ' ' else c
      (unescape? plusIsBlank rest).map (Text.charBytes c ++ ·)

def unescaped? (plusIsBlank : Bool) (cs : List Char) : Option String :=
  (unescape? plusIsBlank cs).map fun bs => String.ofList (Text.decode bs)

/-- Cuts a text at the first occurrence of a character; without one the second part is empty. -/
def cut (sep : Char) (cs : List Char) : List Char × List Char :=
  (cs.takeWhile (· ≠ sep), (cs.dropWhile (· ≠ sep)).drop 1)

structure Target where
  path : String
  query : String := ""
deriving DecidableEq, Repr

namespace Target

/-- The part of a target after the host, if a scheme and a host come first. -/
def afterHost : List Char → List Char
  | '/' :: rest => '/' :: rest
  | cs =>
    match cs.dropWhile (· ≠ ':') with
    | ':' :: '/' :: '/' :: rest => rest.dropWhile (· ≠ '/')
    | _ => cs

/-- Reads a target. A path that cannot be unescaped is kept as it is. -/
def ofText (text : String) : Target :=
  let (path, query) := cut '?' text.toList
  let path := afterHost path
  { path := (unescaped? false path).getD (String.ofList path), query := String.ofList query }

/-- The name and the value of a pair of the query. A pair is dropped if it is empty, contains a
semicolon or a bad escape. -/
def pair? (cs : List Char) : Option (String × String) :=
  if cs.isEmpty || cs.contains ';' then none
  else
    let (name, value) := cut '=' cs
    match unescaped? true name, unescaped? true value with
    | some n, some v => some (n, v)
    | _, _ => none

def pairs (t : Target) : List (String × String) :=
  (Text.splitAt '&' t.query.toList).filterMap pair?

/-- The first value of a name in the query; empty if there is none. -/
def parameter (t : Target) (name : String) : String :=
  match t.pairs.find? (·.1 = name) with
  | some p => p.2
  | none => ""

end Target

end OperationGraph.Http
