import OperationGraph.Text.Hex
import OperationGraph.Text.Utf8

/-! # Request identifiers

A request is named by sixteen bytes in hexadecimal, written in groups of eight, four, four, four and
twelve digits. A caller may send one with or without dashes, after `urn:uuid:`, or between any two
bytes. -/

namespace OperationGraph.Http.RequestId

def groups : List Nat := [8, 4, 4, 4, 12]

/-- The digits of a dashed identifier: groups of the given sizes with a dash between any two. -/
def undashed? : List Nat → List Char → Option (List Char)
  | [], cs => if cs.isEmpty then some [] else none
  | [n], cs => if cs.length = n then some cs else none
  | n :: rest, cs =>
    match cs.drop n with
    | '-' :: tail => (undashed? rest tail).map (cs.take n ++ ·)
    | _ => none

def dashed : List Nat → List Char → List Char
  | [], _ => []
  | [n], cs => cs.take n
  | n :: rest, cs => cs.take n ++ '-' :: dashed rest (cs.drop n)

/-- The digits in an identifier as sent, by its length; each character stands for one byte. -/
def digits? (cs : List Char) : Option (List Char) :=
  match cs.length with
  | 36 => undashed? groups cs
  | 45 =>
    if (cs.take 9).map Char.toLower = "urn:uuid:".toList then undashed? groups (cs.drop 9) else none
  | 38 => undashed? groups ((cs.drop 1).take 36)
  | 32 => some cs
  | _ => none

/-- The identifier that a text stands for, in lower case with dashes. -/
def read? (id : String) : Option String :=
  match digits? ((Text.bytes id.toList).map Char.ofNat) with
  | some ds =>
    if ds.length = 32 && ds.all fun c => (Text.hexValue? c).isSome then
      some (String.ofList (dashed groups (ds.map Char.toLower)))
    else none
  | none => none

/-- The identifier of a request: the one it brings, or else a fresh one. -/
def ofIncoming (fresh id : String) : String := (read? id).getD fresh

end OperationGraph.Http.RequestId
