import OperationGraph.Document.Basic
import OperationGraph.Value.Basic

/-! # The value of a literal -/

namespace OperationGraph

def readInt? (cs : List Char) : Option Int :=
  let (negative, ds) := match cs with
    | '-' :: r => (true, r)
    | '+' :: r => (false, r)
    | r => (false, r)
  match spanDigits ds with
  | ([], _) => none
  | (n, []) => some (if negative then -(ofDigits n : Int) else ofDigits n)
  | _ => none

/-- Whether an integer has at most sixty-four bits. -/
def isWord (n : Int) : Bool := -0x8000000000000000 ≤ n && n < 0x8000000000000000

/-- The number of a spelling with a fraction or an exponent. -/
def floatValue (raw : String) : Value :=
  .float .double ((Binary.read? .double raw.toList).getD (Binary.zero .double false))

/-- The number of an integer spelling; one beyond sixty-four bits becomes floating point. -/
def intValue (raw : String) : Value :=
  match readInt? raw.toList with
  | some n => if isWord n then .int .plain n else floatValue raw
  | none => floatValue raw

namespace Literal

mutual

def toValue (vars : Entries) : Literal → Value
  | .variable n => (vars.find? n).getD .null
  | .int raw => intValue raw
  | .float raw => floatValue raw
  | .string s => .string s
  | .block s => .string s
  | .boolean b => .boolean b
  | .null => .null
  | .enum n => .string n
  | .list items => .list (toValues vars items)
  | .object fields => .object (Entries.ofList (toEntries vars fields))

def toValues (vars : Entries) : List Literal → List Value
  | [] => []
  | l :: rest => toValue vars l :: toValues vars rest

/-- The values of the fields of an object, in the order of the text. -/
def toEntries (vars : Entries) : List (String × Literal) → List (String × Value)
  | [] => []
  | (k, l) :: rest => (k, toValue vars l) :: toEntries vars rest

end

end Literal

end OperationGraph
