import OperationGraph.Json.Printer
import OperationGraph.Value.Basic

/-! # Values and the exchange format

Every number that comes in is a double. Going out, a number that is not finite has no written form, nor
has a moment or a mapping. -/

namespace OperationGraph.Value

mutual

/-- The value that an exchange value stands for; a number out of range stands for none. -/
def ofJson? : Json → Option Value
  | .null => some .null
  | .bool b => some (.boolean b)
  | .number n =>
    match Binary.read? .double n.toList with
    | some (.finite s m e) => some (.float .double (.finite s m e))
    | _ => none
  | .string s => some (.string s)
  | .array items => (ofItems? items).map .list
  | .object members => (ofMembers? members).map fun es => .object (Entries.ofList es)

def ofItems? : List Json → Option (List Value)
  | [] => some []
  | j :: rest =>
    match ofJson? j, ofItems? rest with
    | some v, some vs => some (v :: vs)
    | _, _ => none

def ofMembers? : List (String × Json) → Option (List (String × Value))
  | [] => some []
  | (k, j) :: rest =>
    match ofJson? j, ofMembers? rest with
    | some v, some es => some ((k, v) :: es)
    | _, _ => none

end

mutual

/-- The written form of a value, if it has one. -/
def toJson? : Value → Option Json
  | .null => some .null
  | .boolean b => some (.bool b)
  | .int _ n => some (.int n)
  | .float w (.finite s m e) =>
    some (.number ((Binary.finite s m e).text w.format .exchange))
  | .float _ _ => none
  | .string s => some (.string s)
  | .list items => (toItems? items).map .array
  | .object entries => (toMembers? entries).map .object
  | .moment _ => none
  | .mapping _ => none

def toItems? : List Value → Option (List Json)
  | [] => some []
  | v :: rest =>
    match toJson? v, toItems? rest with
    | some j, some js => some (j :: js)
    | _, _ => none

/-- The written forms of the entries of an object. -/
def toMembers? : List (String × Value) → Option (List (String × Json))
  | [] => some []
  | (k, v) :: rest =>
    match toJson? v, toMembers? rest with
    | some j, some ms => some ((k, j) :: ms)
    | _, _ => none

end

end OperationGraph.Value
