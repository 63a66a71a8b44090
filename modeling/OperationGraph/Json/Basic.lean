/-! # Data exchange values

A value of the exchange format. Numbers keep their spelling and objects the order and the repetition
of their members, so that reading loses nothing. -/

namespace OperationGraph

inductive Json where
  | null
  | bool (b : Bool)
  | number (spelling : String)
  | string (s : String)
  | array (items : List Json)
  | object (members : List (String × Json))
deriving Repr, Inhabited

namespace Json

def int (n : Int) : Json := .number (toString n)

def strings (xs : List String) : Json := .array (xs.map .string)

/-- The member of a name; of repeated members the last counts. -/
def member? (name : String) : Json → Option Json
  | .object ms => (ms.reverse.find? (·.1 = name)).map (·.2)
  | _ => none

end Json

end OperationGraph
