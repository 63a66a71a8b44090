import OperationGraph.Http.Target
import OperationGraph.Text.Sorted

/-! # Requests and responses -/

namespace OperationGraph.Http

abbrev Headers := List (String × String)

namespace Headers

/-- The first value of a name in any letter case; empty if there is none. -/
def get (hs : Headers) (name : String) : String :=
  match hs.find? fun h => h.1.map Char.toLower = name.map Char.toLower with
  | some h => h.2
  | none => ""

/-- Sets the value of a name; the names stay in order. -/
def set (hs : Headers) (name value : String) : Headers := putOrdered Prod.fst (name, value) hs

end Headers

structure Request where
  method : String
  target : Target
  headers : Headers := []
  body : String := ""
deriving Repr

structure Response where
  status : Nat
  headers : Headers := []
  body : String := ""
deriving DecidableEq, Repr

end OperationGraph.Http
