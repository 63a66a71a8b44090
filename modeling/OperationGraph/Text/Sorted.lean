/-! # Names in order

Names are ordered by their code points, which is also the order of their bytes. Lists of named
things are kept in this order, so that equal collections are equal lists. -/

namespace OperationGraph

/-- Inserts `a` before the first element that is not below it. -/
def insertOrdered {α : Type} (key : α → String) (a : α) : List α → List α
  | [] => [a]
  | b :: rest => if key b < key a then b :: insertOrdered key a rest else a :: b :: rest

/-- Sorts a list by a key; elements with one key keep their order. -/
def sortBy {α : Type} (key : α → String) (xs : List α) : List α :=
  xs.foldr (insertOrdered key) []

def sortNames (names : List String) : List String := sortBy id names

/-- Puts `a` in its place and drops an element that has the same key. -/
def putOrdered {α : Type} (key : α → String) (a : α) : List α → List α
  | [] => [a]
  | b :: rest =>
    if key b < key a then b :: putOrdered key a rest
    else if key b = key a then a :: rest
    else a :: b :: rest

/-- Each element once, where it occurs first. -/
def distinct {α : Type} [BEq α] (xs : List α) : List α :=
  (xs.foldl (fun acc a => if acc.contains a then acc else a :: acc) []).reverse

end OperationGraph
