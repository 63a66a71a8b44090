import OperationGraph.Settings.Layers
import OperationGraph.Toml.Names

/-! # Documents of tables of settings

Expressions take effect one after the other, so the first one that is wrong decides what is reported. -/

namespace OperationGraph.Toml

mutual

def Item.value : Item → Except Fault Value
  | .text s => .ok (.string s)
  | .scalar s => s.value
  | .array is => (itemValues is).map .list
  | .table es => (entryValues [] es).map .object

def itemValues : List Item → Except Fault (List Value)
  | [] => .ok []
  | i :: rest => do
    let v ← i.value
    return v :: (← itemValues rest)

/-- The entries of a table on one line, added to those before. -/
def entryValues (before : Entries) : List (Key × Item) → Except Fault Entries
  | [] => .ok before
  | (k, i) :: rest => do
    let v ← i.value
    entryValues (before.assign v k) rest

end

/-- Changes what is at a path through tables; in an array of tables the last one counts. Nothing is
there at first if the path leads nowhere yet. -/
def alter (f : Option Value → Value) : Key → Entries → Entries
  | [], es => es
  | [k], es => es.put k (f (es.find? k))
  | k :: rest, es =>
    es.put k (match es.find? k with
      | some (.object inner) => .object (alter f rest inner)
      | some (.list items) =>
        match items.getLast? with
        | some (.object inner) => .list (items.dropLast ++ [.object (alter f rest inner)])
        | _ => .list (items ++ [.object (alter f rest [])])
      | _ => .object (alter f rest []))

/-- A document while it is read: the names in use, the table that entries belong to, and what has been
read. -/
structure Document where
  names : Names := .empty
  table : Key := []
  contents : Entries := []

namespace Document

def add (d : Document) : Expression → Except Fault Document
  | .entry k i => do
    let names ← d.names.change (Names.declareKey k) d.table
    Names.checkItem i
    let v ← i.value
    return { d with names, contents := alter (fun _ => v) (d.table ++ k) d.contents }
  | .table k => do
    let names ← (← d.names.change (fun t => .ok t.close) d.table).declareTable k
    let fresh (before : Option Value) : Value := before.getD (.object [])
    return { names, table := k, contents := alter fresh k d.contents }
  | .arrayTable k => do
    let names ← (← d.names.change (fun t => .ok t.close) d.table).declareArrayTable k
    let fresh (before : Option Value) : Value :=
      match before with
      | some (.list items) => .list (items ++ [.object []])
      | _ => .list [.object []]
    return { names, table := k, contents := alter fresh k d.contents }

/-- Reads expressions on lines of their own; `first` tells that no line break is due before the next,
and `fuel` bounds their number. -/
def read : Nat → Bool → Document → List Char → Except Fault Document
  | 0, _, d, _ => .ok d
  | fuel + 1, first, d, cs => do
    let cs ← if first then pure cs else lineBreak cs
    if cs.isEmpty then return d
    let (e, rest) ← expression (2 * cs.length + 2) cs
    let d ← match e with
      | some e => d.add e
      | none => pure d
    read fuel false d rest

end Document

def parse (text : String) : Except Fault Entries :=
  (Document.read (text.length + 2) true {} text.toList).map (·.contents)

end OperationGraph.Toml
