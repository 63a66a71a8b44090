import OperationGraph.Toml.Expression

/-! # Names in tables of settings

Every name may be given one meaning. A table may be named on the way to another before it is declared
itself, but once declared, or once left after its entries were written with dotted keys, it is closed. -/

namespace OperationGraph.Toml

/-- The names below a name, with what it is used for. A closed table takes no dotted keys from outside
and cannot be declared again; a dotted one was named by the key of an entry. -/
inductive Names where
  | node (kind : NameKind) (closed dotted : Bool) (children : List (String × Names))
deriving Repr

namespace Names

def empty : Names := .node .table false false []

def children : Names → List (String × Names)
  | node _ _ _ cs => cs

def child? (t : Names) (k : String) : Option Names := (t.children.find? (·.1 = k)).map (·.2)

def setChild (t : Names) (k : String) (c : Names) : Names :=
  match t with
  | node kind closed dotted cs =>
    if cs.any (·.1 = k) then
      .node kind closed dotted (cs.map fun e => if e.1 = k then (k, c) else e)
    else .node kind closed dotted (cs ++ [(k, c)])

mutual

/-- Closes all tables below that were named by the keys of entries. -/
def close : Names → Names
  | node kind closed dotted cs => .node kind closed dotted (closeChildren cs)

/-- Closes those of some tables that were named by the keys of entries, and all such below. -/
def closeChildren : List (String × Names) → List (String × Names)
  | [] => []
  | (k, node kind closed dotted cs) :: rest =>
    (k, .node kind (closed || dotted) false (closeChildren cs)) :: closeChildren rest

end

def change (f : Names → Except Fault Names) : Key → Names → Except Fault Names
  | [], t => f t
  | k :: rest, t => do
    let c ← change f rest ((t.child? k).getD empty)
    return t.setChild k c

def declareTable : Key → Names → Except Fault Names
  | [], t => .ok t
  | [k], t =>
    match t.child? k with
    | none => .ok (t.setChild k (.node .table true false []))
    | some (node kind closed dotted cs) =>
      if kind ≠ .table then .error (.shouldBeTable k kind)
      else if closed then .error (.repeatedTable k)
      else .ok (t.setChild k (.node kind true dotted cs))
  | k :: rest, t => do
    match t.child? k with
    | some (node .value ..) => throw (.notTable k .value)
    | c => return t.setChild k (← declareTable rest (c.getD empty))

def declareArrayTable : Key → Names → Except Fault Names
  | [], t => .ok t
  | [k], t =>
    match t.child? k with
    | none => .ok (t.setChild k (.node .arrayTable true false []))
    | some (node kind closed dotted _) =>
      if kind ≠ .arrayTable then .error (.shouldBeArrayTable k kind)
      else .ok (t.setChild k (.node kind closed dotted []))
  | k :: rest, t => do
    match t.child? k with
    | some (node .value ..) => throw (.notTable k .value)
    | c => return t.setChild k (← declareArrayTable rest (c.getD empty))

def declareKey : Key → Names → Except Fault Names
  | [], node _ closed dotted cs => .ok (.node .value closed dotted cs)
  | k :: rest, t => do
    match t.child? k with
    | none => return t.setChild k (← declareKey rest (.node .table false true []))
    | some (node kind closed dotted cs) =>
      if rest.isEmpty then throw (.repeatedKey k)
      if kind ≠ .table then throw (.notTable k kind)
      if closed then throw (.closedTable k)
      return t.setChild k (← declareKey rest (.node kind closed dotted cs))

mutual

def checkItem : Item → Except Fault Unit
  | .table es => checkEntries empty es
  | .array is => checkItems is
  | _ => .ok ()

def checkItems : List Item → Except Fault Unit
  | [] => .ok ()
  | i :: rest => do
    checkItem i
    checkItems rest

def checkEntries (t : Names) : List (Key × Item) → Except Fault Unit
  | [] => .ok ()
  | (k, i) :: rest => do
    let t ← declareKey k t
    checkItem i
    checkEntries t rest

end

end Names

end OperationGraph.Toml
