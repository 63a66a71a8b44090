import OperationGraph.Value.Key
import OperationGraph.Yaml.Node

/-! # What documents hold

A document holds named values. An alias stands for the node of its anchor, and a map may take over entries
of other maps. What does not fit is noted, so that all of it is reported together. -/

namespace OperationGraph.Yaml

namespace Node

def line : Node → Nat
  | scalar line .. => line
  | list line .. => line
  | map line .. => line
  | reference line .. => line

/-- What tells a key from other keys of its kind: the text of a scalar or the name of an alias. -/
def name : Node → String
  | scalar _ _ text => text
  | reference _ name .. => name
  | _ => ""

def sameKind : Node → Node → Bool
  | scalar .., scalar .. => true
  | list .., list .. => true
  | map .., map .. => true
  | reference .., reference .. => true
  | _, _ => false

/-- Whether a key asks for the entries of other maps. -/
def isMerge : Node → Bool
  | scalar _ tag text => text = "<<" && tag = "!!merge"
  | _ => false

def repeatedKeys : List (Node × Node) → List Misfit
  | [] => []
  | (k, _) :: rest =>
    (rest.filter fun e => k.sameKind e.1 && k.name = e.1.name).map
      (fun e => .repeatedKey e.1.line e.1.name k.line) ++ repeatedKeys rest

end Node

namespace Document

def target (d : Document) (anchor : Nat) : Node :=
  ((d.anchored.find? (·.1 = anchor)).map (·.2)).getD default

/-- The tag of a node; an alias has that of its target. -/
def tagOf (d : Document) : Node → String
  | .scalar _ tag _ => tag
  | .list _ tag _ => tag
  | .map _ tag _ => tag
  | .reference _ _ _ anchor =>
    match d.target anchor with
    | .scalar _ tag _ => tag
    | .list _ tag _ => tag
    | .map _ tag _ => tag
    | .reference .. => ""

def isMap (d : Document) : Node → Bool
  | .map .. => true
  | .reference _ _ _ anchor =>
    match d.target anchor with
    | .map .. => true
    | _ => false
  | _ => false

def hasTextKeys (d : Document) (entries : List (Node × Node)) : Bool :=
  entries.all fun e => d.tagOf e.1 = "!!str" || d.tagOf e.1 = "!!merge"

end Document

/-- How far a document is read: the nodes so far, those of them that aliases brought, and what does not
fit. -/
structure Progress where
  nodes : Nat := 0
  copies : Nat := 0
  misfits : List Misfit := []

namespace Progress

/-- Whether too many of the nodes are copies. The share allowed shrinks from ninety-nine hundredths to a
tenth as documents grow. -/
def isExcessive (p : Progress) : Bool :=
  100 < p.copies && 1000 < p.nodes &&
    if p.nodes ≤ 400000 then 99 * p.nodes < 100 * p.copies
    else if 4000000 ≤ p.nodes then p.nodes < 10 * p.copies
    else (99 * 3600000 - 89 * (p.nodes - 400000)) * p.nodes < 100 * 3600000 * p.copies

end Progress

/-- The entries of a map, whose keys are texts or any scalars. -/
inductive Table where
  | texts (entries : Entries)
  | scalars (entries : List (Value × Value))

namespace Table

def put (t : Table) (k v : Value) : Table :=
  match t, k with
  | texts es, .string name => texts (es.put name v)
  | texts es, _ => texts es
  | scalars es, k => scalars (Value.putPair k v es)

def value : Table → Value
  | texts es => .object es
  | scalars es => .mapping es

end Table

/-- A step that gives the contents of a node. -/
abbrev Evaluating := StateT Progress (Except Fault)

namespace Evaluating

def note (points : List Misfit) : Evaluating Unit :=
  modify fun p => { p with misfits := p.misfits ++ points }

/-- Counts a node; it is a copy if some alias is being followed. -/
def count (followed : List Nat) : Evaluating Unit := do
  let p ← get
  let p := { p with nodes := p.nodes + 1, copies := p.copies + if followed.isEmpty then 0 else 1 }
  if p.isExcessive then throw .excessiveAliases
  set p

def follow (followed : List Nat) (name : String) (number : Nat) : Evaluating (List Nat) := do
  if followed.contains number then throw (.endlessAnchor name)
  return number :: followed

mutual

def value (d : Document) : Nat → List Nat → Node → Evaluating (Option Value)
  | 0, _, _ => do throw .excessiveAliases
  | fuel + 1, followed, n => do
    count followed
    match n with
    | .reference _ name number anchor =>
      value d fuel (← follow followed name number) (d.target anchor)
    | .scalar _ tag text => return some (← resolve tag text)
    | .list _ _ ns => return some (.list (← items d fuel followed ns))
    | .map _ _ es =>
      let start := if d.hasTextKeys es then Table.texts [] else .scalars []
      return (← table d fuel followed start none es).map fun t => t.1.value

def items (d : Document) : Nat → List Nat → List Node → Evaluating (List Value)
  | 0, _, _ => do throw .excessiveAliases
  | _, _, [] => return []
  | fuel + 1, followed, n :: rest => do
    let v ← value d fuel followed n
    return v.toList ++ (← items d fuel followed rest)

/-- The text of a node that is the name of an entry; null is none. -/
def text (d : Document) : Nat → List Nat → Node → Evaluating (Option String)
  | 0, _, _ => do throw .excessiveAliases
  | fuel + 1, followed, n => do
    count followed
    match n with
    | .reference _ name number anchor =>
      text d fuel (← follow followed name number) (d.target anchor)
    | .scalar _ tag spelling =>
      match ← resolve tag spelling with
      | .null => return none
      | .string s => return some s
      | _ => return some spelling
    | .list line tag _ =>
      note [.wrongType line tag "" "string"]
      return none
    | .map line tag es =>
      let points := Node.repeatedKeys es
      note (if points.isEmpty then [.wrongType line tag "" "string"] else points)
      return none

/-- Adds the entries of a map to a table, those it takes over from other maps last. If `taken` lists keys,
these are left out, and the new ones are added to it. -/
def table (d : Document) : Nat → List Nat → Table → Option (List Value) → List (Node × Node) →
    Evaluating (Option (Table × Option (List Value)))
  | 0, _, _, _, _ => do throw .excessiveAliases
  | fuel + 1, followed, t, taken, es => do
    let points := Node.repeatedKeys es
    if !points.isEmpty then
      note points
      return none
    let (t, taken) ← entries d fuel followed t taken es
    match (es.filter (·.1.isMerge)).getLast? with
    | none => return some (t, taken)
    | some (_, n) =>
      let known ← match taken with
        | some ks => pure ks
        | none => items d fuel followed (es.map (·.1))
      let sources ← match n with
        | .map .. => pure [n]
        | .reference .. => pure [n]
        | .list _ _ ns => pure ns
        | .scalar .. => throw .badMerge
      let (t, known) ← merge d fuel followed t known sources
      return some (t, taken.map fun _ => known)

/-- Adds the entries of a map to a table, except those that ask for other maps. -/
def entries (d : Document) : Nat → List Nat → Table → Option (List Value) → List (Node × Node) →
    Evaluating (Table × Option (List Value))
  | 0, _, _, _, _ => do throw .excessiveAliases
  | _, _, t, taken, [] => return (t, taken)
  | fuel + 1, followed, t, taken, (k, n) :: rest => do
    if k.isMerge then entries d fuel followed t taken rest
    else
      let key ← match t with
        | .texts _ => do pure ((← text d fuel followed k).map Value.string)
        | .scalars _ => value d fuel followed k
      match key with
      | none => entries d fuel followed t taken rest
      | some key =>
        if (taken.getD []).any key.sameKey then entries d fuel followed t taken rest
        else
          if !key.isScalar then throw (.badKey key.expression)
          let v ← value d fuel followed n
          let t := (v.map (t.put key)).getD t
          entries d fuel followed t (taken.map (key :: ·)) rest

/-- Adds the entries of maps whose keys are not taken. -/
def merge (d : Document) : Nat → List Nat → Table → List Value → List Node →
    Evaluating (Table × List Value)
  | 0, _, _, _, _ => do throw .excessiveAliases
  | _, _, t, taken, [] => return (t, taken)
  | fuel + 1, followed, t, taken, n :: rest => do
    if !d.isMap n then throw .badMerge
    count followed
    let (followed', source) ← match n with
      | .reference _ name number anchor => do
        let followed' ← follow followed name number
        count followed'
        pure (followed', d.target anchor)
      | n => pure (followed, n)
    match source with
    | .map _ _ es =>
      match ← table d fuel followed' t (some taken) es with
      | some (t, taken') => merge d fuel followed t (taken'.getD taken) rest
      | none => merge d fuel followed t taken rest
    | _ => merge d fuel followed t taken rest

end

def contents (d : Document) (fuel : Nat) : Evaluating Entries := do
  let wanted := (Value.object []).typeName
  match d.root with
  | none => return []
  | some n =>
    count []
    match n with
    | .map _ _ es =>
      match ← table d fuel [] (.texts []) none es with
      | some (.texts es, _) => return es
      | _ => return []
    | .scalar line tag text =>
      match ← resolve tag text with
      | .null => return []
      | _ =>
        note [.wrongType line tag text wanted]
        return []
    | n =>
      note [.wrongType n.line (d.tagOf n) "" wanted]
      return []

end Evaluating

def parse (text : String) : Except Fault Entries := do
  let d ← Document.ofText text
  let (es, p) ← (Evaluating.contents d ((d.aliases + 1) * (8 * text.length + 64))).run {}
  if p.misfits.isEmpty then return es
  throw (.misfits p.misfits)

end OperationGraph.Yaml
