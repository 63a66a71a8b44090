import OperationGraph.Text.Blank
import OperationGraph.Text.Lower
import OperationGraph.Value.Basic

/-! # Layers of settings

A setting has a dotted key and is looked for in layers, from what was set by hand down to the defaults.
A plain value in a layer at the place of a group hides all settings of the group in the layers below. -/

namespace OperationGraph

namespace Entries

/-- The value at a path through nested groups; null counts as none. -/
def search : List String → Entries → Option Value
  | [], _ => none
  | [k], es => (es.find? k).filter (!·.isNull)
  | k :: rest, es =>
    match es.find? k with
    | some (.object inner) => search rest inner
    | _ => none

/-- Sets the value at a path; a plain value on the way gives way to a group. -/
def assign (v : Value) : List String → Entries → Entries
  | [], es => es
  | [k], es => es.put k v
  | k :: rest, es =>
    es.put k (.object (assign v rest (match es.find? k with
      | some (.object inner) => inner
      | _ => [])))

end Entries

namespace Value

def keyName : Value → String
  | .boolean b => if b then "true" else "false"
  | .int _ n => toString n
  | .float w x => x.text w.format .positional
  | .string s => s
  | .moment m => m.text
  | _ => ""

mutual

/-- A value with the names in it in lower case. Where two names become the same, the one that was not
in lower case counts. A mapping becomes an object. -/
def lowerNames : Value → Value
  | .list items => .list (lowerItems items)
  | .object entries => .object (Entries.ofList (lowerEntries false entries ++ lowerEntries true entries))
  | .mapping entries => .object (Entries.ofList (lowerPairs entries))
  | v => v

def lowerItems : List Value → List Value
  | [] => []
  | v :: rest => v.lowerNames :: lowerItems rest

/-- Entries with their names in lower case: those whose name changes by it, or the others. -/
def lowerEntries (changing : Bool) : List (String × Value) → List (String × Value)
  | [] => []
  | (k, v) :: rest =>
    if (Text.lower k ≠ k) = changing then (Text.lower k, v.lowerNames) :: lowerEntries changing rest
    else lowerEntries changing rest

/-- The entries of a mapping under names in lower case. -/
def lowerPairs : List (Value × Value) → List (String × Value)
  | [] => []
  | (k, v) :: rest => (Text.lower k.keyName, v.lowerNames) :: lowerPairs rest

end

end Value

namespace Entries

def lowerNames (es : Entries) : Entries :=
  ofList (Value.lowerEntries false es ++ Value.lowerEntries true es)

end Entries

structure Layers where
  overrides : Entries := []
  /-- The settings that flags stand for, with the value of each flag that was given. -/
  flags : List (String × Option Value) := []
  environment : List (String × String) := []
  /-- The settings that are looked for in the environment even if no other layer has them. -/
  bound : List String := []
  /-- What names in the environment start with. -/
  environmentName : String := ""
  file : Entries := []
  defaults : Entries := []
deriving Repr

namespace Layers

def path (key : String) : List String := Text.split '.' key

def key (path : List String) : String := ".".intercalate path

def groups (path : List String) : List (List String) :=
  (List.range (path.length - 1)).map fun i => path.take (i + 1)

/-- Sets a value by hand; keys are read in lower case. -/
def override (l : Layers) (key : String) (v : Value) : Layers :=
  { l with overrides := l.overrides.assign v.lowerNames (path (Text.lower key)) }

def hides (es : Entries) (path : List String) : Bool :=
  (groups path).any fun g =>
    match es.search g with
    | some (.object _) => false
    | some _ => true
    | none => false

/-- Whether a group around a path is itself one of some keys. -/
def hidesFlat (keys : List String) (path : List String) : Bool :=
  (groups path).any fun g => keys.contains (key g)

def variableOf (l : Layers) (path : List String) : String :=
  String.ofList ((l.environmentName ++ "_" ++ key path).toList.map fun c =>
    if c = '.' then '_' else c.toUpper)

/-- The text of a setting in the environment; an empty one counts as none. -/
def inEnvironment? (l : Layers) (path : List String) : Option Value :=
  let name := l.variableOf path
  ((l.environment.find? (·.1 = name)).filter (·.2 ≠ "")).map fun e => .string e.2

/-- The value at a path whose parts may also be joined in names; `fuel` bounds the nesting. -/
def searchJoined : Nat → List String → Entries → Option Value
  | 0, _, _ => none
  | fuel + 1, path, es =>
    ((List.range path.length).reverse).findSome? fun i =>
      match es.find? (key (path.take (i + 1))) with
      | none => none
      | some v =>
        match path.drop (i + 1) with
        | [] => if v.isNull then none else some v
        | rest =>
          match v with
          | .object inner => searchJoined fuel rest inner
          | _ => none

def find? (l : Layers) (path : List String) : Option Value :=
  match l.overrides.search path with
  | some v => some v
  | none =>
    if hides l.overrides path then none
    else
      match (l.flags.find? (·.1 = key path)).bind (·.2) with
      | some v => some v
      | none =>
        if hidesFlat (l.flags.map (·.1)) path then none
        else
          match l.inEnvironment? path with
          | some v => some v
          | none =>
            if (groups path).any (fun g => (l.inEnvironment? g).isSome) || hidesFlat l.bound path then
              none
            else
              match searchJoined path.length path l.file with
              | some v => some v
              | none => if hides l.file path then none else l.defaults.search path

mutual

def addValueKeys (key : String) (found : List String) : Value → List String
  | .object es => if found.contains key then found else addKeys (key ++ ".") found es
  | _ => if found.contains key then found else found ++ [key]

def addKeys (start : String) (found : List String) : List (String × Value) → List String
  | [] => found
  | (k, v) :: rest => addKeys start (addValueKeys (start ++ k) found v) rest

end

def addFlatKeys (keys found : List String) : List String :=
  keys.foldl (fun found k =>
    if found.contains k || hidesFlat found (path k) then found else found ++ [k]) found

/-- The keys that some layer has, those that are hidden left out. -/
def keys (l : Layers) : List String :=
  let found := addKeys "" [] l.overrides
  let found := addFlatKeys (l.flags.map (·.1)) found
  let found := addFlatKeys l.bound found
  addKeys "" (addKeys "" found l.file) l.defaults

def settings (l : Layers) : Entries :=
  (sortNames l.keys).foldl (fun es k =>
    match l.find? (path k) with
    | none => es
    | some v => es.assign v (path k)) []

end Layers

end OperationGraph
