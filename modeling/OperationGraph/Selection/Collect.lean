import OperationGraph.Analysis.Error
import OperationGraph.Selection.Inclusion
import OperationGraph.Selection.MergedField

/-! # Collecting fields

Walking over a selection set collects, for every object type that a value can have there, the fields
that are selected on it. Fragments narrow the set of object types, and each named fragment is entered
at most once in a walk. -/

namespace OperationGraph

/-- The object types that a value can have; `none` is no restriction at all. -/
abbrev TypeSet := Option (List NamedType)

namespace TypeSet

/-- Keeps the types of a set that are among others, by name. -/
def restrict (current : TypeSet) (admitted : List NamedType) : TypeSet :=
  match current with
  | none => some admitted
  | some ts => some (ts.filter fun t => admitted.any (·.name = t.name))

/-- The types of a set; none are known of an unrestricted one. -/
def toList (s : TypeSet) : List NamedType := s.getD []

end TypeSet

/-- What collecting needs to know: the schema, the fragments and the values of the variables. -/
structure Collector where
  schema : Schema
  fragments : List Fragment := []
  variableValues : Entries := []

/-- What has been collected, and the fragments entered so far. -/
structure Collected where
  groups : FieldGroups := []
  visited : List String := []

namespace Collector

/-- The fragment of a name; the first definition counts. -/
def fragment? (c : Collector) (name : String) : Option Fragment :=
  c.fragments.find? (·.name = name)

/-- The object types that a value of a type can have. -/
def possibleTypes (c : Collector) (t : NamedType) (pos : Option Position) :
    Except AnalysisError (List NamedType) :=
  if t.kind.isComposite then
    match c.schema.possibleTypes t with
    | .ok ts => .ok ts
    | .error e => .error { fault := .possibleTypes e, pos }
  else .error { fault := .notComposite t.name t.kind, pos }

def conditionType (c : Collector) (name : String) (pos : Option Position) :
    Except AnalysisError NamedType :=
  match c.schema.type? name with
  | some t => .ok t
  | none => .error { fault := .unknownType name, pos }

def narrow (c : Collector) (current : TypeSet) (condition : NamedType) (pos : Option Position) :
    Except AnalysisError TypeSet :=
  match c.possibleTypes condition pos with
  | .ok admitted => .ok (current.restrict admitted)
  | .error e => .error e

/-- Narrows a set by the name of a condition, which becomes the type selected on. -/
def enterCondition (c : Collector) (current : TypeSet) (name : String) (pos : Position) :
    Except AnalysisError (TypeSet × NamedType) :=
  match c.conditionType name (some pos) with
  | .error e => .error e
  | .ok t =>
    match c.narrow current t (some pos) with
    | .error e => .error e
    | .ok narrowed => .ok (narrowed, t)

/-- Adds a node for every object type in turn. A field that a type lacks is an error unless its name
is reserved; then the node is dropped for the remaining types too. -/
def addField (node : Field) (parent : NamedType) :
    List NamedType → FieldGroups → Except AnalysisError FieldGroups
  | [], g => .ok g
  | t :: rest, g =>
    match t.field? node.name with
    | some f => addField node parent rest (g.add node.key t f node)
    | none =>
      if isMetaName node.name then .ok g
      else .error (.at_ node.pos (.unknownField node.name t.name parent.name))

abbrev Enter := Fragment → TypeSet → NamedType → Collected → Except AnalysisError Collected

mutual

def walkOne (c : Collector) (enter : Enter) :
    Selection → TypeSet → NamedType → Collected → Except AnalysisError Collected
  | .field node, possible, parent, st =>
    if isIncluded node.directives c.variableValues then
      match addField node parent possible.toList st.groups with
      | .ok groups => .ok { st with groups }
      | .error e => .error e
    else .ok st
  | .inline condition ds selections pos, possible, parent, st =>
    if isIncluded ds c.variableValues then
      match condition with
      | none => walk c enter selections possible parent st
      | some name =>
        match c.enterCondition possible name pos with
        | .error e => .error e
        | .ok (narrowed, t) => walk c enter selections narrowed t st
    else .ok st
  | .spread name ds pos, possible, _, st =>
    if isIncluded ds c.variableValues then
      if st.visited.contains name then .ok st
      else
        match c.fragment? name with
        | none => .error (.at_ pos (.unknownFragment name))
        | some f =>
          match c.enterCondition possible f.condition f.pos with
          | .error e => .error e
          | .ok (narrowed, t) => enter f narrowed t { st with visited := name :: st.visited }
    else .ok st

def walk (c : Collector) (enter : Enter) :
    List Selection → TypeSet → NamedType → Collected → Except AnalysisError Collected
  | [], _, _, st => .ok st
  | s :: rest, possible, parent, st =>
    match walkOne c enter s possible parent st with
    | .error e => .error e
    | .ok st => walk c enter rest possible parent st

end

/-- Collects from a selection set, entering fragments to a depth of `fuel`. -/
def collectAt (c : Collector) :
    Nat → List Selection → TypeSet → NamedType → Collected → Except AnalysisError Collected
  | 0 => c.walk fun _ _ _ st => .ok st
  | fuel + 1 => c.walk fun f => collectAt c fuel f.selections

/-- Collects from a selection set. A fragment is entered once at most, so that fragments never nest
deeper than there are fragments. -/
def collectInto (c : Collector) (selections : List Selection) (possible : TypeSet)
    (parent : NamedType) (st : Collected) : Except AnalysisError Collected :=
  c.collectAt c.fragments.length selections possible parent st

/-- Collects from several selection sets into common groups; each set enters fragments anew. -/
def collectGroups (c : Collector) (possible : TypeSet) (parent : NamedType) :
    List (List Selection) → FieldGroups → Except AnalysisError FieldGroups
  | [], g => .ok g
  | selections :: rest, g =>
    match c.collectInto selections possible parent { groups := g } with
    | .error e => .error e
    | .ok st => collectGroups c possible parent rest st.groups

def collectFields (c : Collector) (sets : List (List Selection)) (possible : TypeSet)
    (parent : NamedType) : Except AnalysisError (List MergedField) :=
  match c.collectGroups possible parent sets [] with
  | .ok g => .ok g.toList
  | .error e => .error e

def rootFields (c : Collector) (op : Operation) (root : NamedType) :
    Except AnalysisError (List MergedField) :=
  c.collectFields [op.selections] (some [root]) root

def childFields (c : Collector) (m : MergedField) : Except AnalysisError (List MergedField) :=
  let name := m.definition.type.baseName
  match c.schema.type? name with
  | none => .error { fault := .unknownReturnType name m.label, pos := m.pos? }
  | some t =>
    if t.kind.isLeaf then .ok []
    else
      match c.possibleTypes t m.pos? with
      | .error e => .error e
      | .ok possible => c.collectFields (m.nodes.map (·.selections)) (some possible) t

end Collector

end OperationGraph
