import OperationGraph.Selection.Collect

/-! # Selections without directives

For given values of the variables a document can be pruned: a selection that does not count is left out
and all others lose their directives. Collecting from a pruned document goes through the same places and
ends with the same merged fields, whose nodes are pruned, or with the same error. -/

namespace OperationGraph

mutual

/-- A selection without directives, with what counts of the selections inside. -/
def Selection.prune (vars : Entries) : Selection → Selection
  | .field ⟨key, name, arguments, _, selections, pos⟩ =>
    .field ⟨key, name, arguments, [], Selection.pruneAll vars selections, pos⟩
  | .inline condition _ selections pos =>
    .inline condition [] (Selection.pruneAll vars selections) pos
  | .spread name _ pos => .spread name [] pos

def Selection.pruneAll (vars : Entries) : List Selection → List Selection
  | [] => []
  | s :: rest =>
    if isIncluded s.directives vars then s.prune vars :: Selection.pruneAll vars rest
    else Selection.pruneAll vars rest

end

/-- A field node without directives, with what counts of the selections inside. -/
def FieldNode.prune (vars : Entries) (n : Field) : Field :=
  { n with directives := [], selections := Selection.pruneAll vars n.selections }

def Fragment.prune (vars : Entries) (f : Fragment) : Fragment :=
  { f with selections := Selection.pruneAll vars f.selections }

def Operation.prune (vars : Entries) (op : Operation) : Operation :=
  { op with selections := Selection.pruneAll vars op.selections }

def Document.prune (vars : Entries) (doc : Document) : Document where
  operations := doc.operations.map (Operation.prune vars)
  fragments := doc.fragments.map (Fragment.prune vars)

def MergedField.prune (vars : Entries) (m : MergedField) : MergedField :=
  { m with nodes := m.nodes.map (FieldNode.prune vars) }

def FieldGroups.prune (vars : Entries) (g : FieldGroups) : FieldGroups :=
  g.map fun group => (group.1, group.2.map (MergedField.prune vars))

def Collected.prune (vars : Entries) (st : Collected) : Collected :=
  { st with groups := FieldGroups.prune vars st.groups }

/-- A collector that sees the fragments of a pruned document. -/
def Collector.prune (c : Collector) : Collector :=
  { c with fragments := c.fragments.map (Fragment.prune c.variableValues) }

@[simp] theorem isIncluded_nil (vars : Entries) : isIncluded [] vars = true := rfl

namespace FieldNode
variable (vars : Entries) (n : Field)

@[simp] theorem key_prune : (n.prune vars).key = n.key := rfl

@[simp] theorem name_prune : (n.prune vars).name = n.name := rfl

@[simp] theorem pos_prune : (n.prune vars).pos = n.pos := rfl

@[simp] theorem directives_prune : (n.prune vars).directives = [] := rfl

@[simp] theorem selections_prune :
    (n.prune vars).selections = Selection.pruneAll vars n.selections := rfl

end FieldNode

theorem Selection.prune_field (vars : Entries) (n : Field) :
    (Selection.field n).prune vars = .field (n.prune vars) := rfl

theorem Selection.pruneAll_cons_of_included {vars : Entries} {s : Selection}
    (h : isIncluded s.directives vars = true) (rest : List Selection) :
    Selection.pruneAll vars (s :: rest) = s.prune vars :: Selection.pruneAll vars rest := by
  simp [pruneAll, h]

theorem Selection.pruneAll_cons_of_excluded {vars : Entries} {s : Selection}
    (h : isIncluded s.directives vars = false) (rest : List Selection) :
    Selection.pruneAll vars (s :: rest) = Selection.pruneAll vars rest := by
  simp [pruneAll, h]

/-! ### Groups of merged fields -/

namespace FieldGroups

theorem addTyped_prune (vars : Entries) (key : String) (t : NamedType) (f : OutputField)
    (n : Field) (ms : List MergedField) :
    addTyped key t f (n.prune vars) (ms.map (MergedField.prune vars)) =
      (addTyped key t f n ms).map (MergedField.prune vars) := by
  induction ms with
  | nil => rfl
  | cons m rest ih =>
    by_cases h : m.objectType.name = t.name
    · simp [addTyped, MergedField.prune, h]
    · simp [addTyped, MergedField.prune, h, ← ih]

theorem add_prune (vars : Entries) (key : String) (t : NamedType) (f : OutputField) (n : Field)
    (g : FieldGroups) :
    (prune vars g).add key t f (n.prune vars) = prune vars (g.add key t f n) := by
  induction g with
  | nil => rfl
  | cons group rest ih =>
    obtain ⟨k, ms⟩ := group
    by_cases h : k = key
    · simp [prune, add, h, addTyped_prune]
    · simp only [prune] at ih
      simp [prune, add, h, ih]

theorem toList_prune (vars : Entries) (g : FieldGroups) :
    toList (prune vars g) = (toList g).map (MergedField.prune vars) := by
  simp [toList, prune, List.flatMap_map, List.map_flatMap]

end FieldGroups

/-! ### The walk over selections -/

namespace Collector

theorem fragment?_prune (c : Collector) (name : String) :
    c.prune.fragment? name = (c.fragment? name).map (Fragment.prune c.variableValues) := by
  simp only [fragment?, prune, List.find?_map]
  rfl

theorem addField_prune (vars : Entries) (n : Field) (parent : NamedType) (ts : List NamedType)
    (g : FieldGroups) :
    addField (n.prune vars) parent ts (FieldGroups.prune vars g) =
      (addField n parent ts g).map (FieldGroups.prune vars) := by
  induction ts generalizing g with
  | nil => rfl
  | cons t rest ih =>
    simp only [addField, FieldNode.name_prune, FieldNode.key_prune, FieldNode.pos_prune]
    cases t.field? n.name with
    | some f => simp only [FieldGroups.add_prune, ih]
    | none => by_cases hmeta : isMetaName n.name <;> simp [hmeta, Except.map]

/-- Two ways to enter fragments that agree on what they collect, up to pruning. -/
def EntersAlike (vars : Entries) (enter entered : Enter) : Prop :=
  ∀ f possible parent st, entered (f.prune vars) possible parent (st.prune vars) =
    (enter f possible parent st).map (Collected.prune vars)

section
variable {c : Collector} {enter entered : Enter}

mutual

/-- A selection that counts is walked as its pruned form is. -/
theorem walkOne_prune (h : EntersAlike c.variableValues enter entered) (s : Selection)
    (hs : isIncluded s.directives c.variableValues = true) (possible : TypeSet)
    (parent : NamedType) (st : Collected) :
    c.prune.walkOne entered (s.prune c.variableValues) possible parent
        (st.prune c.variableValues) =
      (c.walkOne enter s possible parent st).map (Collected.prune c.variableValues) := by
  cases s with
  | field n =>
    have hn : isIncluded n.directives c.variableValues = true := hs
    have hadd := addField_prune c.variableValues n parent possible.toList st.groups
    simp only [Selection.prune_field, walkOne, hn, if_true, FieldNode.directives_prune,
      isIncluded_nil, Collected.prune, hadd]
    cases addField n parent possible.toList st.groups <;> rfl
  | inline condition ds selections pos =>
    have hds : isIncluded ds c.variableValues = true := hs
    simp only [Selection.prune, walkOne, hds, isIncluded_nil, if_true]
    cases condition with
    | none => exact walk_prune h selections possible parent st
    | some name =>
      have hcond : c.prune.enterCondition possible name pos =
        c.enterCondition possible name pos := rfl
      simp only [hcond]
      cases c.enterCondition possible name pos with
      | error e => rfl
      | ok narrowed => exact walk_prune h selections narrowed.1 narrowed.2 st
  | spread name ds pos =>
    have hds : isIncluded ds c.variableValues = true := hs
    simp only [Selection.prune, walkOne, hds, isIncluded_nil, if_true, fragment?_prune]
    by_cases hv : name ∈ st.visited
    · simp [Collected.prune, hv, Except.map]
    · have hv' : st.visited.contains name = false := by simpa using hv
      simp only [Collected.prune, hv']
      cases c.fragment? name with
      | none => rfl
      | some f =>
        have hcond : c.prune.enterCondition possible (f.prune c.variableValues).condition
            (f.prune c.variableValues).pos = c.enterCondition possible f.condition f.pos := rfl
        simp only [Option.map_some, hcond]
        cases c.enterCondition possible f.condition f.pos with
        | error e => rfl
        | ok narrowed => exact h f narrowed.1 narrowed.2 { st with visited := name :: st.visited }

/-- A selection set is walked as its pruned form is. -/
theorem walk_prune (h : EntersAlike c.variableValues enter entered) (selections : List Selection)
    (possible : TypeSet) (parent : NamedType) (st : Collected) :
    c.prune.walk entered (Selection.pruneAll c.variableValues selections) possible parent
        (st.prune c.variableValues) =
      (c.walk enter selections possible parent st).map (Collected.prune c.variableValues) := by
  cases selections with
  | nil => rfl
  | cons s rest =>
    cases hs : isIncluded s.directives c.variableValues with
    | false =>
      have hskip : c.walkOne enter s possible parent st = .ok st := by
        cases s <;> simp_all [walkOne, Selection.directives]
      rw [Selection.pruneAll_cons_of_excluded hs, walk, hskip]
      exact walk_prune h rest possible parent st
    | true =>
      rw [Selection.pruneAll_cons_of_included hs, walk, walk, walkOne_prune h s hs]
      cases c.walkOne enter s possible parent st with
      | error e => rfl
      | ok st => exact walk_prune h rest possible parent st

end

end

/-! ### Collecting -/

theorem collectAt_prune (c : Collector) (fuel : Nat) (selections : List Selection)
    (possible : TypeSet) (parent : NamedType) (st : Collected) :
    c.prune.collectAt fuel (Selection.pruneAll c.variableValues selections) possible parent
        (st.prune c.variableValues) =
      (c.collectAt fuel selections possible parent st).map
        (Collected.prune c.variableValues) := by
  induction fuel generalizing selections possible parent st with
  | zero => exact walk_prune (fun _ _ _ _ => rfl) selections possible parent st
  | succ fuel ih =>
    exact walk_prune (fun f possible parent st => ih f.selections possible parent st)
      selections possible parent st

theorem collectGroups_prune (c : Collector) (possible : TypeSet) (parent : NamedType)
    (sets : List (List Selection)) (g : FieldGroups) :
    c.prune.collectGroups possible parent (sets.map (Selection.pruneAll c.variableValues))
        (FieldGroups.prune c.variableValues g) =
      (c.collectGroups possible parent sets g).map (FieldGroups.prune c.variableValues) := by
  induction sets generalizing g with
  | nil => rfl
  | cons selections rest ih =>
    have hfuel : c.prune.fragments.length = c.fragments.length := List.length_map _
    have hcollect := collectAt_prune c c.fragments.length selections possible parent
      { groups := g }
    simp only [List.map_cons, collectGroups, collectInto, hfuel]
    simp only [Collected.prune] at hcollect
    rw [hcollect]
    cases c.collectAt c.fragments.length selections possible parent { groups := g } with
    | error e => rfl
    | ok st => exact ih st.groups

theorem collectFields_prune (c : Collector) (sets : List (List Selection)) (possible : TypeSet)
    (parent : NamedType) :
    c.prune.collectFields (sets.map (Selection.pruneAll c.variableValues)) possible parent =
      (c.collectFields sets possible parent).map
        (List.map (MergedField.prune c.variableValues)) := by
  have hgroups := collectGroups_prune c possible parent sets []
  simp only [collectFields]
  simp only [FieldGroups.prune, List.map_nil] at hgroups
  rw [hgroups]
  cases c.collectGroups possible parent sets [] with
  | error e => rfl
  | ok g => simp only [Except.map, ← FieldGroups.toList_prune, FieldGroups.prune]

theorem rootFields_prune (c : Collector) (op : Operation) (root : NamedType) :
    c.prune.rootFields (op.prune c.variableValues) root =
      (c.rootFields op root).map (List.map (MergedField.prune c.variableValues)) :=
  collectFields_prune c [op.selections] (some [root]) root

theorem childFields_prune (c : Collector) (m : MergedField) :
    c.prune.childFields (m.prune c.variableValues) =
      (c.childFields m).map (List.map (MergedField.prune c.variableValues)) := by
  have hpos : (m.prune c.variableValues).pos? = m.pos? := by
    cases hm : m.nodes <;> simp [MergedField.pos?, MergedField.prune, hm]
  have hsets : (m.prune c.variableValues).nodes.map (·.selections) =
      (m.nodes.map (·.selections)).map (Selection.pruneAll c.variableValues) := by
    simp [MergedField.prune, Function.comp_def]
  have hlabel : (m.prune c.variableValues).label = m.label := rfl
  have hdef : (m.prune c.variableValues).definition = m.definition := rfl
  have hschema : c.prune.schema = c.schema := rfl
  have hpossible : ∀ t, c.prune.possibleTypes t m.pos? = c.possibleTypes t m.pos? := fun _ => rfl
  simp only [childFields, hpos, hsets, hlabel, hdef, hschema, hpossible, collectFields_prune]
  cases c.schema.type? m.definition.type.baseName with
  | none => rfl
  | some t =>
    cases hleaf : t.kind.isLeaf with
    | true => simp [hleaf, Except.map]
    | false =>
      simp only [hleaf, Bool.false_eq_true, if_false]
      cases c.possibleTypes t m.pos? <;> rfl

end Collector

end OperationGraph
