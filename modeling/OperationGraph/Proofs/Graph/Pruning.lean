import OperationGraph.Graph.Export
import OperationGraph.Proofs.Graph.Typing
import OperationGraph.Proofs.Selection.Pruning

/-! # The graph of a pruned document

The walks of a document and of its pruned form take the same steps. So both documents have the same
graph, up to the selections inside its nodes, or the same error, or both walks are endless. What is
shown of a graph does not tell the two apart. -/

namespace OperationGraph

def Vertex.prune (vars : Entries) (v : Vertex) : Vertex := { v with field := v.field.prune vars }

def Graph.prune (vars : Entries) (g : Graph) : Graph where
  vertices := g.vertices.map (Vertex.prune vars)

/-- A waiting field whose nodes are pruned. -/
def Frame.prune (vars : Entries) (f : Frame) : Frame := { f with field := f.field.prune vars }

def Walk.prune (vars : Entries) (w : Walk) : Walk where
  next := w.next
  stack := w.stack.map (Frame.prune vars)
  made := w.made.map (Vertex.prune vars)

def Outcome.prune (vars : Entries) : Outcome → Outcome
  | .finished g => .finished (g.prune vars)
  | .failed e => .failed e
  | .unfinished => .unfinished

/-- What is shown of an outcome: the graph as plain data with the texts of its dependencies, the error,
or nothing at all. -/
def Outcome.shown : Outcome → Option (Except AnalysisError (GraphRecord × List String))
  | .finished g => some (.ok (g.record, g.edgeTexts))
  | .failed e => some (.error e)
  | .unfinished => none

/-! ### The walk -/

namespace Walk

theorem frames_prune (vars : Entries) (parent : Nat) (fields : List MergedField) :
    frames parent (fields.map (MergedField.prune vars)) =
      (frames parent fields).map (Frame.prune vars) := by
  simp [frames, Frame.prune, Function.comp_def]

theorem step_prune (c : Collector) (next : Nat) (top : Frame) (stack : List Frame)
    (made : List Vertex) :
    step c.prune next (top.prune c.variableValues) (stack.map (Frame.prune c.variableValues))
        (made.map (Vertex.prune c.variableValues)) =
      (step c next top stack made).map (Walk.prune c.variableValues) := by
  have hchild := c.childFields_prune top.field
  simp only [step, Frame.prune]
  rw [hchild]
  cases c.childFields top.field with
  | error e => rfl
  | ok fields => simp [Except.map, Walk.prune, frames_prune, Vertex.prune]

theorem run_prune_of_run {c : Collector} {w : Walk} {r : Except AnalysisError Graph}
    (h : run c w = some r) :
    run c.prune (w.prune c.variableValues) = some (r.map (Graph.prune c.variableValues)) := by
  refine run.partial_correctness c (fun w r => run c.prune (w.prune c.variableValues) =
    some (r.map (Graph.prune c.variableValues))) ?_ w r h
  intro run' ih w r h
  obtain ⟨next, stack, made⟩ := w
  rw [run]
  cases stack with
  | nil =>
    obtain rfl : _ = r := Option.some.inj h
    simp [Walk.prune, Except.map, Graph.prune, List.map_reverse]
  | cons top stack =>
    have hstep := step_prune c next top stack made
    simp only [Walk.prune, List.map_cons, hstep]
    cases hs : step c next top stack made with
    | error e =>
      simp only [hs, Option.some.injEq] at h
      rw [← h]
      rfl
    | ok w =>
      simp only [hs] at h
      exact ih w r h

/-- A walk ends if the walk of the pruned fields does. -/
theorem exists_run_of_run_prune {c : Collector} {w : Walk} {r : Except AnalysisError Graph}
    (h : run c.prune (w.prune c.variableValues) = some r) : ∃ r', run c w = some r' := by
  refine run.partial_correctness c.prune
    (fun pruned _ => ∀ w : Walk, w.prune c.variableValues = pruned → ∃ r', run c w = some r')
    ?_ _ r h w rfl
  rintro run' ih _ r h ⟨next, stack, made⟩ rfl
  rw [run]
  cases stack with
  | nil => exact ⟨_, rfl⟩
  | cons top stack =>
    have hstep := step_prune c next top stack made
    simp only [Walk.prune, List.map_cons, hstep] at h
    dsimp only
    cases hs : step c next top stack made with
    | error e => exact ⟨_, rfl⟩
    | ok w =>
      simp only [hs, Except.map] at h
      exact ih _ r h w rfl

/-- A walk of pruned fields ends as the walk of the fields does, or both are endless. -/
theorem run_prune (c : Collector) (w : Walk) :
    run c.prune (w.prune c.variableValues) =
      (run c w).map (Except.map (Graph.prune c.variableValues)) := by
  cases hr : run c w with
  | some r => exact run_prune_of_run hr
  | none =>
    apply Option.eq_none_iff_forall_ne_some.2
    intro r hrun
    obtain ⟨r', hr'⟩ := exists_run_of_run_prune hrun
    rw [hr] at hr'
    cases hr'

theorem start_prune (vars : Entries) (fields : List MergedField) :
    (start fields).prune vars = start (fields.map (MergedField.prune vars)) := by
  simp [start, Walk.prune, frames_prune]

end Walk

/-! ### The analysis -/

theorem Document.operation_prune (vars : Entries) (doc : Document) (name : String) :
    (doc.prune vars).operation name = (doc.operation name).map (Operation.prune vars) := by
  unfold Document.operation
  by_cases hname : name = ""
  · simp only [hname, ne_eq, not_true, if_false]
    match hops : doc.operations with
    | [] => simp [Document.prune, hops, Except.map]
    | [op] => simp [Document.prune, hops, Except.map]
    | first :: second :: rest =>
      simp [Document.prune, hops, Except.map, Operation.prune]
  · have hfind : (doc.prune vars).operations.find? (·.name = name) =
        (doc.operations.find? (·.name = name)).map (Operation.prune vars) := by
      simp only [Document.prune, List.find?_map]
      rfl
    simp only [ne_eq, hname, not_false_eq_true, if_true, hfind]
    cases doc.operations.find? (·.name = name) <;> rfl

theorem Outcome.ofResult_prune (vars : Entries) (r : Option (Except AnalysisError Graph)) :
    Outcome.ofResult (r.map (Except.map (Graph.prune vars))) = (Outcome.ofResult r).prune vars := by
  rcases r with - | (e | g) <;> rfl

/-- How a walk is prepared once the variables have their values. -/
theorem prepare_of_coerceVariables {s : Schema} {doc : Document} {operationName : String}
    {given vars : Entries} {op : Operation} (hop : doc.operation operationName = .ok op)
    (hvars : op.coerceVariables s given = .ok vars) :
    prepare s doc operationName given = do
      let root ← op.root s
      let fields ← Collector.rootFields ⟨s, doc.fragments, vars⟩ op root
      return (⟨s, doc.fragments, vars⟩, fields) := by
  unfold prepare
  rw [hop]
  change (op.coerceVariables s given >>= _) = _
  rw [hvars]
  rfl

/-- The graph of a pruned document is the pruned graph of the document. -/
theorem analyze_prune {s : Schema} {doc : Document} {operationName : String}
    {given vars : Entries} {op : Operation} (hop : doc.operation operationName = .ok op)
    (hvars : op.coerceVariables s given = .ok vars) :
    analyze s (doc.prune vars) operationName given =
      (analyze s doc operationName given).prune vars := by
  have hop' : (doc.prune vars).operation operationName = .ok (op.prune vars) := by
    rw [Document.operation_prune, hop]
    rfl
  have hvars' : (op.prune vars).coerceVariables s given = .ok vars := hvars
  have hroot : (op.prune vars).root s = op.root s := rfl
  unfold analyze
  rw [prepare_of_coerceVariables hop hvars, prepare_of_coerceVariables hop' hvars', hroot]
  cases op.root s with
  | error e => rfl
  | ok root =>
    have hfields := Collector.rootFields_prune ⟨s, doc.fragments, vars⟩ op root
    change Collector.rootFields ⟨s, (doc.prune vars).fragments, vars⟩ (op.prune vars) root = _
      at hfields
    cases hr : Collector.rootFields ⟨s, doc.fragments, vars⟩ op root with
    | error e => simp [hfields, hr, bind, Except.bind, Except.map, Outcome.prune]
    | ok fields =>
      have hrun := Walk.run_prune ⟨s, doc.fragments, vars⟩ (Walk.start fields)
      rw [Walk.start_prune] at hrun
      simp only [hfields, hr, bind, Except.bind, Except.map, pure, Except.pure,
        ← Outcome.ofResult_prune]
      exact congrArg Outcome.ofResult hrun

/-! ### What is shown -/

namespace Graph
variable (vars : Entries) (g : Graph)

theorem children_prune (id : Nat) :
    (g.prune vars).children id = (g.children id).map (Vertex.prune vars) := by
  simp only [children, prune, List.filter_map]
  rfl

theorem visitFrom_prune (fuel : Nat) (stack : List Vertex) :
    (g.prune vars).visitFrom fuel (stack.map (Vertex.prune vars)) =
      (g.visitFrom fuel stack).map (Vertex.prune vars) := by
  induction fuel generalizing stack with
  | zero => rfl
  | succ fuel ih =>
    cases stack with
    | nil => rfl
    | cons v stack =>
      have hid : (v.prune vars).id = v.id := rfl
      simp only [List.map_cons, visitFrom, hid, children_prune, ← List.map_append, ih]

theorem traverse_prune : (g.prune vars).traverse = g.traverse.map (Vertex.prune vars) := by
  have hlength : (g.prune vars).vertices.length = g.vertices.length := List.length_map _
  simp only [traverse, children_prune, visitFrom_prune, hlength]

theorem labelOf_prune (id : Nat) : (g.prune vars).labelOf id = g.labelOf id := by
  have hfind : (g.prune vars).vertices.find? (·.id = id) =
      (g.vertices.find? (·.id = id)).map (Vertex.prune vars) := by
    simp only [prune, List.find?_map]
    rfl
  simp only [labelOf, hfind]
  cases g.vertices.find? (·.id = id) <;> rfl

theorem record_prune : (g.prune vars).record = g.record := by
  have hvertex : ∀ v : Vertex, (v.prune vars).record = v.record := by
    intro v
    simp [Vertex.record, Vertex.prune, MergedField.prune]
  simp only [record, traverse_prune, List.map_map, Function.comp_def, hvertex]
  rfl

theorem edgeTexts_prune : (g.prune vars).edgeTexts = g.edgeTexts := by
  have hedge : ∀ v : Vertex, (g.prune vars).edgeText (v.prune vars) = g.edgeText v := by
    intro v
    simp only [edgeText, labelOf_prune]
    rfl
  simp only [edgeTexts, traverse_prune, List.map_map, Function.comp_def, hedge]

end Graph

theorem Outcome.shown_prune (vars : Entries) (o : Outcome) : (o.prune vars).shown = o.shown := by
  cases o with
  | finished g => simp [Outcome.prune, shown, Graph.record_prune, Graph.edgeTexts_prune]
  | failed e => rfl
  | unfinished => rfl

/-- Leaving out what directives exclude, and the directives with it, changes nothing of what is shown
of an analysis: not the numbers, labels, dependencies and places of its vertices, and not its error. -/
theorem shown_analyze_prune (s : Schema) (doc : Document) (operationName : String)
    (given vars : Entries) (op : Operation) (hop : doc.operation operationName = .ok op)
    (hvars : op.coerceVariables s given = .ok vars) :
    (analyze s (doc.prune vars) operationName given).shown =
      (analyze s doc operationName given).shown := by
  rw [analyze_prune hop hvars, Outcome.shown_prune]

namespace Pets

/-- A directive with the condition `$brief`. -/
def onBrief (name : String) (column : Nat) : Directive where
  name
  arguments := [{ name := "if", value := .variable "brief", pos := ⟨"", 1, column + 5⟩ }]
  pos := ⟨"", 1, column⟩

/-- The operation `query ($brief: Boolean!) { pet { ... on Cat @skip(if: $brief) { paw } ...Names
tag: name @include(if: $brief) } }`, where `paw` is no field. -/
def briefly : Operation where
  type := .query
  variableDefinitions :=
    [{ name := "brief", type := .named "Boolean" true ⟨"", 1, 16⟩, pos := ⟨"", 1, 8⟩ }]
  selections := [.field {
    key := "pet"
    name := "pet"
    selections :=
      [.inline (some "Cat") [onBrief "skip" 47]
        [.field { key := "paw", name := "paw", pos := ⟨"", 1, 65⟩ }] ⟨"", 1, 39⟩,
       .spread "Names" [] ⟨"", 1, 74⟩,
       .field {
        key := "tag"
        name := "name"
        directives := [onBrief "include" 90]
        pos := ⟨"", 1, 80⟩ }]
    pos := ⟨"", 1, 27⟩ }]
  pos := ⟨"", 1, 1⟩

def brief : Document where
  operations := [briefly]
  fragments := [names]

end Pets

/-- An unknown field that is excluded is no fault, and it is gone from the pruned document. -/
theorem shown_analyze_prune_pets :
    Pets.brief.operation "" = .ok Pets.briefly ∧
      Pets.briefly.coerceVariables Pets.household [("brief", .boolean true)] =
        .ok [("brief", .boolean true)] ∧
      (∃ g, analyze Pets.household Pets.brief "" [("brief", .boolean true)] = .finished g ∧
        g.vertices.map (·.label) =
          ["Query.pet: Animal", "Cat.name: String", "Dog.name: String", "Cat.tag: String",
            "Dog.tag: String"]) ∧
      (analyze Pets.household (Pets.brief.prune [("brief", .boolean true)]) ""
          [("brief", .boolean true)]).shown =
        (analyze Pets.household Pets.brief "" [("brief", .boolean true)]).shown := by
  refine ⟨rfl, rfl, ⟨_, analyze_of_built rfl
    (.tree rfl (.tree rfl .empty (.tree rfl .empty (.tree rfl .empty (.tree rfl .empty .empty))))
      .empty), rfl⟩, ?_⟩
  exact shown_analyze_prune Pets.household Pets.brief "" [("brief", .boolean true)]
    [("brief", .boolean true)] Pets.briefly rfl rfl

end OperationGraph
