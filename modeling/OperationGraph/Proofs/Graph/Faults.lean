import OperationGraph.Proofs.Graph.Pruning
import OperationGraph.Proofs.Schema.Reordering
import OperationGraph.Proofs.Selection.Depth
import OperationGraph.Proofs.Selection.Faults

/-! # Why an operation has no graph

Over the schema of a well-formed type system every merged field that a walk comes to returns a type that
is there, with possible types that are there. Once the operation, its variables and its root are known,
the analysis therefore fails only with what is wrong with a selection of the document
(`analyze_fails_at_selection`). -/

namespace OperationGraph

/-! ### Merged fields stand in the document -/

/-- A merged field of a type of a schema, whose nodes stand in a document. -/
structure MergedField.StandsIn (s : Schema) (doc : Document) (m : MergedField) : Prop where
  type_mem : m.objectType ∈ s.types
  definition_mem : m.definition ∈ m.objectType.fields
  nodes_mem : ∀ n ∈ m.nodes, .field n ∈ doc.selections

theorem Selects.mem_selections {doc : Document} {selections : List Selection} {n : Field}
    (h : Selects doc.fragments selections n) (hsub : selections ⊆ doc.selections) :
    .field n ∈ doc.selections := by
  induction h with
  | field hmem => exact hsub hmem
  | inline hmem _ ih => exact ih (Document.inner_subset_selections (hsub hmem))
  | spread hmem hf _ ih =>
    exact ih (Document.fragment_subset_selections (List.mem_of_find?_eq_some hf))

theorem MergedField.CollectedFrom.standsIn {s : Schema} {doc : Document}
    {sets : List (List Selection)} {ts : List NamedType} {m : MergedField}
    (h : m.CollectedFrom doc.fragments sets ts)
    (hsets : ∀ selections ∈ sets, selections ⊆ doc.selections) (hts : ts ⊆ s.types) :
    m.StandsIn s doc := by
  constructor
  case type_mem => exact hts h.type_mem
  case definition_mem =>
    obtain ⟨n, -, hf⟩ := h.first
    exact List.mem_of_find?_eq_some hf
  case nodes_mem =>
    intro n hn
    obtain ⟨selections, hmem, hselects⟩ := h.selected n hn
    exact hselects.mem_selections (hsets selections hmem)

theorem MergedField.StandsIn.subset_selections {s : Schema} {doc : Document} {m : MergedField}
    (h : m.StandsIn s doc) :
    ∀ selections ∈ m.nodes.map (·.selections), selections ⊆ doc.selections :=
  List.forall_mem_map.2 fun n hn => Document.inner_subset_selections (h.nodes_mem n hn)

namespace Collector
variable {c : Collector} {doc : Document} {m : MergedField}

theorem childFields_standIn (hdoc : c.fragments = doc.fragments) (hm : m.StandsIn c.schema doc)
    {ms : List MergedField} (h : c.childFields m = .ok ms) : ∀ m' ∈ ms, m'.StandsIn c.schema doc := by
  intro m' hm'
  obtain ⟨t, ts, ht, hts, hfrom⟩ := childFields_collectedFrom h hm'
  rw [hdoc] at hfrom
  refine hfrom.standsIn hm.subset_selections fun u hu => ?_
  exact Schema.mem_types_of_mem_possibleTypes (Schema.mem_types_of_type? ht) hts hu

/-- In a closed schema, what is below a merged field of the schema fails only with what is wrong with a
selection. -/
theorem childFields_fault (hs : c.schema.Closed) (hdoc : c.fragments = doc.fragments)
    (hm : m.StandsIn c.schema doc) {e : AnalysisError} (h : c.childFields m = .error e) :
    SelectionFault c.schema doc e := by
  obtain ⟨t, ht, hout⟩ := hs.returned _ hm.type_mem _ hm.definition_mem
  have hmem := Schema.mem_types_of_type? ht
  simp only [childFields, ht] at h
  cases hleaf : t.kind.isLeaf with
  | true => simp [hleaf] at h
  | false =>
    have hk : t.kind.isComposite := by
      cases hkind : t.kind <;> simp_all [Kind.isLeaf, Kind.isOutput, Kind.isComposite]
    obtain ⟨ts, hts⟩ := hs.exists_possibleTypes hmem hk
    simp only [hleaf, Bool.false_eq_true, if_false, possibleTypes, hk, if_true, hts] at h
    exact collectFields_fault hs hdoc hm.subset_selections
      (fun u hu => Schema.mem_types_of_mem_possibleTypes hmem hts hu) h

end Collector

/-! ### Walks -/

/-- A walk fails with what a field that it comes to fails with. -/
theorem Walk.error_of_run {c : Collector} {P : MergedField → Prop} {Q : AnalysisError → Prop}
    (hkeep : ∀ m ms, P m → c.childFields m = .ok ms → ∀ m' ∈ ms, P m')
    (hfails : ∀ m e, P m → c.childFields m = .error e → Q e) {w : Walk}
    (hw : ∀ top ∈ w.stack, P top.field) {e : AnalysisError} (h : run c w = some (.error e)) : Q e := by
  refine run.partial_correctness c
    (fun w r => (∀ top ∈ w.stack, P top.field) → ∀ e, r = .error e → Q e) ?_ w _ h hw e rfl
  rintro run' ih ⟨next, stack, made⟩ r h hw e rfl
  cases stack with
  | nil => cases h
  | cons top stack =>
    obtain ⟨htop, hstack⟩ := List.forall_mem_cons.1 hw
    dsimp only [step] at h
    cases hf : c.childFields top.field with
    | error e' =>
      rw [hf] at h
      cases h
      exact hfails _ _ htop hf
    | ok fields =>
      rw [hf] at h
      refine ih _ _ h (List.forall_mem_append.2 ⟨List.forall_mem_map.2 ?_, hstack⟩) e rfl
      exact hkeep _ fields htop hf

/-! ### Analyses -/

theorem Operation.mem_types_of_root {s : Schema} {op : Operation} {root : NamedType}
    (h : op.root s = .ok root) : root ∈ s.types := by
  unfold Operation.root at h
  cases hroot : s.root? op.type with
  | none => simp [hroot] at h
  | some t =>
    simp only [hroot, Except.ok.injEq] at h
    exact h ▸ List.mem_of_find?_eq_some hroot

theorem Outcome.eq_error_of_ofResult {r : Option (Except AnalysisError Graph)} {e : AnalysisError}
    (h : Outcome.ofResult r = .failed e) : r = some (.error e) := by
  rcases r with - | (e' | g) <;> cases h
  rfl

/-- How an analysis goes on once the operation, its variables and its root are known. -/
theorem analyze_of_root {s : Schema} {doc : Document} {operationName : String} {given vars : Entries}
    {op : Operation} {root : NamedType} (hop : doc.operation operationName = .ok op)
    (hvars : op.coerceVariables s given = .ok vars) (hroot : op.root s = .ok root) :
    analyze s doc operationName given =
      match Collector.rootFields ⟨s, doc.fragments, vars⟩ op root with
      | .error e => .failed e
      | .ok fields => .ofResult ((Walk.start fields).run ⟨s, doc.fragments, vars⟩) := by
  unfold analyze
  rw [prepare_of_coerceVariables hop hvars, hroot]
  cases hfields : Collector.rootFields ⟨s, doc.fragments, vars⟩ op root <;>
    simp [bind, Except.bind, pure, Except.pure, hfields]

/-- Over a closed schema an analysis fails only with what is wrong with a selection, once its operation,
its variables and its root are known. -/
theorem fault_of_analyze {s : Schema} (hs : s.Closed) {doc : Document} {operationName : String}
    {given vars : Entries} {op : Operation} {root : NamedType} {e : AnalysisError}
    (hop : doc.operation operationName = .ok op) (hvars : op.coerceVariables s given = .ok vars)
    (hroot : op.root s = .ok root) (h : analyze s doc operationName given = .failed e) :
    SelectionFault s doc e := by
  have hsets : ∀ selections ∈ [op.selections], selections ⊆ doc.selections := by
    rw [List.forall_mem_singleton]
    exact Document.operation_subset_selections (Document.mem_operations_of_operation hop)
  have hts : [root] ⊆ s.types := by simpa using Operation.mem_types_of_root hroot
  rw [analyze_of_root hop hvars hroot] at h
  cases hfields : Collector.rootFields ⟨s, doc.fragments, vars⟩ op root with
  | error e' =>
    rw [hfields] at h
    cases h
    exact Collector.collectFields_fault hs rfl hsets hts hfields
  | ok fields =>
    rw [hfields] at h
    refine Walk.error_of_run (P := MergedField.StandsIn s doc)
      (fun m ms hm => Collector.childFields_standIn rfl hm)
      (fun m e hm => Collector.childFields_fault hs rfl hm) ?_ (Outcome.eq_error_of_ofResult h)
    refine List.forall_mem_map.2 fun m hm => ?_
    exact (Collector.collectFields_collectedFrom hfields m hm).standsIn hsets hts

/-- Over the schema of a well-formed type system an analysis whose operation, variables and root are known
fails only at a field that a type lacks, at a fragment that is not there, or at a condition whose type is
not there or cannot be selected on. A field never returns a type that is not there, and the possible types
of a type are always known; only objects count as implementations, whatever they say to implement. -/
theorem analyze_fails_at_selection (ts : TypeSystem) (hts : ts.WellFormed) (doc : Document)
    (operationName : String) (given vars : Entries) (op : Operation) (root : NamedType)
    (hop : doc.operation operationName = .ok op)
    (hvars : op.coerceVariables (.ofTypeSystem ts) given = .ok vars)
    (hroot : op.root (.ofTypeSystem ts) = .ok root) (e : AnalysisError)
    (h : analyze (.ofTypeSystem ts) doc operationName given = .failed e) :
    SelectionFault (.ofTypeSystem ts) doc e ∧
      (∀ name field, e.fault ≠ .unknownReturnType name field) ∧
      ∀ fault, e.fault ≠ .possibleTypes fault := by
  have hfault := fault_of_analyze (Schema.closed_ofTypeSystem hts) hop hvars hroot h
  refine ⟨hfault, ?_, ?_⟩
  · intro name field
    cases hfault <;> simp [AnalysisError.at_]
  · intro fault
    cases hfault <;> simp [AnalysisError.at_]

namespace Pets

def petQuery : Definition where
  kind := .object
  name := "Query"
  fields := [{ name := "pet", type := .named "Animal" false default, pos := default }]
  pos := default

def rooted : TypeSystem where
  types := [petQuery, objectOf "Dog" ["Animal"], interfaceOf "Animal", objectOf "Cat" ["Animal"],
    unionOf "Either" ["Dog", "Cat"], { kind := .scalar, name := "String", pos := default }]
  query := some "Query"

/-- The operation `{ pet { ... on Either { age } } }`. -/
def petAges : Operation where
  type := .query
  selections := [.field {
    key := "pet", name := "pet", pos := ⟨"", 1, 3⟩
    selections := [.inline (some "Either") []
      [.field { key := "age", name := "age", pos := ⟨"", 1, 25⟩ }] ⟨"", 1, 9⟩] }]
  pos := ⟨"", 1, 1⟩

def agesOnly : Document := { operations := [petAges] }

theorem wellFormed_rooted : rooted.WellFormed where
  distinct := by decide
  named := by decide
  returned := by
    have hall : ∀ d ∈ rooted.types, ∀ f ∈ d.fields,
        (rooted.type? f.type.baseName).any (·.kind.isOutput) := by decide
    exact fun d hd _ f hf => (Option.any_eq_true _ _).1 (hall d hd f hf)
  members := by
    have hall : ∀ d ∈ rooted.types, ∀ name ∈ d.members,
        (rooted.type? name).any (·.kind = .object) := by decide
    intro d hd _ name hname
    simpa using (Option.any_eq_true _ _).1 (hall d hd name hname)

def agesCollector : Collector where
  schema := .ofTypeSystem rooted

def queryType : NamedType := .ofDefinition [] petQuery

def pet : MergedField where
  key := "pet"
  nodes := Selection.nodesOf petAges.selections
  objectType := queryType
  definition := { name := "pet", type := .named "Animal" }

theorem rootFields_petAges : agesCollector.rootFields petAges queryType = .ok [pet] := by
  with_unfolding_all rfl

/-- A cat has no age, which is asked for as one of either. -/
theorem childFields_pet : agesCollector.childFields pet =
    .error (.at_ ⟨"", 1, 25⟩ (.unknownField "age" "Cat" "Either")) := by
  with_unfolding_all rfl

theorem analyze_agesOnly : analyze (.ofTypeSystem rooted) agesOnly "" [] =
    .failed (.at_ ⟨"", 1, 25⟩ (.unknownField "age" "Cat" "Either")) := by
  have hop : agesOnly.operation "" = .ok petAges := rfl
  have hvars : petAges.coerceVariables (.ofTypeSystem rooted) [] = .ok [] := rfl
  have hroot : petAges.root (.ofTypeSystem rooted) = .ok queryType := rfl
  have hfields : Collector.rootFields ⟨.ofTypeSystem rooted, agesOnly.fragments, []⟩ petAges queryType =
      .ok [pet] := rootFields_petAges
  have hrun : (Walk.start [pet]).run agesCollector = some (.error _) :=
    Walk.run_cons_error childFields_pet
  rw [analyze_of_root hop hvars hroot, hfields]
  exact congrArg Outcome.ofResult hrun

end Pets

/-- The walk comes to a pet, and fails below it. -/
theorem analyze_fails_at_selection_agesOnly :
    Pets.rooted.WellFormed ∧
      analyze (.ofTypeSystem Pets.rooted) Pets.agesOnly "" [] =
        .failed (.at_ ⟨"", 1, 25⟩ (.unknownField "age" "Cat" "Either")) ∧
      SelectionFault (.ofTypeSystem Pets.rooted) Pets.agesOnly
        (.at_ ⟨"", 1, 25⟩ (.unknownField "age" "Cat" "Either")) :=
  ⟨Pets.wellFormed_rooted, Pets.analyze_agesOnly,
    (analyze_fails_at_selection Pets.rooted Pets.wellFormed_rooted Pets.agesOnly "" [] [] Pets.petAges
      Pets.queryType rfl rfl rfl _ Pets.analyze_agesOnly).1⟩

end OperationGraph
