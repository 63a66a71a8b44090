import OperationGraph.Proofs.Document.Choice
import OperationGraph.Proofs.Graph.Pruning
import OperationGraph.Proofs.Selection.Agreement

/-! # What an analysis depends on

Of a document, an analysis sees the operation that is selected and the fragments that can be come to from
its selections. Other operations and other fragments, and later fragments of the same names, make no
difference to the graph, to the error, or to whether the walk ends (`analyze_of_agreement`). -/

namespace OperationGraph

/-! ### Walks side by side -/

namespace Walk
variable {c c' : Collector} {P : MergedField → Prop}

/-- Both collectors find the same below the fields in question, and come to no others there. -/
theorem run_eq_some_of_childFields_eq (hchild : ∀ m, P m → c'.childFields m = c.childFields m)
    (hkeep : ∀ m ms, P m → c.childFields m = .ok ms → ∀ m' ∈ ms, P m') {w : Walk}
    (hw : ∀ top ∈ w.stack, P top.field) {r : Except AnalysisError Graph} (h : run c w = some r) :
    run c' w = some r := by
  refine run.partial_correctness c
    (fun w r => (∀ top ∈ w.stack, P top.field) → run c' w = some r) ?_ w r h hw
  rintro run' ih ⟨next, stack, made⟩ r h hw
  cases stack with
  | nil => rw [run_nil, ← h]
  | cons top stack =>
    obtain ⟨htop, hstack⟩ := List.forall_mem_cons.1 hw
    dsimp only [step] at h
    cases hf : c.childFields top.field with
    | error e =>
      rw [hf] at h
      rw [run_cons_error ((hchild _ htop).trans hf), ← h]
    | ok fields =>
      rw [hf] at h
      rw [run_cons_ok ((hchild _ htop).trans hf)]
      refine ih _ r h (List.forall_mem_append.2 ⟨List.forall_mem_map.2 ?_, hstack⟩)
      exact hkeep _ fields htop hf

/-- Walks that find the same below every field end alike, or both are endless. -/
theorem run_congr (hchild : ∀ m, P m → c'.childFields m = c.childFields m)
    (hkeep : ∀ m ms, P m → c.childFields m = .ok ms → ∀ m' ∈ ms, P m') {w : Walk}
    (hw : ∀ top ∈ w.stack, P top.field) : run c' w = run c w := by
  apply Option.ext
  intro r
  constructor
  · refine run_eq_some_of_childFields_eq (fun m hm => (hchild m hm).symm) ?_ hw
    intro m ms hm hms
    exact hkeep m ms hm ((hchild m hm).symm.trans hms)
  · exact run_eq_some_of_childFields_eq hchild hkeep hw

end Walk

/-! ### Documents side by side -/

namespace Collector
variable {c : Collector} {fragments : List Fragment}

/-- A walk over fields looks up the fragments that can be come to below them, and no others. -/
theorem run_start_of_agreeOn {fields : List MergedField}
    (h : ∀ m ∈ fields, ∀ n ∈ m.nodes, AgreeOn c.fragments fragments n.selections) :
    (Walk.start fields).run { c with fragments } = (Walk.start fields).run c :=
  Walk.run_congr (fun _ hm => childFields_of_agreeOn hm) (fun _ _ hm => agreeOn_of_childFields hm)
    (List.forall_mem_map.2 h)

theorem agreeOn_of_rootFields {op : Operation} {root : NamedType} {fields : List MergedField}
    (h : AgreeOn c.fragments fragments op.selections) (hfields : c.rootFields op root = .ok fields) :
    ∀ m ∈ fields, ∀ n ∈ m.nodes, AgreeOn c.fragments fragments n.selections := by
  intro m hm n hn
  obtain ⟨selections, hmem, hselects⟩ :=
    (collectFields_collectedFrom hfields m hm).selected n hn
  rw [List.mem_singleton.1 hmem] at hselects
  exact h.below hselects

end Collector

section
variable {s : Schema} {doc doc' : Document} {name name' : String} {given : Entries} {op : Operation}

/-- Documents that select one operation and agree on the fragments that it comes to are analyzed alike. -/
theorem analyze_eq_of_agreeOn (hop : doc.operation name = .ok op) (hop' : doc'.operation name' = .ok op)
    (h : AgreeOn doc.fragments doc'.fragments op.selections) :
    analyze s doc' name' given = analyze s doc name given := by
  cases hvars : op.coerceVariables s given with
  | error e => simp [analyze, prepare, hop, hop', hvars, bind, Except.bind]
  | ok vars =>
    unfold analyze
    rw [prepare_of_coerceVariables hop hvars, prepare_of_coerceVariables hop' hvars]
    cases op.root s with
    | error e => rfl
    | ok root =>
      have hroot : Collector.rootFields ⟨s, doc'.fragments, vars⟩ op root =
          Collector.rootFields ⟨s, doc.fragments, vars⟩ op root :=
        Collector.rootFields_of_agreeOn (c := ⟨s, doc.fragments, vars⟩) h root
      cases hfields : Collector.rootFields ⟨s, doc.fragments, vars⟩ op root with
      | error e => simp [hroot, hfields, bind, Except.bind]
      | ok fields =>
        have hrun : (Walk.start fields).run ⟨s, doc'.fragments, vars⟩ =
            (Walk.start fields).run ⟨s, doc.fragments, vars⟩ :=
          Collector.run_start_of_agreeOn (Collector.agreeOn_of_rootFields h hfields)
        simp [hroot, hfields, hrun, bind, Except.bind, pure, Except.pure]

end

/-- The outcome depends on the selected operation and on the first fragment of every name that can be come
to from it. So the only operation of a document is analyzed as it is by its name in any document that has
it first under that name, and the same fragments. -/
theorem analyze_of_agreement (s : Schema) (given : Entries) :
    (∀ (doc doc' : Document) (name name' : String) (op : Operation),
      doc.operation name = .ok op → doc'.operation name' = .ok op →
      (∀ fragment, Mentions doc.fragments op.selections fragment →
        doc'.fragment? fragment = doc.fragment? fragment) →
      analyze s doc' name' given = analyze s doc name given) ∧
    ∀ (doc doc' : Document) (op : Operation), doc.operations = [op] → op.name ≠ "" →
      doc'.operations.find? (·.name = op.name) = some op → doc'.fragments = doc.fragments →
      analyze s doc' op.name given = analyze s doc "" given := by
  constructor
  · intro doc doc' name name' op hop hop' h
    exact analyze_eq_of_agreeOn hop hop' h
  · intro doc doc' op hops hname hfind hfragments
    refine analyze_eq_of_agreeOn (Document.operation_of_single hops)
      (Document.operation_of_find? hname hfind) fun fragment _ => ?_
    rw [hfragments]

namespace Pets

/-- The operation `query Pets { pet { ...Names } }`. -/
def listPets : Operation where
  type := .query
  name := "Pets"
  selections := [.field {
    key := "pet"
    name := "pet"
    selections := [.spread "Names" [] ⟨"", 1, 22⟩]
    pos := ⟨"", 1, 16⟩ }]
  pos := ⟨"", 1, 1⟩

def alone : Document where
  operations := [listPets]
  fragments := [names]

/-- The operation between another one and one of its name, and the fragment likewise. -/
def crowded : Document where
  operations := [{ listPets with name := "Others" }, listPets, { listPets with selections := [] }]
  fragments := [{ names with name := "Unused", condition := "Fish" }, names,
    { names with condition := "Fish" }]

/-- Nothing is spread in the fragment. -/
theorem not_mentions_names {fragment : String} :
    ¬ Mentions [names] names.selections fragment := by
  intro h
  cases h with
  | spread hmem | inline hmem | inside hmem => cases List.mem_singleton.1 hmem
  | field hmem h =>
    cases List.mem_singleton.1 hmem
    cases h with
    | spread hmem | inline hmem | field hmem | inside hmem => cases hmem

theorem mentions_listPets {fragment : String}
    (h : Mentions [names] listPets.selections fragment) : fragment = "Names" := by
  cases h with
  | spread hmem | inline hmem | inside hmem => cases List.mem_singleton.1 hmem
  | field hmem h =>
    cases List.mem_singleton.1 hmem
    cases h with
    | inline hmem | field hmem => cases List.mem_singleton.1 hmem
    | spread hmem =>
      cases List.mem_singleton.1 hmem
      rfl
    | inside hmem hf h =>
      cases List.mem_singleton.1 hmem
      obtain rfl : names = _ := Option.some.inj hf
      exact (not_mentions_names h).elim

end Pets

/-- What else stands in a document does not show, not even a condition on a type that there is not. -/
theorem analyze_of_agreement_pets :
    Pets.alone.operation "" = .ok Pets.listPets ∧
      Pets.crowded.operation "Pets" = .ok Pets.listPets ∧
      (∃ g, analyze Pets.household Pets.alone "" [] = .finished g ∧
        g.vertices.map (·.label) = ["Query.pet: Animal", "Cat.name: String", "Dog.name: String"] ∧
        analyze Pets.household Pets.crowded "Pets" [] = .finished g) ∧
      analyze Pets.household { Pets.crowded with fragments := [Pets.names] } "Pets" [] =
        analyze Pets.household Pets.alone "" [] := by
  obtain ⟨hagree, hnamed⟩ := analyze_of_agreement Pets.household []
  have halone : analyze Pets.household Pets.alone "" [] = .finished _ :=
    analyze_of_built rfl (.tree rfl (.tree rfl .empty (.tree rfl .empty .empty)) .empty)
  have hcrowded := hagree Pets.alone Pets.crowded "" "Pets" Pets.listPets rfl rfl fun fragment h => by
    rw [Pets.mentions_listPets h]
    rfl
  refine ⟨rfl, rfl, ⟨_, halone, rfl, hcrowded.trans halone⟩, ?_⟩
  exact hnamed Pets.alone { Pets.crowded with fragments := [Pets.names] } Pets.listPets rfl (by decide)
    rfl rfl

end OperationGraph
