import OperationGraph.Proofs.Graph.Typing
import OperationGraph.Proofs.Selection.Depth

/-! # Which walks end

A walk ends if the fields of the operation nest to a finite depth, fragments taken as their selections.
Only a fragment that contains itself below a field can make it endless, and it can. -/

namespace OperationGraph

namespace Walk

/-- A walk after a number of steps; a walk that is over stays as it is. -/
def after (c : Collector) : Nat → Walk → Except AnalysisError Walk
  | 0, w => .ok w
  | count + 1, w =>
    match w.stack with
    | [] => .ok w
    | top :: rest =>
      match step c w.next top rest w.made with
      | .error e => .error e
      | .ok w => after c count w

/-- No field waits, or a step has failed. -/
def IsOver : Except AnalysisError Walk → Prop
  | .error _ => True
  | .ok w => w.stack = []

/-- A walk with a result is over after finitely many steps. -/
theorem exists_isOver_of_run {c : Collector} {w : Walk} {r : Except AnalysisError Graph}
    (h : run c w = some r) : ∃ count, IsOver (after c count w) := by
  refine run.partial_correctness c (fun w _ => ∃ count, IsOver (after c count w)) ?_ w r h
  intro run ih w r h
  obtain ⟨next, stack, made⟩ := w
  cases stack with
  | nil => exact ⟨0, rfl⟩
  | cons top stack =>
    cases hstep : step c next top stack made with
    | error e => exact ⟨1, by simp [after, hstep, IsOver]⟩
    | ok w =>
      simp only [hstep] at h
      obtain ⟨count, hover⟩ := ih w r h
      exact ⟨count + 1, by simpa [after, hstep] using hover⟩

end Walk

/-! ### The recursion ends -/

namespace Collector

variable {c : Collector}

/-- The recursion ends on fields if it ends on what is below each of them. -/
theorem exists_build_of_childFields {fields : List MergedField}
    (h : ∀ m ∈ fields, ∀ ms, c.childFields m = .ok ms → ∀ next, ∃ r, c.build next ms = some r)
    (next : Nat) : ∃ r, c.build next fields = some r := by
  induction fields generalizing next with
  | nil => exact ⟨_, by rw [build]⟩
  | cons m rest ih =>
    rw [build]
    cases hms : c.childFields m with
    | error e => exact ⟨_, rfl⟩
    | ok ms =>
      obtain ⟨r, hr⟩ := h m List.mem_cons_self ms hms (next + 1)
      rcases r with e | ⟨F, next'⟩
      · exact ⟨.error e, by simp [hr]⟩
      · obtain ⟨r', hr'⟩ := ih (fun m hm => h m (List.mem_cons_of_mem _ hm)) next'
        rcases r' with e | ⟨G, next''⟩
        · exact ⟨.error e, by simp [hr, hr']⟩
        · exact ⟨.ok (.tree next m F G, next''), by simp [hr, hr']⟩

structure ShallowField (c : Collector) (k : Nat) (m : MergedField) : Prop where
  nodes_ne_nil : m.nodes ≠ []
  shallow : ∀ n ∈ m.nodes, Shallow c.fragments k n.selections

theorem shallowField_of_collectedFrom {k : Nat} {sets : List (List Selection)} {ts : List NamedType}
    {m : MergedField} (hm : m.CollectedFrom c.fragments sets ts)
    (hsets : ∀ selections ∈ sets, Shallow c.fragments (k + 1) selections) : c.ShallowField k m := by
  obtain ⟨first, hfirst, -⟩ := hm.first
  constructor
  · intro hnil
    simp [hnil] at hfirst
  · intro n hn
    obtain ⟨selections, hmem, hsel⟩ := hm.selected n hn
    exact hsets selections hmem n hsel

/-- The depth of the fields bounds the recursion: every level takes one off. -/
theorem exists_build_of_shallow {k : Nat} {fields : List MergedField}
    (h : ∀ m ∈ fields, c.ShallowField k m) (next : Nat) : ∃ r, c.build next fields = some r := by
  induction k generalizing fields next with
  | zero =>
    apply exists_build_of_childFields
    intro m hm
    obtain ⟨n, hn⟩ := List.exists_mem_of_ne_nil m.nodes (h m hm).nodes_ne_nil
    exact ((h m hm).shallow n hn).elim
  | succ k ih =>
    apply exists_build_of_childFields
    intro m hm ms hms next
    refine ih (fun m' hm' => ?_) next
    obtain ⟨t, ts, -, -, hfrom⟩ := childFields_collectedFrom hms hm'
    refine shallowField_of_collectedFrom hfrom fun selections hmem => ?_
    obtain ⟨n, hn, rfl⟩ := List.mem_map.1 hmem
    exact (h m hm).shallow n hn

end Collector

theorem exists_run_of_noFieldCycle {s : Schema} {doc : Document} {operationName : String}
    {given : Entries} {c : Collector} {fields : List MergedField} (h : doc.NoFieldCycle)
    (hp : prepare s doc operationName given = .ok (c, fields)) :
    ∃ r, (Walk.start fields).run c = some r := by
  obtain ⟨-, hdoc, op, root, -, -, hfields⟩ := prepare_eq_ok hp
  obtain ⟨k, hk⟩ := h.exists_shallow op.selections
  rw [← hdoc] at hk
  have hshallow : ∀ m ∈ fields, c.ShallowField k m := by
    intro m hm
    refine Collector.shallowField_of_collectedFrom
      (Collector.collectFields_collectedFrom hfields m hm) fun selections hmem => ?_
    rw [List.mem_singleton.1 hmem]
    exact hk.mono (Nat.le_succ k)
  obtain ⟨r, hr⟩ := Collector.exists_build_of_shallow hshallow 1
  exact ⟨_, by rw [Walk.run_start, hr]; rfl⟩

theorem analyze_ne_unfinished {s : Schema} {doc : Document} {operationName : String}
    {given : Entries} (h : doc.NoFieldCycle) : analyze s doc operationName given ≠ .unfinished := by
  unfold analyze
  cases hp : prepare s doc operationName given with
  | error e => simp
  | ok x =>
    obtain ⟨r, hr⟩ := exists_run_of_noFieldCycle h hp
    cases r <;> simp [hr, Outcome.ofResult]

/-! ### An endless walk -/

namespace Endless

def query : NamedType where
  name := "Query"
  kind := .object
  fields := [{ name := "self", type := .named "Query" }]

def schema : Schema where
  types := [query]
  query := "Query"

def node : Field where
  key := "self"
  name := "self"
  selections := [.spread "Self" [] ⟨"", 1, 48⟩]
  pos := ⟨"", 1, 38⟩

/-- The fragment `fragment Self on Query { self { ...Self } }`. -/
def fragment : Fragment where
  name := "Self"
  condition := "Query"
  selections := [.field node]
  pos := ⟨"", 1, 13⟩

/-- The operation `{ ...Self }` and its fragment. -/
def document : Document where
  operations := [{
    type := .query
    selections := [.spread "Self" [] ⟨"", 1, 6⟩]
    pos := ⟨"", 1, 1⟩ }]
  fragments := [fragment]

def collector : Collector where
  schema := schema
  fragments := [fragment]

/-- The only field, at the root and below itself. -/
def self : MergedField where
  key := "self"
  nodes := [node]
  objectType := query
  definition := { name := "self", type := .named "Query" }

theorem prepare_document : prepare schema document "" [] = .ok (collector, [self]) := rfl

theorem childFields_self : collector.childFields self = .ok [self] := rfl

theorem not_noFieldCycle : ¬ document.NoFieldCycle := by
  intro h
  exact h fragment List.mem_cons_self (.field List.mem_cons_self (.spread List.mem_cons_self rfl))

/-- One field waits before every step. -/
theorem after_self (count next parent : Nat) (made : List Vertex) :
    ∃ w, Walk.after collector count ⟨next, [⟨self, parent⟩], made⟩ = .ok w ∧ w.stack ≠ [] := by
  induction count generalizing next parent made with
  | zero => exact ⟨_, rfl, List.cons_ne_nil _ _⟩
  | succ count ih =>
    simp only [Walk.after, Walk.step, childFields_self]
    exact ih (next + 1) next _

theorem run_start_self : (Walk.start [self]).run collector = none := by
  apply Option.eq_none_iff_forall_ne_some.2
  intro r hr
  obtain ⟨count, hover⟩ := Walk.exists_isOver_of_run hr
  obtain ⟨w, hw, hstack⟩ := after_self count 1 0 []
  have hstart : Walk.after collector count (Walk.start [self]) = .ok w := hw
  rw [hstart] at hover
  exact hstack hover

theorem analyze_document : analyze schema document "" [] = .unfinished := by
  simp only [analyze, prepare_document, run_start_self, Outcome.ofResult]

end Endless

/-- The walk of an operation ends after finitely many steps, whatever the schema and the variables, if
no fragment can be come to from itself on a way that goes below a field. For a document with such a
fragment a field may wait after any number of steps. -/
theorem walk_ends_of_noFieldCycle :
    (∀ (s : Schema) (doc : Document) (operationName : String) (given : Entries), doc.NoFieldCycle →
      analyze s doc operationName given ≠ .unfinished ∧
        ∀ c fields, prepare s doc operationName given = .ok (c, fields) →
          ∃ count, Walk.IsOver (Walk.after c count (Walk.start fields))) ∧
      ∃ s doc operationName given c fields, ¬ doc.NoFieldCycle ∧
        prepare s doc operationName given = .ok (c, fields) ∧
        analyze s doc operationName given = .unfinished ∧
        ∀ count, ∃ w, Walk.after c count (Walk.start fields) = .ok w ∧ w.stack ≠ [] := by
  constructor
  · intro s doc operationName given h
    refine ⟨analyze_ne_unfinished h, fun c fields hp => ?_⟩
    obtain ⟨r, hr⟩ := exists_run_of_noFieldCycle h hp
    exact Walk.exists_isOver_of_run hr
  · exact ⟨Endless.schema, Endless.document, "", [], Endless.collector, [Endless.self],
      Endless.not_noFieldCycle, Endless.prepare_document, Endless.analyze_document,
      fun count => Endless.after_self count 1 0 []⟩

namespace Pets

/-- The fragment `fragment Known on Animal { ...Tagged name }`. -/
def known : Fragment where
  name := "Known"
  condition := "Animal"
  selections := [.spread "Tagged" [] ⟨"", 1, 48⟩, nameAs "name" 58]
  pos := ⟨"", 1, 21⟩

/-- The fragment `fragment Tagged on Animal { ...Known tag: name }`. -/
def taggedAgain : Fragment where
  name := "Tagged"
  condition := "Animal"
  selections := [.spread "Known" [] ⟨"", 1, 93⟩, nameAs "tag" 102]
  pos := ⟨"", 1, 65⟩

/-- The operation `{ pet { ...Known } }` and two fragments that spread each other. -/
def knownPets : Document where
  operations := [{
    type := .query
    selections := [.field {
      key := "pet"
      name := "pet"
      selections := [.spread "Known" [] ⟨"", 1, 9⟩]
      pos := ⟨"", 1, 3⟩ }]
    pos := ⟨"", 1, 1⟩ }]
  fragments := [known, taggedAgain]

theorem noFieldCycle_knownPets : knownPets.NoFieldCycle :=
  Document.noFieldCycle_of_leaves (by decide)

end Pets

/-- Fragments that spread each other do not make a walk endless. -/
theorem walk_ends_of_noFieldCycle_pets :
    Pets.knownPets.NoFieldCycle ∧
      ∃ c fields, prepare Pets.household Pets.knownPets "" [] = .ok (c, fields) ∧
        fields.map (·.label) = ["Query.pet"] ∧
        ∃ count, Walk.IsOver (Walk.after c count (Walk.start fields)) :=
  ⟨Pets.noFieldCycle_knownPets, _, _, rfl, rfl,
    (walk_ends_of_noFieldCycle.1 Pets.household Pets.knownPets "" []
      Pets.noFieldCycle_knownPets).2 _ _ rfl⟩

end OperationGraph
