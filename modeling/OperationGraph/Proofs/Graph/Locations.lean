import OperationGraph.Graph.Export
import OperationGraph.Proofs.Graph.Typing
import OperationGraph.Proofs.Selection.Entering
import OperationGraph.Proofs.Selection.Recorded

/-! # The locations of a vertex

A vertex under the root lists the places of the nodes that were collected from the selection set of the
operation. Fragments are entered once in it, so that where fields stand at different places no place is
listed twice (`nodes_recorded_once`). -/

namespace OperationGraph

def FieldNode.location (n : Field) : Nat × Int := (n.pos.line, n.pos.column)

theorem Collector.collectFields_of_collectInto {c : Collector} {selections : List Selection}
    {possible : TypeSet} {parent : NamedType} {st : Collected}
    (h : c.collectInto selections possible parent {} = .ok st) :
    c.collectFields [selections] possible parent = .ok st.groups.toList := by
  simp [collectFields, collectGroups, h]

/-- Collecting from one selection set ends however fragments spread each other, and enters none of them
twice. So if all fields of a document stand at different places, no node is recorded twice for a key and an
object type, and a vertex under the root lists different locations. -/
theorem nodes_recorded_once (s : Schema) (doc : Document) :
    (∀ (vars : Entries) (selections : List Selection) (possible : TypeSet) (parent : NamedType)
        (g : FieldGroups),
      ∃ entered, Collector.follow ⟨s, doc.fragments, vars⟩ selections possible parent { groups := g } =
          some (entered, Collector.collectInto ⟨s, doc.fragments, vars⟩ selections possible parent
            { groups := g }) ∧
        entered.Nodup ∧ ∀ name ∈ entered, (doc.fragment? name).isSome) ∧
      ((doc.nodes.map FieldNode.location).Nodup →
        (∀ (vars : Entries) (selections : List Selection) (possible : TypeSet) (parent : NamedType)
            (st : Collected),
          doc.StartsFrom selections → possible.Distinct s →
          Collector.collectInto ⟨s, doc.fragments, vars⟩ selections possible parent {} = .ok st →
          (st.groups.toList.map fun m => (m.key, m.objectType.name)).Nodup ∧
            ∀ m ∈ st.groups.toList, (m.nodes.map FieldNode.location).Nodup) ∧
        ∀ operationName given g, analyze s doc operationName given = .finished g →
          ∀ v ∈ g.children 0, v.record.locations.Nodup) := by
  refine ⟨?_, fun hdoc => ⟨?_, ?_⟩⟩
  · intro vars selections possible parent g
    exact Collector.exists_follow_eq_collectInto ⟨s, doc.fragments, vars⟩ selections possible parent g
  · intro vars selections possible parent st hset hpossible hst
    have hfields := Collector.collectFields_of_collectInto hst
    exact ⟨Collector.nodup_collectFields hfields,
      Collector.nodup_nodes_of_collectFields hdoc rfl hset hpossible hfields⟩
  · intro operationName given g hg v hv
    obtain ⟨c, fields, hprepare, hexpands⟩ := exists_expands_of_analyze hg
    obtain ⟨-, hc, op, root, hop, -, hfields⟩ := prepare_eq_ok hprepare
    have hset : doc.StartsFrom op.selections := .operation (Document.mem_operations_of_operation hop)
    have hmem : v.field ∈ fields := hexpands.root_eq ▸ List.mem_map_of_mem hv
    have hroot : TypeSet.Distinct c.schema (some [root]) := List.nodup_singleton _
    exact Collector.nodup_nodes_of_collectFields hdoc hc hset hroot hfields v.field hmem

namespace Pets

def petAt (line : Nat) (column : Int) : Selection :=
  .field { key := "pet", name := "pet", pos := ⟨"", line, column⟩
           selections := [.field { key := "name", name := "name", pos := ⟨"", line, column + 6⟩ }] }

/-- The fragment `fragment First on Query { pet { name } ...Second }`. -/
def first : Fragment where
  name := "First"
  condition := "Query"
  selections := [petAt 2 27, .spread "Second" [] ⟨"", 2, 43⟩]
  pos := ⟨"", 2, 10⟩

/-- The fragment `fragment Second on Query { pet { name } ...First ...Second }`. -/
def second : Fragment where
  name := "Second"
  condition := "Query"
  selections := [petAt 3 28, .spread "First" [] ⟨"", 3, 44⟩, .spread "Second" [] ⟨"", 3, 53⟩]
  pos := ⟨"", 3, 10⟩

/-- The operation `{ ...Second pet { name } ...First }`. -/
def entangling : Operation where
  type := .query
  selections := [.spread "Second" [] ⟨"", 1, 6⟩, petAt 1 13, .spread "First" [] ⟨"", 1, 29⟩]
  pos := ⟨"", 1, 1⟩

def entangled : Document := { operations := [entangling], fragments := [first, second] }

end Pets

/-- Every pet of the document is recorded once, and listed once. -/
theorem nodes_recorded_once_entangled :
    (Pets.entangled.nodes.map FieldNode.location).Nodup ∧
      (∃ st, Collector.collectInto ⟨Pets.household, Pets.entangled.fragments, []⟩
          Pets.entangling.selections (some [Pets.query]) Pets.query {} = .ok st ∧
        st.groups.toList.map (·.nodes.map FieldNode.location) = [[(3, 28), (2, 27), (1, 13)]] ∧
        ∀ m ∈ st.groups.toList, (m.nodes.map FieldNode.location).Nodup) ∧
      ∃ g, analyze Pets.household Pets.entangled "" [] = .finished g ∧
        (g.children 0).map (·.record.locations) = [[(3, 28), (2, 27), (1, 13)]] ∧
        ∀ v ∈ g.children 0, v.record.locations.Nodup := by
  have hdoc : (Pets.entangled.nodes.map FieldNode.location).Nodup := by decide
  have hst : Collector.collectInto ⟨Pets.household, Pets.entangled.fragments, []⟩
      Pets.entangling.selections (some [Pets.query]) Pets.query {} = .ok _ := rfl
  have hg : analyze Pets.household Pets.entangled "" [] = .finished _ :=
    analyze_of_built rfl (.tree rfl (.tree rfl .empty (.tree rfl .empty .empty)) .empty)
  obtain ⟨hrecorded, hlisted⟩ := (nodes_recorded_once Pets.household Pets.entangled).2 hdoc
  refine ⟨hdoc, ⟨_, hst, rfl, ?_⟩, _, hg, rfl, hlisted "" [] _ hg⟩
  have hset : Pets.entangled.StartsFrom Pets.entangling.selections := .operation List.mem_cons_self
  have hroot : TypeSet.Distinct Pets.household (some [Pets.query]) := List.nodup_singleton _
  exact (hrecorded [] _ _ _ _ hset hroot hst).2

end OperationGraph
