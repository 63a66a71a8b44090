import OperationGraph.Graph.Export
import OperationGraph.Proofs.Graph.Typing

/-! # Graphs are traversed in the order of their numbers

A walk gives out numbers while it makes vertices; a traversal goes over the finished graph with a stack
of its own. Both orders are the same (`analyze_traversal`). So a record lists the vertices in the order of
their numbers, a parent always before what depends on it, and the texts of the dependencies can be read
off the record alone. -/

namespace OperationGraph

/-! ### Traversals without a bound -/

namespace Graph

/-- A point of a graph: its root, or one of its vertices. -/
inductive Point where
  | root
  | vertex (v : Vertex)

def Point.id : Point → Nat
  | root => 0
  | vertex v => v.id

def below (g : Graph) (p : Point) : List Point := (g.children p.id).map .vertex

/-- Visits the points on a stack, and what depends on a point right after it. An endless visit has no
result. -/
def visit (g : Graph) : List Point → Option (List Point)
  | [] => some []
  | p :: stack => do
    let rest ← g |>.visit (g.below p ++ stack)
    return p :: rest
partial_fixpoint

variable {g : Graph}

theorem visit_nil : g.visit [] = some [] := by
  rw [visit]

theorem visit_cons (p : Point) (stack : List Point) :
    g.visit (p :: stack) = (g.visit (g.below p ++ stack)).map (p :: ·) := by
  rw [visit]
  cases g.visit (g.below p ++ stack) <;> rfl

/-- The bound of a traversal is not reached if there are not more vertices to visit. -/
theorem visitFrom_of_visit {stack vs : List Vertex}
    (h : g.visit (stack.map .vertex) = some (vs.map .vertex)) {fuel : Nat} (hfuel : vs.length ≤ fuel) :
    g.visitFrom fuel stack = vs := by
  induction vs generalizing stack fuel with
  | nil =>
    cases stack with
    | nil => cases fuel <;> rfl
    | cons v stack => simp [visit_cons] at h
  | cons w vs ih =>
    cases stack with
    | nil => simp [visit_nil] at h
    | cons v stack =>
      obtain ⟨fuel, rfl⟩ := Nat.exists_eq_add_of_le' (Nat.lt_of_lt_of_le (Nat.succ_pos _) hfuel)
      simp only [List.map_cons, visit_cons, Option.map_eq_some_iff, List.cons.injEq,
        Point.vertex.injEq] at h
      obtain ⟨rest, hrest, rfl, rfl⟩ := h
      have hbelow : g.visit ((g.children v.id ++ stack).map .vertex) = some (vs.map .vertex) := by
        rw [List.map_append]
        exact hrest
      rw [visitFrom, ih hbelow (Nat.le_of_succ_le_succ hfuel)]

end Graph

/-! ### Forests -/

namespace Forest

theorem length_vertices (F : Forest) (p : Nat) : (F.vertices p).length = F.size := by
  induction F generalizing p with
  | nil => rfl
  | tree id field below after ihb iha => simp [vertices, size, ihb, iha]

/-- The trees on top of a stack are visited in depth-first order, and then the rest of the stack. -/
theorem visit_roots {g : Graph} {F : Forest} (h : F.Below g) (p : Nat) (stack : List Graph.Point) :
    g.visit ((F.roots p).map .vertex ++ stack) =
      (g.visit stack).map ((F.vertices p).map .vertex ++ ·) := by
  induction F generalizing p stack with
  | nil =>
    change g.visit stack = (g.visit stack).map id
    rw [Option.map_id, id]
  | tree id field below after ihb iha =>
    obtain ⟨hchildren, hbelow, hafter⟩ := h
    have hnext : g.below (.vertex ⟨id, p, field⟩) = (below.roots id).map .vertex := by
      rw [Graph.below, Graph.Point.id, hchildren]
    simp only [roots, List.map_cons, List.cons_append, Graph.visit_cons, hnext, ihb hbelow,
      iha hafter, Option.map_map]
    congr 1
    funext rest
    simp [vertices]

theorem parent_lt_id {F : Forest} {n p : Nat} (h : F.NumberedFrom n) (hp : p < n) {v : Vertex}
    (hv : v ∈ F.vertices p) : v.parent < v.id := by
  induction F generalizing n p with
  | nil => cases hv
  | tree id field below after ihb iha =>
    obtain ⟨rfl, hbelow, hafter⟩ := h
    simp only [vertices, List.mem_cons, List.mem_append] at hv
    rcases hv with rfl | hv | hv
    · exact hp
    · exact ihb hbelow (Nat.lt_succ_self id) hv
    · exact iha hafter (by omega) hv

end Forest

/-! ### Numbered graphs -/

/-- A graph whose vertices have the numbers from one on, each a greater one than its parent, and are
visited in this order. -/
structure Graph.Numbered (g : Graph) : Prop where
  ids : g.vertices.map (·.id) = List.range' 1 g.vertices.length
  parent_lt : ∀ v ∈ g.vertices, v.parent < v.id
  visit_eq : g.visit [.root] = some (.root :: g.vertices.map .vertex)

theorem Forest.numbered_graph {F : Forest} (h : F.NumberedFrom 1) : F.graph.Numbered := by
  obtain ⟨hroots, hbelow⟩ := F.isTreeOf_graph h
  constructor
  case ids =>
    change (F.vertices 0).map (·.id) = List.range' 1 (F.vertices 0).length
    rw [map_id_vertices h, length_vertices]
  case parent_lt => exact fun v hv => parent_lt_id h Nat.one_pos hv
  case visit_eq =>
    have htop : F.graph.below .root = (F.roots 0).map .vertex := by
      rw [Graph.below, Graph.Point.id, hroots]
    have hvisit := visit_roots hbelow 0 []
    rw [Graph.visit_nil, Option.map_some, List.append_nil] at hvisit
    rw [Graph.visit_cons, htop, List.append_nil, hvisit, Option.map_some, List.append_nil]
    rfl

theorem numbered_of_analyze {s : Schema} {doc : Document} {operationName : String} {given : Entries}
    {g : Graph} (h : analyze s doc operationName given = .finished g) : g.Numbered := by
  obtain ⟨c, fields, F, next, -, hb, rfl⟩ := exists_built_of_analyze h
  exact F.numbered_graph hb.numbered.1

namespace Graph.Numbered
variable {g : Graph} (h : g.Numbered)
include h

theorem visitFrom_eq {fuel : Nat} (hfuel : g.vertices.length ≤ fuel) :
    g.visitFrom fuel (g.children 0) = g.vertices := by
  have hvisit := h.visit_eq
  rw [visit_cons, List.append_nil] at hvisit
  simp only [Option.map_eq_some_iff, List.cons.injEq, true_and] at hvisit
  obtain ⟨rest, hrest, rfl⟩ := hvisit
  exact visitFrom_of_visit hrest hfuel

theorem traverse_eq : g.traverse = g.vertices := h.visitFrom_eq (Nat.le_refl _)

theorem id_getElem {i : Nat} (hi : i < g.vertices.length) : g.vertices[i].id = i + 1 := by
  have hget := congrArg (·[i]?) h.ids
  simp only [List.getElem?_map, List.getElem?_eq_getElem hi, Option.map_some,
    List.getElem?_range' hi, Option.some.injEq] at hget
  omega

/-- The vertex of a number stands at the place before it, counted from zero. -/
theorem find?_id_eq {i : Nat} (hi : i < g.vertices.length) :
    g.vertices.find? (·.id = i + 1) = some g.vertices[i] := by
  rw [List.find?_eq_some_iff_getElem]
  refine ⟨by simp [h.id_getElem hi], i, hi, rfl, ?_⟩
  intro j hj
  simp [h.id_getElem (Nat.lt_trans hj hi), Nat.ne_of_lt hj]

end Graph.Numbered

/-! ### Records -/

/-- The object type, the key and the type of a field, as its record tells them. -/
def VertexRecord.label (v : VertexRecord) : String :=
  v.type ++ "." ++ v.field ++ ": " ++ v.returnType

namespace GraphRecord

/-- The label at a position of the list of vertices, counted from one; position zero is the root. -/
def labelAt? (r : GraphRecord) : Nat → Option String
  | 0 => some rootLabel
  | i + 1 => (r.vertices[i]?).map VertexRecord.label

def edgeText? (r : GraphRecord) (v : VertexRecord) : Option String :=
  (r.labelAt? v.parent).map fun label => v.label ++ " -> " ++ label

end GraphRecord

namespace Graph.Numbered
variable {g : Graph} (h : g.Numbered)
include h

theorem vertices_record : g.record.vertices = g.vertices.map Vertex.record := by
  rw [record, h.traverse_eq]

/-- The label of a vertex that others depend on is found at its position. -/
theorem labelAt?_record {i : Nat} (hi : i ≤ g.vertices.length) :
    g.record.labelAt? i = some (g.labelOf i) := by
  cases i with
  | zero =>
    have hnone : g.vertices.find? (·.id = 0) = none := by
      rw [List.find?_eq_none]
      intro v hv hid
      have hlt := h.parent_lt v hv
      rw [of_decide_eq_true hid] at hlt
      exact Nat.not_lt_zero _ hlt
    rw [GraphRecord.labelAt?, labelOf, hnone]
  | succ i =>
    rw [GraphRecord.labelAt?, h.vertices_record, labelOf, h.find?_id_eq hi, List.getElem?_map,
      List.getElem?_eq_getElem hi]
    rfl

theorem parent_le_length {v : Vertex} (hv : v ∈ g.vertices) : v.parent ≤ g.vertices.length := by
  obtain ⟨i, hi, rfl⟩ := List.mem_iff_getElem.1 hv
  have hlt := h.parent_lt _ hv
  rw [h.id_getElem hi] at hlt
  omega

theorem edgeText?_record {v : Vertex} (hv : v ∈ g.vertices) :
    g.record.edgeText? v.record = some (g.edgeText v) := by
  have hlabel : g.record.labelAt? v.record.parent = some (g.labelOf v.parent) :=
    h.labelAt?_record (h.parent_le_length hv)
  rw [GraphRecord.edgeText?, hlabel]
  rfl

theorem map_edgeText?_record :
    g.record.vertices.map g.record.edgeText? = g.edgeTexts.map some := by
  rw [edgeTexts, h.traverse_eq, List.map_map, h.vertices_record, List.map_map]
  exact List.map_congr_left fun v hv => h.edgeText?_record hv

end Graph.Numbered

/-- The graph of an operation is visited once and in the order of its numbers, from the root on, and
however many vertices a traversal may visit at most, if it is enough for them all, it lists the vertices as
they were made. The record lists them in this order with the numbers from one on, each behind its parent,
and one dependency for each. The texts of the dependencies are those that the record tells. -/
theorem analyze_traversal {s : Schema} {doc : Document} {operationName : String} {given : Entries}
    {g : Graph} (h : analyze s doc operationName given = .finished g) :
    (∃ points, g.visit [.root] = some points ∧ points = .root :: g.vertices.map .vertex ∧
        points.map Graph.Point.id = List.range (g.vertices.length + 1)) ∧
      (∀ fuel, g.vertices.length ≤ fuel → g.visitFrom fuel (g.children 0) = g.vertices) ∧
      g.traverse = g.vertices ∧
      g.record.vertices.map (·.id) = List.range' 1 g.vertices.length ∧
      (∀ v ∈ g.record.vertices, v.parent < v.id) ∧
      g.record.edges = g.record.vertices.map (fun v => (v.id, v.parent)) ∧
      g.record.vertices.map g.record.edgeText? = g.edgeTexts.map some := by
  have hg := numbered_of_analyze h
  have hids : g.record.vertices.map (·.id) = List.range' 1 g.vertices.length := by
    rw [hg.vertices_record, List.map_map]
    exact hg.ids
  refine ⟨⟨_, hg.visit_eq, rfl, ?_⟩, fun fuel => hg.visitFrom_eq, hg.traverse_eq, hids, ?_, ?_,
    hg.map_edgeText?_record⟩
  · rw [List.map_cons, List.map_map, List.range_eq_range', List.range'_succ]
    exact congrArg (0 :: ·) hg.ids
  · rw [hg.vertices_record]
    exact List.forall_mem_map.2 hg.parent_lt
  · rw [Graph.record, List.map_map]
    rfl

namespace Pets

/-- The operation `{ first: pet { name } second: pet { name } }`. -/
def twice : Document where
  operations := [{
    type := .query
    selections :=
      [.field { key := "first", name := "pet", selections := [nameAs "name" 16], pos := ⟨"", 1, 3⟩ },
       .field { key := "second", name := "pet", selections := [nameAs "name" 37], pos := ⟨"", 1, 23⟩ }]
    pos := ⟨"", 1, 1⟩ }]

end Pets

/-- The fields of the first pet come before the second pet. -/
theorem analyze_traversal_twice :
    ∃ g, analyze Pets.household Pets.twice "" [] = .finished g ∧
      (g.visit [.root]).map (·.map Graph.Point.id) = some [0, 1, 2, 3, 4, 5, 6] ∧
      g.record.edges = [(1, 0), (2, 1), (3, 1), (4, 0), (5, 4), (6, 4)] ∧
      g.edgeTexts =
        ["Query.first: Animal -> ROOT", "Cat.name: String -> Query.first: Animal",
          "Dog.name: String -> Query.first: Animal", "Query.second: Animal -> ROOT",
          "Cat.name: String -> Query.second: Animal", "Dog.name: String -> Query.second: Animal"] ∧
      g.record.vertices.map g.record.edgeText? = g.edgeTexts.map some := by
  have hg : analyze Pets.household Pets.twice "" [] = .finished _ :=
    analyze_of_built rfl
      (.tree rfl (.tree rfl .empty (.tree rfl .empty .empty))
        (.tree rfl (.tree rfl .empty (.tree rfl .empty .empty)) .empty))
  obtain ⟨⟨points, hpoints, -, hids⟩, -, -, -, -, -, htexts⟩ := analyze_traversal hg
  refine ⟨_, hg, ?_, rfl, rfl, htexts⟩
  rw [hpoints, Option.map_some, hids]
  rfl

end OperationGraph
