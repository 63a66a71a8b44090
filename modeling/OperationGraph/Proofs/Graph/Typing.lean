import OperationGraph.Proofs.Graph.Recursion
import OperationGraph.Proofs.Schema.Members
import OperationGraph.Proofs.Selection.Origin

/-! # The graph of an operation is well typed

A finished walk leaves a tree in which the children of every vertex are the merged fields below its
field, in order. What collecting says about merged fields is so carried over to the vertices. -/

namespace OperationGraph

/-! ### From the forest to the graph -/

namespace Forest

def fields : Forest → List MergedField
  | nil => []
  | tree _ field _ after => field :: after.fields

/-- Below every field stand the fields that a collector finds below it. -/
def Expands (c : Collector) : Forest → Prop
  | nil => True
  | tree _ field below after =>
    c.childFields field = .ok below.fields ∧ below.Expands c ∧ after.Expands c

theorem map_field_roots (F : Forest) (p : Nat) : (F.roots p).map (·.field) = F.fields := by
  induction F with
  | nil => rfl
  | tree id field below after _ iha => simp [roots, fields, iha]

theorem childFields_of_mem {c : Collector} {g : Graph} {F : Forest} (hb : F.Below g)
    (he : F.Expands c) {p : Nat} {v : Vertex} (hv : v ∈ F.vertices p) :
    c.childFields v.field = .ok ((g.children v.id).map (·.field)) := by
  induction F generalizing p with
  | nil => cases hv
  | tree id field below after ihb iha =>
    obtain ⟨hchildren, hbelow, hafter⟩ := hb
    obtain ⟨hfields, hebelow, heafter⟩ := he
    simp only [vertices, List.mem_cons, List.mem_append] at hv
    rcases hv with rfl | hv | hv
    · rw [hchildren, map_field_roots, hfields]
    · exact ihb hbelow hebelow hv
    · exact iha hafter heafter hv

theorem parent_mem {F : Forest} {p : Nat} {v : Vertex} (hv : v ∈ F.vertices p) :
    v.parent = p ∨ ∃ u ∈ F.vertices p, u.id = v.parent := by
  induction F generalizing p with
  | nil => cases hv
  | tree id field below after ihb iha =>
    simp only [vertices, List.mem_cons, List.mem_append] at hv ⊢
    rcases hv with rfl | hv | hv
    · exact .inl rfl
    · rcases ihb hv with hroot | ⟨u, hu, hid⟩
      · exact .inr ⟨_, .inl rfl, hroot.symm⟩
      · exact .inr ⟨u, .inr (.inl hu), hid⟩
    · rcases iha hv with hroot | ⟨u, hu, hid⟩
      · exact .inl hroot
      · exact .inr ⟨u, .inr (.inr hu), hid⟩

end Forest

theorem Built.expands {c : Collector} {next next' : Nat} {fields : List MergedField} {F : Forest}
    (h : Built c next fields (.ok (F, next'))) : F.fields = fields ∧ F.Expands c := by
  generalize hr : Except.ok (F, next') = r at h
  induction h generalizing F next' with
  | empty =>
    cases hr
    exact ⟨rfl, trivial⟩
  | fails | failsBelow | failsAfter => cases hr
  | tree hf _ _ ihb iha =>
    cases hr
    obtain ⟨rfl, hb⟩ := ihb rfl
    obtain ⟨rfl, ha⟩ := iha rfl
    exact ⟨rfl, hf, hb, ha⟩

/-- A graph whose vertices have the fields below them as children, from given fields at the root. -/
structure Graph.Expands (c : Collector) (fields : List MergedField) (g : Graph) : Prop where
  root_eq : (g.children 0).map (·.field) = fields
  children_eq : ∀ p ∈ g.vertices, c.childFields p.field = .ok ((g.children p.id).map (·.field))
  parent_mem : ∀ v ∈ g.vertices, v.parent = 0 ∨ ∃ p ∈ g.vertices, p.id = v.parent

theorem Built.graph_expands {c : Collector} {fields : List MergedField} {F : Forest} {next : Nat}
    (h : Built c 1 fields (.ok (F, next))) : F.graph.Expands c fields := by
  obtain ⟨rfl, hexpands⟩ := h.expands
  obtain ⟨hroot, hbelow⟩ := F.isTreeOf_graph h.numbered.1
  constructor
  · rw [hroot, Forest.map_field_roots]
  · exact fun p hp => Forest.childFields_of_mem hbelow hexpands hp
  · exact fun v hv => Forest.parent_mem hv

/-! ### Analyses -/

/-- What a prepared walk is about. -/
theorem prepare_eq_ok {s : Schema} {doc : Document} {operationName : String} {given : Entries}
    {c : Collector} {fields : List MergedField}
    (h : prepare s doc operationName given = .ok (c, fields)) :
    c.schema = s ∧ c.fragments = doc.fragments ∧
      ∃ op root, doc.operation operationName = .ok op ∧ op.root s = .ok root ∧
        c.rootFields op root = .ok fields := by
  obtain ⟨op, hop, h⟩ := exists_of_bind_eq_ok h
  obtain ⟨coerced, -, h⟩ := exists_of_bind_eq_ok h
  obtain ⟨root, hroot, h⟩ := exists_of_bind_eq_ok h
  obtain ⟨fields, hfields, h⟩ := exists_of_bind_eq_ok h
  cases h
  exact ⟨rfl, rfl, op, root, hop, hroot, hfields⟩

theorem analyze_of_built {s : Schema} {doc : Document} {operationName : String} {given : Entries}
    {c : Collector} {fields : List MergedField} {F : Forest} {next : Nat}
    (hp : prepare s doc operationName given = .ok (c, fields))
    (hb : Built c 1 fields (.ok (F, next))) :
    analyze s doc operationName given = .finished F.graph := by
  have hrun := Walk.run_of_built hb 0 [] []
  simp only [List.append_nil, Walk.resume, Walk.run_nil, List.reverse_reverse] at hrun
  simp only [analyze, hp, Walk.start, hrun, Outcome.ofResult, Forest.graph]

/-- A graph is that of a forest that the recursion builds. -/
theorem exists_built_of_analyze {s : Schema} {doc : Document} {operationName : String}
    {given : Entries} {g : Graph} (h : analyze s doc operationName given = .finished g) :
    ∃ c fields F next, prepare s doc operationName given = .ok (c, fields) ∧
      Built c 1 fields (.ok (F, next)) ∧ g = F.graph := by
  unfold analyze at h
  cases hp : prepare s doc operationName given with
  | error e => simp [hp] at h
  | ok x =>
    obtain ⟨c, fields⟩ := x
    rw [hp] at h
    simp only [Walk.run_start] at h
    cases hb : c.build 1 fields with
    | none => simp [hb, Outcome.ofResult] at h
    | some r =>
      rcases r with e | ⟨F, next⟩
      · simp [hb, Outcome.ofResult, Except.map] at h
      · simp only [hb, Option.map_some, Except.map, Outcome.ofResult, Outcome.finished.injEq] at h
        exact ⟨c, fields, F, next, rfl, Collector.built_of_build hb, h.symm⟩

theorem exists_expands_of_analyze {s : Schema} {doc : Document} {operationName : String}
    {given : Entries} {g : Graph} (h : analyze s doc operationName given = .finished g) :
    ∃ c fields, prepare s doc operationName given = .ok (c, fields) ∧ g.Expands c fields := by
  obtain ⟨c, fields, F, next, hp, hb, rfl⟩ := exists_built_of_analyze h
  exact ⟨c, fields, hp, hb.graph_expands⟩

/-! ### Types -/

structure Graph.WellTyped (s : Schema) (doc : Document) (op : Operation) (root : NamedType)
    (g : Graph) : Prop where
  /-- The first node of a vertex gives its definition. -/
  first : ∀ v ∈ g.vertices, ∃ n, v.field.nodes.head? = some n ∧
    v.field.objectType.field? n.name = some v.field.definition
  key_eq : ∀ v ∈ g.vertices, ∀ n ∈ v.field.nodes, n.key = v.field.key
  parent_mem : ∀ v ∈ g.vertices, v ∈ g.children 0 ∨ ∃ p ∈ g.vertices, v ∈ g.children p.id
  root_type : ∀ v ∈ g.children 0, v.field.objectType = root
  root_selected : ∀ v ∈ g.children 0, ∀ n ∈ v.field.nodes, Selects doc.fragments op.selections n
  child_type : ∀ p ∈ g.vertices, ∀ v ∈ g.children p.id, v.field.objectType.kind = .object ∧
    ∃ t ts, s.type? p.field.definition.type.baseName = some t ∧ s.possibleTypes t = .ok ts ∧
      v.field.objectType ∈ ts
  child_selected : ∀ p ∈ g.vertices, ∀ v ∈ g.children p.id, ∀ n ∈ v.field.nodes,
    ∃ above ∈ p.field.nodes, Selects doc.fragments above.selections n
  leaf : ∀ p ∈ g.vertices, ∀ t, s.type? p.field.definition.type.baseName = some t →
    t.kind.isLeaf → g.children p.id = []
  /-- Siblings differ in their key or in the name of their object type. -/
  siblings : ∀ id, ((g.children id).map fun v => (v.field.key, v.field.objectType.name)).Nodup

namespace Graph.Expands

variable {c : Collector} {fields : List MergedField} {g : Graph}

theorem mem_children (h : g.Expands c fields) {v : Vertex} (hv : v ∈ g.vertices) :
    v ∈ g.children 0 ∨ ∃ p ∈ g.vertices, v ∈ g.children p.id := by
  have hchild : ∀ {id}, v.parent = id → v ∈ g.children id :=
    fun hid => List.mem_filter.2 ⟨hv, by simpa using hid⟩
  rcases h.parent_mem v hv with hroot | ⟨p, hp, hid⟩
  · exact .inl (hchild hroot)
  · exact .inr ⟨p, hp, hchild hid.symm⟩

theorem child_collectedFrom (h : g.Expands c fields) {p v : Vertex} (hp : p ∈ g.vertices)
    (hv : v ∈ g.children p.id) :
    ∃ t ts, c.schema.type? p.field.definition.type.baseName = some t ∧
      c.schema.possibleTypes t = .ok ts ∧
      v.field.CollectedFrom c.fragments (p.field.nodes.map (·.selections)) ts :=
  Collector.childFields_collectedFrom (h.children_eq p hp) (List.mem_map_of_mem hv)

theorem nodup_children (h : g.Expands c fields)
    (hfields : (fields.map fun m => (m.key, m.objectType.name)).Nodup) (id : Nat) :
    ((g.children id).map fun v => (v.field.key, v.field.objectType.name)).Nodup := by
  have hmap : ((g.children id).map fun v => (v.field.key, v.field.objectType.name)) =
      ((g.children id).map (·.field)).map fun m => (m.key, m.objectType.name) := by
    rw [List.map_map]
    rfl
  rw [hmap]
  cases hc : g.children id with
  | nil => exact List.nodup_nil
  | cons v rest =>
    -- there is a child, so the number is that of the root or of a vertex
    have hv := List.mem_filter.1 (hc ▸ List.mem_cons_self : v ∈ g.children id)
    obtain rfl : v.parent = id := by simpa using hv.2
    rw [← hc]
    rcases h.parent_mem v hv.1 with hroot | ⟨p, hp, hid⟩
    · rw [hroot, h.root_eq]
      exact hfields
    · rw [← hid]
      exact Collector.nodup_childFields (h.children_eq p hp)

/-- What collecting says about merged fields holds for the vertices. -/
theorem wellTyped (h : g.Expands c fields) {doc : Document} (hdoc : c.fragments = doc.fragments)
    {op : Operation} {root : NamedType} (hroot : c.rootFields op root = .ok fields) :
    g.WellTyped c.schema doc op root := by
  have htop : ∀ v ∈ g.children 0, v.field.CollectedFrom c.fragments [op.selections] [root] := by
    intro v hv
    have hmem : v.field ∈ fields := h.root_eq ▸ List.mem_map_of_mem hv
    exact Collector.collectFields_collectedFrom hroot v.field hmem
  have hany : ∀ v ∈ g.vertices, ∃ sets ts, v.field.CollectedFrom c.fragments sets ts := by
    intro v hv
    rcases h.mem_children hv with hv | ⟨p, hp, hv⟩
    · exact ⟨_, _, htop v hv⟩
    · obtain ⟨-, ts, -, -, hfrom⟩ := h.child_collectedFrom hp hv
      exact ⟨_, ts, hfrom⟩
  constructor
  case first =>
    intro v hv
    obtain ⟨sets, ts, hfrom⟩ := hany v hv
    exact hfrom.first
  case key_eq =>
    intro v hv
    obtain ⟨sets, ts, hfrom⟩ := hany v hv
    exact hfrom.key_eq
  case parent_mem => exact fun v hv => h.mem_children hv
  case root_type => exact fun v hv => List.mem_singleton.1 (htop v hv).type_mem
  case root_selected =>
    intro v hv n hn
    obtain ⟨selections, hmem, hsel⟩ := (htop v hv).selected n hn
    rw [hdoc, List.mem_singleton.1 hmem] at hsel
    exact hsel
  case child_type =>
    intro p hp v hv
    obtain ⟨t, ts, ht, hts, hfrom⟩ := h.child_collectedFrom hp hv
    exact ⟨Schema.object_of_mem_possibleTypes hts hfrom.type_mem, t, ts, ht, hts, hfrom.type_mem⟩
  case child_selected =>
    intro p hp v hv n hn
    obtain ⟨t, ts, -, -, hfrom⟩ := h.child_collectedFrom hp hv
    obtain ⟨selections, hmem, hsel⟩ := hfrom.selected n hn
    obtain ⟨above, habove, rfl⟩ := List.mem_map.1 hmem
    exact ⟨above, habove, hdoc ▸ hsel⟩
  case leaf =>
    intro p hp t ht hleaf
    have hnone := (h.children_eq p hp).symm.trans (Collector.childFields_of_isLeaf ht hleaf)
    exact List.map_eq_nil_iff.1 (Except.ok.inj hnone)
  case siblings => exact h.nodup_children (Collector.nodup_collectFields hroot)

end Graph.Expands

/-- The graph of an operation is well typed. -/
theorem analyze_wellTyped (s : Schema) (doc : Document) (operationName : String) (given : Entries)
    (g : Graph) (h : analyze s doc operationName given = .finished g) :
    ∃ op root, doc.operation operationName = .ok op ∧ op.root s = .ok root ∧
      g.WellTyped s doc op root := by
  obtain ⟨c, fields, hp, hg⟩ := exists_expands_of_analyze h
  obtain ⟨rfl, hdoc, op, root, hop, hr, hfields⟩ := prepare_eq_ok hp
  exact ⟨op, root, hop, hr, hg.wellTyped hdoc hfields⟩

namespace Pets

def query : NamedType where
  name := "Query"
  kind := .object
  fields := [{ name := "pet", type := .named "Animal" }]

def household : Schema where
  types := [query, animal, cat, dog, { name := "String", kind := .scalar }]
  query := "Query"

/-- The operation `{ pet { ... on Cat { tag: name } ...Names tag: name } }` and its fragment. -/
def petNames : Document where
  operations := [{
    type := .query
    selections := [.field { key := "pet", name := "pet", selections := tagged, pos := ⟨"", 1, 3⟩ }]
    pos := ⟨"", 1, 1⟩ }]
  fragments := [names]

end Pets

/-- The fields of a pet stand below it for a cat and for a dog. -/
theorem analyze_wellTyped_pets :
    ∃ g, analyze Pets.household Pets.petNames "" [] = .finished g ∧
      g.vertices.map (·.label) =
        ["Query.pet: Animal", "Cat.tag: String", "Dog.tag: String", "Cat.name: String",
          "Dog.name: String"] ∧
      ∃ op root, Pets.petNames.operation "" = .ok op ∧ op.root Pets.household = .ok root ∧
        g.WellTyped Pets.household Pets.petNames op root := by
  have hg : analyze Pets.household Pets.petNames "" [] = .finished _ :=
    analyze_of_built rfl
      (.tree rfl (.tree rfl .empty (.tree rfl .empty (.tree rfl .empty (.tree rfl .empty .empty))))
        .empty)
  exact ⟨_, hg, rfl, analyze_wellTyped Pets.household Pets.petNames "" [] _ hg⟩

end OperationGraph
