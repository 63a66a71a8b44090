import OperationGraph.Proofs.Selection.SingleType

/-! # Where merged fields come from

Every merged field stands for nodes of the selection sets it was collected from, or of fragments that can
be come to from there without going below a field. Its object type is one of the types in question, and
its definition is the field that its first node names. -/

namespace OperationGraph

/-- A node of a selection set, or of a fragment that can be come to from it without going below a
field. -/
inductive Selects (fragments : List Fragment) : List Selection → Field → Prop
  | field {selections n} (hmem : .field n ∈ selections) : Selects fragments selections n
  | inline {selections condition ds body pos n} (hmem : .inline condition ds body pos ∈ selections)
      (h : Selects fragments body n) : Selects fragments selections n
  | spread {selections name ds pos f n} (hmem : .spread name ds pos ∈ selections)
      (hf : fragments.find? (·.name = name) = some f) (h : Selects fragments f.selections n) :
      Selects fragments selections n

theorem Selects.mono {fragments : List Fragment} {selections others : List Selection} {n : Field}
    (h : Selects fragments selections n) (hsub : selections ⊆ others) :
    Selects fragments others n := by
  cases h with
  | field hmem => exact .field (hsub hmem)
  | inline hmem h => exact .inline (hsub hmem) h
  | spread hmem hf h => exact .spread (hsub hmem) hf h

theorem Collector.Reaches.selects {c : Collector} {t : NamedType} {v : List String}
    {selections : List Selection} {n : Field} (h : Reaches c t v selections n) :
    Selects c.fragments selections n := by
  induction h with
  | field hmem hi hf => exact .field hmem
  | inline hmem hi ha h ih => exact .inline hmem ih
  | spread hmem hi hv hf ha h ih => exact .spread hmem hf ih

/-! ### Additions and their merged fields -/

namespace Visit

theorem mem_attributed {n : Field} {ts : List NamedType} {a : Addition} (h : a ∈ attributed n ts) :
    a.node = n ∧ a.key = n.key ∧ a.type ∈ ts ∧ a.type.field? n.name = some a.definition := by
  induction ts with
  | nil => cases h
  | cons t rest ih =>
    rw [attributed] at h
    cases hf : t.field? n.name with
    | none => simp [hf] at h
    | some f =>
      rw [hf] at h
      rcases List.mem_cons.1 h with rfl | h
      · exact ⟨rfl, rfl, List.mem_cons_self, hf⟩
      · obtain ⟨hnode, hkey, htype, hdef⟩ := ih h
        exact ⟨hnode, hkey, List.mem_cons_of_mem t htype, hdef⟩

/-- An addition is made at a visit of its node, for a type that the place of the visit admits. -/
theorem mem_additions {ts : List NamedType} {x : Visit} {a : Addition}
    (h : a ∈ x.additions (some ts)) :
    a.key = a.node.key ∧ a.type ∈ ts ∧ a.type.field? a.node.name = some a.definition ∧
      a.node ∈ x.nodesFor a.type := by
  cases x with
  | fault e => cases h
  | node p n =>
    rw [additions, within_some] at h
    obtain ⟨rfl, hkey, htype, hdef⟩ := mem_attributed h
    have hmem := List.mem_filter.1 htype
    have hnode : p.admits a.type ∧ (a.type.field? a.node.name).isSome := ⟨hmem.2, by simp [hdef]⟩
    exact ⟨hkey, hmem.1, hdef, by simp [nodesFor, hnode]⟩

end Visit

/-- A merged field is made of the additions for its key and its type, of which there is a first one. -/
theorem exists_merge_of_mem {as : List Addition} {m : MergedField}
    (hm : m ∈ (FieldGroups.addAll [] as).toList) :
    ∃ a rest, as.filter (Addition.isFor m.key m.objectType.name) = a :: rest ∧
      m = { key := a.key, nodes := (a :: rest).map (·.node), objectType := a.type,
            definition := a.definition } := by
  have hfor : m ∈ (FieldGroups.addAll [] as).toList.filter
      (MergedField.isFor m.key m.objectType.name) :=
    List.mem_filter.2 ⟨hm, by simp [MergedField.isFor]⟩
  rw [FieldGroups.filter_toList_addAll] at hfor
  cases has : as.filter (Addition.isFor m.key m.objectType.name) with
  | nil => simp [has, Addition.merge] at hfor
  | cons a rest =>
    rw [has, Addition.merge] at hfor
    exact ⟨a, rest, rfl, by simpa using hfor⟩

/-! ### Merged fields -/

structure MergedField.CollectedFrom (fragments : List Fragment) (sets : List (List Selection))
    (ts : List NamedType) (m : MergedField) : Prop where
  type_mem : m.objectType ∈ ts
  first : ∃ n, m.nodes.head? = some n ∧ m.objectType.field? n.name = some m.definition
  key_eq : ∀ n ∈ m.nodes, n.key = m.key
  selected : ∀ n ∈ m.nodes, ∃ selections ∈ sets, Selects fragments selections n

namespace Collector

theorem selects_of_mem_visitsOf {c : Collector} {parent t : NamedType} {selections : List Selection}
    {n : Field} (h : n ∈ (c.visitsOf parent selections).flatMap (Visit.nodesFor t)) :
    Selects c.fragments selections n := by
  obtain ⟨i, hi, -, hreach⟩ := exists_reaches_of_mem h
  obtain ⟨s, hs, rfl⟩ := List.mem_map.1 hi
  exact hreach.selects.mono (by simpa using hs)

theorem collectFields_collectedFrom {c : Collector} {sets : List (List Selection)}
    {ts : List NamedType} {parent : NamedType} {ms : List MergedField}
    (h : c.collectFields sets (some ts) parent = .ok ms) :
    ∀ m ∈ ms, m.CollectedFrom c.fragments sets ts := by
  obtain ⟨-, rfl⟩ := collectFields_eq_ok_iff.1 h
  intro m hm
  obtain ⟨a, rest, hfilter, hmerge⟩ := exists_merge_of_mem hm
  -- every node of the field is that of an addition for its key
  have hadded : ∀ b ∈ a :: rest, b.key = m.key ∧ ∃ selections ∈ sets,
      ∃ x ∈ c.visitsOf parent selections, b ∈ x.additions (some ts) := by
    intro b hb
    obtain ⟨hmem, hfor⟩ := List.mem_filter.1 (hfilter ▸ hb)
    obtain ⟨x, hx, hbx⟩ := List.mem_flatMap.1 hmem
    obtain ⟨selections, hsel, hx⟩ := List.mem_flatMap.1 hx
    simp only [Addition.isFor, Bool.and_eq_true, decide_eq_true_eq] at hfor
    exact ⟨hfor.1, selections, hsel, x, hx, hbx⟩
  have hnodes : ∀ n ∈ m.nodes, ∃ b ∈ a :: rest, b.node = n := by
    intro n hn
    rw [hmerge] at hn
    exact List.mem_map.1 hn
  obtain ⟨-, -, -, x, -, hax⟩ := hadded a List.mem_cons_self
  obtain ⟨-, htype, hdef, -⟩ := Visit.mem_additions hax
  constructor
  · rw [hmerge]
    exact htype
  · rw [hmerge]
    exact ⟨a.node, rfl, hdef⟩
  · intro n hn
    obtain ⟨b, hb, rfl⟩ := hnodes n hn
    obtain ⟨hkey, -, -, y, -, hby⟩ := hadded b hb
    rw [← hkey, (Visit.mem_additions hby).1]
  · intro n hn
    obtain ⟨b, hb, rfl⟩ := hnodes n hn
    obtain ⟨-, selections, hsel, y, hy, hby⟩ := hadded b hb
    have hnode := (Visit.mem_additions hby).2.2.2
    exact ⟨selections, hsel, selects_of_mem_visitsOf (List.mem_flatMap.2 ⟨y, hy, hnode⟩)⟩

theorem nodup_collectFields {c : Collector} {sets : List (List Selection)} {possible : TypeSet}
    {parent : NamedType} {ms : List MergedField}
    (h : c.collectFields sets possible parent = .ok ms) :
    (ms.map fun m => (m.key, m.objectType.name)).Nodup := by
  obtain ⟨-, rfl⟩ := collectFields_eq_ok_iff.1 h
  exact FieldGroups.nodup_toList_addAll _

theorem possibleTypes_eq_ok {c : Collector} {t : NamedType} {pos : Option Position}
    {ts : List NamedType} (h : c.possibleTypes t pos = .ok ts) : c.schema.possibleTypes t = .ok ts := by
  unfold possibleTypes at h
  split at h
  · cases hts : c.schema.possibleTypes t with
    | error e => simp [hts] at h
    | ok _ => simpa [hts] using h
  · cases h

/-- The fields below a merged field: none if it returns a leaf type, and else those collected for the
possible types of the type that it returns. -/
theorem childFields_eq_ok {c : Collector} {m : MergedField} {ms : List MergedField}
    (h : c.childFields m = .ok ms) :
    ∃ t, c.schema.type? m.definition.type.baseName = some t ∧
      ((t.kind.isLeaf ∧ ms = []) ∨
        ∃ ts, c.schema.possibleTypes t = .ok ts ∧
          c.collectFields (m.nodes.map (·.selections)) (some ts) t = .ok ms) := by
  unfold childFields at h
  cases ht : c.schema.type? m.definition.type.baseName with
  | none => simp [ht] at h
  | some t =>
    refine ⟨t, rfl, ?_⟩
    simp only [ht] at h
    split at h
    · next hleaf =>
      cases h
      exact .inl ⟨hleaf, rfl⟩
    · cases hts : c.possibleTypes t m.pos? with
      | error e => simp [hts] at h
      | ok ts =>
        rw [hts] at h
        exact .inr ⟨ts, possibleTypes_eq_ok hts, h⟩

theorem childFields_of_isLeaf {c : Collector} {m : MergedField} {t : NamedType}
    (ht : c.schema.type? m.definition.type.baseName = some t) (hleaf : t.kind.isLeaf) :
    c.childFields m = .ok [] := by
  simp [childFields, ht, hleaf]

/-- A field below a merged field is collected from the selection sets of its nodes. -/
theorem childFields_collectedFrom {c : Collector} {m m' : MergedField} {ms : List MergedField}
    (h : c.childFields m = .ok ms) (hm : m' ∈ ms) :
    ∃ t ts, c.schema.type? m.definition.type.baseName = some t ∧
      c.schema.possibleTypes t = .ok ts ∧
      m'.CollectedFrom c.fragments (m.nodes.map (·.selections)) ts := by
  obtain ⟨t, ht, ⟨-, rfl⟩ | ⟨ts, hts, hms⟩⟩ := childFields_eq_ok h
  · cases hm
  · exact ⟨t, ts, ht, hts, collectFields_collectedFrom hms m' hm⟩

theorem nodup_childFields {c : Collector} {m : MergedField} {ms : List MergedField}
    (h : c.childFields m = .ok ms) : (ms.map fun m => (m.key, m.objectType.name)).Nodup := by
  obtain ⟨t, -, ⟨-, rfl⟩ | ⟨ts, -, hms⟩⟩ := childFields_eq_ok h
  · exact List.nodup_nil
  · exact nodup_collectFields hms

end Collector

end OperationGraph
