import OperationGraph.Proofs.Document.Parts
import OperationGraph.Proofs.Schema.Closed
import OperationGraph.Proofs.Selection.Origin

/-! # What can be wrong with selections

Collecting comes to nodes and faults that stand in the document. In a closed schema it fails only at a
field that a type lacks, at a fragment that is not there, or at a condition whose type is not there or
cannot be selected on (`collectFields_fault`). -/

namespace OperationGraph

/-- What is wrong with a selection of a document: the errors of a field that a type lacks, of a fragment
that is not there, and of a condition, in place or of a fragment, whose type is not there or cannot be
selected on. -/
inductive SelectionFault (s : Schema) (doc : Document) : AnalysisError → Prop
  | unknownField {n : Field} {t parent : NamedType} (hn : .field n ∈ doc.selections)
      (hmeta : isMetaName n.name = false) (ht : t ∈ s.types) (hf : t.field? n.name = none) :
      SelectionFault s doc (.at_ n.pos (.unknownField n.name t.name parent.name))
  | unknownFragment {name ds pos} (hs : .spread name ds pos ∈ doc.selections)
      (hf : doc.fragment? name = none) :
      SelectionFault s doc (.at_ pos (.unknownFragment name))
  | unknownInline {name ds body pos} (hs : .inline (some name) ds body pos ∈ doc.selections)
      (ht : s.type? name = none) :
      SelectionFault s doc (.at_ pos (.unknownType name))
  | leafInline {name ds body pos t} (hs : .inline (some name) ds body pos ∈ doc.selections)
      (ht : s.type? name = some t) (hk : t.kind.isComposite = false) :
      SelectionFault s doc (.at_ pos (.notComposite t.name t.kind))
  | unknownCondition {f : Fragment} (hf : f ∈ doc.fragments) (ht : s.type? f.condition = none) :
      SelectionFault s doc (.at_ f.pos (.unknownType f.condition))
  | leafCondition {f : Fragment} {t : NamedType} (hf : f ∈ doc.fragments)
      (ht : s.type? f.condition = some t) (hk : t.kind.isComposite = false) :
      SelectionFault s doc (.at_ f.pos (.notComposite t.name t.kind))

/-! ### Errors of adding -/

/-- A node fails at a type that lacks its field. -/
theorem Collector.addField_eq_error {n : Field} {parent : NamedType} {ts : List NamedType}
    {g : FieldGroups} {e : AnalysisError} (h : addField n parent ts g = .error e) :
    isMetaName n.name = false ∧ ∃ t ∈ ts, t.field? n.name = none ∧
      e = .at_ n.pos (.unknownField n.name t.name parent.name) := by
  induction ts generalizing g with
  | nil => cases h
  | cons t rest ih =>
    rw [addField] at h
    cases hf : t.field? n.name with
    | some f =>
      rw [hf] at h
      obtain ⟨hmeta, u, hu, herror⟩ := ih h
      exact ⟨hmeta, u, List.mem_cons_of_mem t hu, herror⟩
    | none =>
      simp only [hf] at h
      split at h
      · cases h
      · next hmeta =>
        cases h
        exact ⟨by simpa using hmeta, t, List.mem_cons_self, hf, rfl⟩

/-- Visits fail at a fault, or at a node for a type that lacks its field. -/
theorem Visit.addAll_eq_error {possible : TypeSet} {xs : List Visit} {g : FieldGroups}
    {e : AnalysisError} (h : addAll possible xs g = .error e) :
    .fault e ∈ xs ∨ ∃ p n, .node p n ∈ xs ∧ isMetaName n.name = false ∧
      ∃ t ∈ (possible.within p).toList, t.field? n.name = none ∧
        e = .at_ n.pos (.unknownField n.name t.name p.parent.name) := by
  fun_induction addAll possible xs g with
  | case1 g => cases h
  | case2 e' rest g =>
    cases h
    exact .inl List.mem_cons_self
  | case3 p n rest g e' hadd =>
    cases h
    exact .inr ⟨p, n, List.mem_cons_self, Collector.addField_eq_error hadd⟩
  | case4 p n rest g g' hadd ih =>
    rcases ih h with hfault | ⟨q, m, hnode, herror⟩
    · exact .inl (List.mem_cons_of_mem _ hfault)
    · exact .inr ⟨q, m, List.mem_cons_of_mem _ hnode, herror⟩

/-! ### Visits stand in the document -/

/-- A visit of a node of a document, or of a fault at one of its selections. -/
def Visit.StandsIn (c : Collector) (doc : Document) : Visit → Prop
  | .node _ n => .field n ∈ doc.selections
  | .fault e => ∃ v, ∃ s ∈ doc.selections, c.opening v s = .fault e

namespace Collector
variable {c : Collector} {doc : Document}

theorem opens_subset_selections (hdoc : c.fragments = doc.fragments) {v : List String} {s : Selection}
    {sc : Scope} {body : List Selection} (hs : s ∈ doc.selections) (h : Opens c v s sc body) :
    body ⊆ doc.selections := by
  cases h with
  | plain hi => exact Document.inner_subset_selections hs
  | narrowed hi hg => exact Document.inner_subset_selections hs
  | fragment hi hv hf hg =>
    apply Document.fragment_subset_selections
    exact hdoc ▸ List.mem_of_find?_eq_some hf

/-- A walk over selections of a document does not leave it. -/
theorem visits_standIn (hdoc : c.fragments = doc.fragments) (items : List (Place × Selection))
    (v : List String) (hitems : ∀ i ∈ items, i.2 ∈ doc.selections) :
    ∀ x ∈ (c.visits items v).1, x.StandsIn c doc := by
  fun_induction visits c items v with
  | case1 v => exact fun x hx => absurd hx List.not_mem_nil
  | case2 p s rest v ho ih => exact ih (List.forall_mem_cons.1 hitems).2
  | case3 p s rest v n ho ih =>
    obtain ⟨hs, hrest⟩ := List.forall_mem_cons.1 hitems
    obtain ⟨rfl, -⟩ := opening_eq_node ho
    exact List.forall_mem_cons.2 ⟨hs, ih hrest⟩
  | case4 p s rest v e ho ih =>
    obtain ⟨hs, hrest⟩ := List.forall_mem_cons.1 hitems
    exact List.forall_mem_cons.2 ⟨⟨v, s, hs, ho⟩, ih hrest⟩
  | case5 p s rest v sc body ho ih =>
    obtain ⟨hs, hrest⟩ := List.forall_mem_cons.1 hitems
    have hbody := opens_subset_selections hdoc hs (opening_eq_body_iff.1 ho)
    apply ih
    exact List.forall_mem_append.2 ⟨List.forall_mem_map.2 fun t ht => hbody ht, hrest⟩

theorem visitsOf_standIn (hdoc : c.fragments = doc.fragments) (parent : NamedType)
    {selections : List Selection} (hsel : selections ⊆ doc.selections) :
    ∀ x ∈ c.visitsOf parent selections, x.StandsIn c doc :=
  visits_standIn hdoc _ [] (List.forall_mem_map.2 fun _ hs => hsel hs)

/-! ### Errors of conditions -/

/-- In a closed schema a condition fails if its type is not there or cannot be selected on. -/
theorem guard_eq_error (hs : c.schema.Closed) {name : String} {pos : Position} {e : AnalysisError}
    (h : c.guard name pos = .error e) :
    c.schema.type? name = none ∧ e = .at_ pos (.unknownType name) ∨
      ∃ t, c.schema.type? name = some t ∧ t.kind.isComposite = false ∧
        e = .at_ pos (.notComposite t.name t.kind) := by
  unfold guard conditionType at h
  cases ht : c.schema.type? name with
  | none =>
    rw [ht] at h
    cases h
    exact .inl ⟨rfl, rfl⟩
  | some t =>
    rw [ht] at h
    refine .inr ⟨t, rfl, ?_⟩
    cases hk : t.kind.isComposite with
    | false =>
      simp only [possibleTypes, hk, Bool.false_eq_true, if_false, Except.error.injEq] at h
      exact ⟨rfl, h.symm⟩
    | true =>
      obtain ⟨ts, hts⟩ := hs.exists_possibleTypes (Schema.mem_types_of_type? ht) hk
      simp [possibleTypes, hk, hts] at h

theorem fault_of_opening (hs : c.schema.Closed) (hdoc : c.fragments = doc.fragments)
    {v : List String} {s : Selection} {e : AnalysisError} (hmem : s ∈ doc.selections)
    (h : c.opening v s = .fault e) : SelectionFault c.schema doc e := by
  rcases opening_eq_fault h with
    ⟨name, ds, body, pos, rfl, hg⟩ | ⟨name, ds, pos, rfl, ⟨hf, rfl⟩ | ⟨f, hf, hg⟩⟩
  · rcases guard_eq_error hs hg with ⟨ht, rfl⟩ | ⟨t, ht, hk, rfl⟩
    · exact .unknownInline hmem ht
    · exact .leafInline hmem ht hk
  · exact .unknownFragment hmem (by rw [Document.fragment?, ← hdoc]; exact hf)
  · have hfragment : f ∈ doc.fragments := hdoc ▸ List.mem_of_find?_eq_some hf
    rcases guard_eq_error hs hg with ⟨ht, rfl⟩ | ⟨t, ht, hk, rfl⟩
    · exact .unknownCondition hfragment ht
    · exact .leafCondition hfragment ht hk

/-! ### Errors of collecting -/

/-- Collecting from selection sets of a document fails only with what is wrong with a selection. -/
theorem collectFields_fault (hs : c.schema.Closed) (hdoc : c.fragments = doc.fragments)
    {sets : List (List Selection)} {ts : List NamedType} {parent : NamedType} {e : AnalysisError}
    (hsets : ∀ selections ∈ sets, selections ⊆ doc.selections) (hts : ts ⊆ c.schema.types)
    (h : c.collectFields sets (some ts) parent = .error e) : SelectionFault c.schema doc e := by
  have hvisits : ∀ x ∈ sets.flatMap (c.visitsOf parent), x.StandsIn c doc := by
    intro x hx
    obtain ⟨selections, hmem, hx⟩ := List.mem_flatMap.1 hx
    exact visitsOf_standIn hdoc parent (hsets selections hmem) x hx
  have hadd : Visit.addAll (some ts) (sets.flatMap (c.visitsOf parent)) [] = .error e := by
    rw [collectFields, collectGroups_eq_visits] at h
    cases hall : Visit.addAll (some ts) (sets.flatMap (c.visitsOf parent)) [] with
    | error e' => simpa [hall] using h
    | ok g => simp [hall] at h
  rcases Visit.addAll_eq_error hadd with hfault | ⟨p, n, hnode, hmeta, t, ht, hf, rfl⟩
  · obtain ⟨v, s, hmem, ho⟩ := hvisits _ hfault
    exact fault_of_opening hs hdoc hmem ho
  · rw [within_some] at ht
    exact .unknownField (hvisits _ hnode) hmeta (hts (List.mem_filter.1 ht).1) hf

end Collector

end OperationGraph
