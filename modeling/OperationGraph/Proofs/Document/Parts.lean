import OperationGraph.Analysis.Operation

/-! # The parts of a document

The selections of a document are those of its operations and fragments, with all selections inside them:
below fields, and in fragments written in place. -/

namespace OperationGraph

namespace Selection

mutual

def parts : Selection → List Selection
  | .field ⟨key, name, arguments, ds, selections, pos⟩ =>
    .field ⟨key, name, arguments, ds, selections, pos⟩ :: partsOf selections
  | .inline condition ds selections pos => .inline condition ds selections pos :: partsOf selections
  | .spread name ds pos => [.spread name ds pos]

def partsOf : List Selection → List Selection
  | [] => []
  | s :: rest => s.parts ++ partsOf rest

end

/-- What stands below a field or in a fragment written in place. -/
def inner : Selection → List Selection
  | .field n => n.selections
  | .inline _ _ selections _ => selections
  | .spread .. => []

theorem parts_eq (s : Selection) : s.parts = s :: partsOf s.inner := by
  cases s with
  | field n => simp [parts, inner]
  | inline condition ds selections pos => simp [parts, inner]
  | spread name ds pos => simp [parts, partsOf, inner]

theorem partsOf_eq_flatMap (selections : List Selection) :
    partsOf selections = selections.flatMap parts := by
  induction selections with
  | nil => rw [partsOf, List.flatMap_nil]
  | cons s rest ih => rw [partsOf, ih, List.flatMap_cons]

theorem mem_parts_self (s : Selection) : s ∈ s.parts := by
  rw [parts_eq]
  exact List.mem_cons_self

theorem subset_partsOf (selections : List Selection) : selections ⊆ partsOf selections := by
  intro s hs
  rw [partsOf_eq_flatMap]
  exact List.mem_flatMap.2 ⟨s, hs, mem_parts_self s⟩

mutual

/-- What is inside a part is inside the whole. -/
theorem partsOf_inner_sublist_parts {s : Selection} (t : Selection) (h : s ∈ t.parts) :
    (partsOf s.inner).Sublist t.parts := by
  match t with
  | .field ⟨key, name, arguments, ds, selections, pos⟩ =>
    rw [parts] at h ⊢
    rcases List.mem_cons.1 h with rfl | h
    · exact List.sublist_cons_self _ _
    · exact (partsOf_inner_sublist selections h).cons _
  | .inline condition ds selections pos =>
    rw [parts] at h ⊢
    rcases List.mem_cons.1 h with rfl | h
    · exact List.sublist_cons_self _ _
    · exact (partsOf_inner_sublist selections h).cons _
  | .spread name ds pos =>
    rw [parts] at h
    rw [List.mem_singleton.1 h, inner, partsOf]
    exact List.nil_sublist _

theorem partsOf_inner_sublist {s : Selection} (selections : List Selection)
    (h : s ∈ partsOf selections) : (partsOf s.inner).Sublist (partsOf selections) := by
  match selections with
  | [] => simp [partsOf] at h
  | t :: rest =>
    rw [partsOf] at h ⊢
    rcases List.mem_append.1 h with h | h
    · exact (partsOf_inner_sublist_parts t h).trans (List.sublist_append_left _ _)
    · exact (partsOf_inner_sublist rest h).trans (List.sublist_append_right _ _)

end

end Selection

namespace Document

/-- The selection sets that stand at the top of operations and fragments. -/
def selectionSets (doc : Document) : List (List Selection) :=
  doc.operations.map (·.selections) ++ doc.fragments.map (·.selections)

def selections (doc : Document) : List Selection := doc.selectionSets.flatMap Selection.partsOf

variable {doc : Document}

theorem subset_selections {selections : List Selection} (h : selections ∈ doc.selectionSets) :
    selections ⊆ doc.selections :=
  fun _ hs => List.mem_flatMap.2 ⟨selections, h, Selection.subset_partsOf selections hs⟩

theorem operation_subset_selections {op : Operation} (h : op ∈ doc.operations) :
    op.selections ⊆ doc.selections :=
  subset_selections (List.mem_append_left _ (List.mem_map_of_mem h))

theorem mem_operations_of_operation {name : String} {op : Operation}
    (h : doc.operation name = .ok op) : op ∈ doc.operations := by
  unfold operation at h
  split at h
  · split at h
    · next op' hfind =>
      cases h
      exact List.mem_of_find?_eq_some hfind
    · cases h
  · split at h
    · cases h
    · next op' hops =>
      cases h
      rw [hops]
      exact List.mem_cons_self
    · cases h

theorem fragment_subset_selections {f : Fragment} (h : f ∈ doc.fragments) :
    f.selections ⊆ doc.selections :=
  subset_selections (List.mem_append_right _ (List.mem_map_of_mem h))

theorem inner_subset_selections {s : Selection} (h : s ∈ doc.selections) :
    s.inner ⊆ doc.selections := by
  obtain ⟨selections, hmem, hs⟩ := List.mem_flatMap.1 h
  intro t ht
  refine List.mem_flatMap.2 ⟨selections, hmem, ?_⟩
  exact (Selection.partsOf_inner_sublist selections hs).subset (Selection.subset_partsOf _ ht)

end Document

end OperationGraph
