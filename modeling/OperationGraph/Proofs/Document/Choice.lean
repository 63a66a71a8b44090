import OperationGraph.Analysis.Operation
import OperationGraph.Document.Parser
import OperationGraph.Proofs.Success

/-! # Which operation is meant

An analysis selects the operation of the given name, and without a name it asks for a document with one
operation only. What is reported of an analysis is the kind of the operation that is found by name, where
the empty name finds an operation that has none. Both mean the same operation, unless no name is given and
an operation without a name stands among others: then nothing is selected, and yet a kind is reported
(`Document.operationType_agrees_iff`). -/

namespace OperationGraph

theorem OperationType.text_ne_empty (t : OperationType) : t.text ≠ "" := by
  cases t <;> decide

namespace Document
variable {doc : Document} {name : String}

/-- No name is given, and an operation without a name stands among others. -/
def Ambiguous (doc : Document) (name : String) : Prop :=
  name = "" ∧ 2 ≤ doc.operations.length ∧ ∃ op ∈ doc.operations, op.name = ""

/-- The kind of the operation that is selected; empty if none is. -/
def selectedType (doc : Document) (name : String) : String :=
  match doc.operation name with
  | .ok op => op.type.text
  | .error _ => ""

/-! ### By name -/

theorem operation_of_find? (hname : name ≠ "") {op : Operation}
    (h : doc.operations.find? (·.name = name) = some op) : doc.operation name = .ok op := by
  rw [operation, if_pos hname, h]

theorem operation_of_find?_eq_none (hname : name ≠ "")
    (h : doc.operations.find? (·.name = name) = none) :
    doc.operation name = .error { fault := .unknownOperation name } := by
  rw [operation, if_pos hname, h]

/-- The kind is that of the first operation of the name, unless the only operation is meant. -/
theorem operationType_eq_find? (h : ¬ (name = "" ∧ doc.operations.length = 1)) :
    doc.operationType name =
      ((doc.operations.find? (·.name = name)).map (·.type.text)).getD "" := by
  unfold operationType
  split
  · next op hops => exact absurd ⟨rfl, by simp [hops]⟩ h
  · generalize doc.operations.find? _ = found
    cases found <;> rfl

theorem operationType_of_name (hname : name ≠ "") :
    doc.operationType name = doc.selectedType name := by
  rw [operationType_eq_find? fun h => hname h.1, selectedType]
  cases h : doc.operations.find? (·.name = name) with
  | none => rw [operation_of_find?_eq_none hname h]; rfl
  | some op => rw [operation_of_find? hname h]; rfl

/-! ### Without a name -/

theorem operation_of_single {op : Operation} (hops : doc.operations = [op]) :
    doc.operation "" = .ok op := by
  simp [operation, hops]

theorem operation_of_several (h : 2 ≤ doc.operations.length) :
    ∃ e, doc.operation "" = .error e := by
  rw [operation, if_neg (by simp)]
  split
  · exact ⟨_, rfl⟩
  · next op hops => simp [hops] at h
  · exact ⟨_, rfl⟩

theorem operationType_of_several (h : 2 ≤ doc.operations.length) :
    doc.operationType "" = ((doc.operations.find? (·.name = "")).map (·.type.text)).getD "" :=
  operationType_eq_find? fun hone => by omega

/-- Among several operations the first one without a name is reported. -/
theorem exists_unnamed_of_ambiguous (h : doc.Ambiguous name) :
    ∃ op, doc.operations.find? (·.name = "") = some op ∧ doc.operationType name = op.type.text := by
  obtain ⟨rfl, hseveral, op, hop, hname⟩ := h
  obtain ⟨first, hfirst⟩ : ∃ first, doc.operations.find? (·.name = "") = some first :=
    Option.isSome_iff_exists.1 (List.find?_isSome.2 ⟨op, hop, by simpa using hname⟩)
  refine ⟨first, hfirst, ?_⟩
  rw [operationType_of_several hseveral, hfirst, Option.map_some, Option.getD_some]

theorem operationType_of_ambiguous (h : doc.Ambiguous name) : doc.operationType name ≠ "" := by
  obtain ⟨op, -, hop⟩ := exists_unnamed_of_ambiguous h
  rw [hop]
  exact op.type.text_ne_empty

theorem operationType_of_not_ambiguous (h : ¬ doc.Ambiguous name) :
    doc.operationType name = doc.selectedType name := by
  by_cases hname : name = ""
  case neg => exact operationType_of_name hname
  subst hname
  match hops : doc.operations with
  | [] => simp [operationType, selectedType, operation, hops]
  | [op] =>
    rw [selectedType, operation_of_single hops]
    simp [operationType, hops]
  | first :: second :: rest =>
    have hseveral : 2 ≤ doc.operations.length := by simp [hops]
    have hnone : doc.operations.find? (·.name = "") = none := by
      rw [List.find?_eq_none]
      intro op hop hempty
      exact h ⟨rfl, hseveral, op, hop, of_decide_eq_true hempty⟩
    obtain ⟨e, he⟩ := operation_of_several hseveral
    rw [operationType_of_several hseveral, hnone, selectedType, he]
    rfl

theorem exists_error_of_ambiguous (h : doc.Ambiguous name) : ∃ e, doc.operation name = .error e := by
  obtain ⟨rfl, hseveral, -⟩ := h
  exact operation_of_several hseveral

theorem selectedType_eq_empty_iff : doc.selectedType name = "" ↔ ∃ e, doc.operation name = .error e := by
  unfold selectedType
  cases doc.operation name with
  | ok op => simp [op.type.text_ne_empty]
  | error e => simp

/-- What is reported of an operation that is selected is its kind. What is reported agrees with the
selection, and is empty exactly if no operation is selected, for all documents and names but those where no
name is given and an operation without a name stands among others. There the kind of the first such
operation is reported. -/
theorem operationType_agrees_iff (doc : Document) (name : String) :
    (∀ op, doc.operation name = .ok op → doc.operationType name = op.type.text) ∧
      (doc.operationType name = doc.selectedType name ↔ ¬ doc.Ambiguous name) ∧
      ((doc.operationType name = "" ↔ ∃ e, doc.operation name = .error e) ↔ ¬ doc.Ambiguous name) ∧
      (doc.Ambiguous name → ∃ op, doc.operations.find? (·.name = "") = some op ∧
        doc.operationType name = op.type.text) := by
  have hreported (h : doc.Ambiguous name) : doc.operationType name ≠ doc.selectedType name := by
    rw [selectedType_eq_empty_iff.2 (exists_error_of_ambiguous h)]
    exact operationType_of_ambiguous h
  refine ⟨?_, ?_, ?_, ?_⟩
  · intro op hop
    have hclear : ¬ doc.Ambiguous name := by
      intro h
      obtain ⟨e, he⟩ := exists_error_of_ambiguous h
      rw [hop] at he
      cases he
    rw [operationType_of_not_ambiguous hclear, selectedType, hop]
  · exact ⟨fun heq h => hreported h heq, operationType_of_not_ambiguous⟩
  · constructor
    · intro hiff h
      exact operationType_of_ambiguous h (hiff.2 (exists_error_of_ambiguous h))
    · intro h
      rw [operationType_of_not_ambiguous h, selectedType_eq_empty_iff]
  · exact exists_unnamed_of_ambiguous

/-- A document that can be read, of which no operation is selected and yet a query is reported. -/
theorem exists_operationType_of_unselected :
    ∃ doc, parse "{ a } query Q { a }" = .ok doc ∧ (∃ e, doc.operation "" = .error e) ∧
      doc.operationType "" = "query" := by
  have hread : (parse "{ a } query Q { a }").toOption.any
      (fun doc => doc.operations.length = 2 && doc.operationType "" = "query") = true := by
    decide +kernel
  obtain ⟨doc, hdoc, htest⟩ := (Option.any_eq_true _ _).1 hread
  rw [Bool.and_eq_true, decide_eq_true_eq, decide_eq_true_eq] at htest
  exact ⟨doc, eq_ok_of_toOption hdoc, operation_of_several (Nat.le_of_eq htest.1.symm), htest.2⟩

end Document

end OperationGraph
