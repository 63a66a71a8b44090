import Mathlib.Data.List.Induction
import Mathlib.Data.List.Nodup
import OperationGraph.Selection.MergedField

/-! # Groups as sequences of additions

Groups are made by adding nodes one after another. The merged field of a key and an object type is made
of the additions with that key and that type alone, in their order. -/

namespace OperationGraph

/-- A node that is added under a key to an object type. -/
structure Addition where
  key : String
  type : NamedType
  definition : OutputField
  node : Field

namespace Addition

def isFor (key type : String) (a : Addition) : Bool := a.key = key && a.type.name = type

/-- The merged field of additions for one key and one object type; the first one counts for all but
the nodes. -/
def merge : List Addition → Option MergedField
  | [] => none
  | a :: as =>
    some { key := a.key, nodes := a.node :: as.map (·.node), objectType := a.type,
           definition := a.definition }

end Addition

def MergedField.isFor (key type : String) (m : MergedField) : Bool :=
  m.key = key && m.objectType.name = type

namespace FieldGroups

def addAll (g : FieldGroups) (as : List Addition) : FieldGroups :=
  as.foldl (fun g a => g.add a.key a.type a.definition a.node) g

@[simp] theorem addAll_nil (g : FieldGroups) : g.addAll [] = g := rfl

@[simp] theorem addAll_cons (g : FieldGroups) (a : Addition) (as : List Addition) :
    g.addAll (a :: as) = (g.add a.key a.type a.definition a.node).addAll as := rfl

theorem addAll_append (g : FieldGroups) (as bs : List Addition) :
    g.addAll (as ++ bs) = (g.addAll as).addAll bs := by
  simp [addAll]

/-- No two groups have the same key, and the merged fields of a group have its key. -/
structure WellFormed (g : FieldGroups) : Prop where
  keys_nodup : (g.map (·.1)).Nodup
  key_eq : ∀ p ∈ g, ∀ m ∈ p.2, m.key = p.1

theorem WellFormed.nil : WellFormed [] := ⟨List.nodup_nil, by simp⟩

theorem key_eq_of_mem_addTyped {key : String} {t : NamedType} {f : OutputField} {node : Field}
    {ms : List MergedField} (h : ∀ m ∈ ms, m.key = key) :
    ∀ m ∈ addTyped key t f node ms, m.key = key := by
  induction ms with
  | nil => simp [addTyped]
  | cons n rest ih =>
    simp only [List.mem_cons, forall_eq_or_imp] at h
    unfold addTyped
    split
    · simpa using h
    · simpa using ⟨h.1, ih h.2⟩

theorem mem_keys_add {key k : String} {t : NamedType} {f : OutputField} {node : Field}
    {g : FieldGroups} : k ∈ (g.add key t f node).map (·.1) ↔ k = key ∨ k ∈ g.map (·.1) := by
  induction g with
  | nil => simp [add]
  | cons p rest ih =>
    unfold add
    split
    · next hk => simp only [List.map_cons, List.mem_cons, ← hk]; tauto
    · simp only [List.map_cons, List.mem_cons, ih]; tauto

theorem WellFormed.add {g : FieldGroups} (h : g.WellFormed) (key : String) (t : NamedType)
    (f : OutputField) (node : Field) : (g.add key t f node).WellFormed := by
  induction g with
  | nil => exact ⟨by simp [FieldGroups.add], by simp [FieldGroups.add, addTyped]⟩
  | cons p rest ih =>
    obtain ⟨hnodup, hkey⟩ := h
    simp only [List.map_cons, List.nodup_cons] at hnodup
    simp only [List.mem_cons, forall_eq_or_imp] at hkey
    have hrest := ih ⟨hnodup.2, hkey.2⟩
    unfold FieldGroups.add
    split
    · next hk =>
      refine ⟨by simpa using hnodup, ?_⟩
      simp only [List.mem_cons, forall_eq_or_imp]
      exact ⟨hk ▸ key_eq_of_mem_addTyped (hk ▸ hkey.1), hkey.2⟩
    · next hk =>
      refine ⟨?_, ?_⟩
      · simp only [List.map_cons, List.nodup_cons, mem_keys_add]
        exact ⟨fun hmem => hmem.elim hk hnodup.1, hrest.keys_nodup⟩
      · simp only [List.mem_cons, forall_eq_or_imp]
        exact ⟨hkey.1, hrest.key_eq⟩

theorem WellFormed.addAll {g : FieldGroups} (h : g.WellFormed) (as : List Addition) :
    (g.addAll as).WellFormed := by
  induction as generalizing g with
  | nil => exact h
  | cons a as ih => exact ih (h.add a.key a.type a.definition a.node)

/-- An addition to the merged field in front, which it makes if there is none. -/
def extend (a : Addition) : List MergedField → List MergedField
  | [] => [{ key := a.key, nodes := [a.node], objectType := a.type, definition := a.definition }]
  | m :: rest => { m with nodes := m.nodes ++ [a.node] } :: rest

theorem extend_merge (a : Addition) (as : List Addition) :
    extend a (Addition.merge as).toList = (Addition.merge (as ++ [a])).toList := by
  cases as <;> simp [extend, Addition.merge]

theorem filter_isFor_eq_nil {key type : String} {ms : List MergedField}
    (h : ∀ m ∈ ms, m.key ≠ key) : ms.filter (MergedField.isFor key type) = [] := by
  simp only [List.filter_eq_nil_iff, MergedField.isFor]
  intro m hm
  simp [h m hm]

theorem filter_addTyped (a : Addition) (type : String) (ms : List MergedField)
    (h : ∀ m ∈ ms, m.key = a.key) :
    (addTyped a.key a.type a.definition a.node ms).filter (MergedField.isFor a.key type) =
      if a.type.name = type then extend a (ms.filter (MergedField.isFor a.key type))
      else ms.filter (MergedField.isFor a.key type) := by
  induction ms with
  | nil => by_cases ht : a.type.name = type <;> simp [addTyped, extend, MergedField.isFor, ht]
  | cons m rest ih =>
    simp only [List.mem_cons, forall_eq_or_imp] at h
    unfold addTyped
    by_cases hm : m.objectType.name = a.type.name
    · by_cases ht : a.type.name = type <;>
        simp [hm, ht, h.1, extend, MergedField.isFor]
    · by_cases ht : a.type.name = type
      · have hne : m.objectType.name ≠ type := ht ▸ hm
        simp only [hm, if_false, List.filter_cons, ih h.2]
        simp [ht, hne, MergedField.isFor]
      · simp only [hm, if_false, List.filter_cons, ih h.2, ht]

/-- An addition concerns the merged field of its own key and type, and no other. -/
theorem WellFormed.filter_add {g : FieldGroups} (h : g.WellFormed) (a : Addition)
    (key type : String) :
    (g.add a.key a.type a.definition a.node).toList.filter (MergedField.isFor key type) =
      if a.isFor key type then extend a (g.toList.filter (MergedField.isFor key type))
      else g.toList.filter (MergedField.isFor key type) := by
  induction g with
  | nil =>
    by_cases ha : a.isFor key type <;>
      simp_all [FieldGroups.add, addTyped, toList, extend, MergedField.isFor, Addition.isFor]
  | cons p rest ih =>
    obtain ⟨hnodup, hkey⟩ := h
    simp only [List.map_cons, List.nodup_cons] at hnodup
    simp only [List.mem_cons, forall_eq_or_imp] at hkey
    have hrest := ih ⟨hnodup.2, hkey.2⟩
    unfold FieldGroups.add
    by_cases hk : p.1 = a.key
    · -- the group of the key is the first one, and no later group has a field of that key
      have htail : (FieldGroups.toList rest).filter (MergedField.isFor a.key type) = [] := by
        refine filter_isFor_eq_nil fun m hm hma => hnodup.1 ?_
        obtain ⟨q, hq, hmq⟩ := List.mem_flatMap.1 hm
        exact List.mem_map.2 ⟨q, hq, by rw [← hkey.2 q hq m hmq, hma, hk]⟩
      have hhead : ∀ m ∈ p.2, m.key = a.key := fun m hm => (hkey.1 m hm).trans hk
      simp only [hk, if_true, toList, List.flatMap_cons, List.filter_append]
      by_cases hka : a.key = key
      · subst hka
        change _ ++ (FieldGroups.toList rest).filter _ = if _ then extend a (_ ++
          (FieldGroups.toList rest).filter _) else _ ++ (FieldGroups.toList rest).filter _
        rw [htail, filter_addTyped a type p.2 hhead]
        by_cases ht : a.type.name = type <;> simp [Addition.isFor, ht]
      · have hother : ∀ m ∈ addTyped a.key a.type a.definition a.node p.2, m.key ≠ key :=
          fun m hm => (key_eq_of_mem_addTyped hhead m hm).trans_ne hka
        have hother' : ∀ m ∈ p.2, m.key ≠ key := fun m hm => (hhead m hm).trans_ne hka
        simp [filter_isFor_eq_nil hother, filter_isFor_eq_nil hother', Addition.isFor, hka]
    · simp only [hk, if_false, toList, List.flatMap_cons, List.filter_append] at hrest ⊢
      rw [hrest]
      by_cases ha : a.isFor key type
      · have hka : a.key = key := by
          simp only [Addition.isFor, Bool.and_eq_true, decide_eq_true_eq] at ha
          exact ha.1
        have hhead : p.2.filter (MergedField.isFor key type) = [] :=
          filter_isFor_eq_nil fun m hm hmk => hk (by rw [← hkey.1 m hm, hmk, hka])
        simp [ha, hhead]
      · simp [ha]

/-- The merged field of a key and an object type is made of the additions for them. -/
theorem filter_toList_addAll (as : List Addition) (key type : String) :
    (addAll [] as).toList.filter (MergedField.isFor key type) =
      (Addition.merge (as.filter (Addition.isFor key type))).toList := by
  induction as using List.reverseRecOn with
  | nil => rfl
  | append_singleton as a ih =>
    have hadd : addAll [] (as ++ [a]) =
        (addAll [] as).add a.key a.type a.definition a.node := addAll_append [] as [a]
    rw [hadd, (WellFormed.nil.addAll as).filter_add, ih, List.filter_append]
    by_cases ha : a.isFor key type
    · simp [ha, extend_merge]
    · simp [ha]

/-- There is one merged field at most for a key and an object type. -/
theorem nodup_toList_addAll (as : List Addition) :
    ((addAll [] as).toList.map fun m => (m.key, m.objectType.name)).Nodup := by
  rw [List.nodup_iff_count_le_one]
  rintro ⟨key, type⟩
  have hcount : ((addAll [] as).toList.map fun m => (m.key, m.objectType.name)).count (key, type) =
      ((addAll [] as).toList.filter (MergedField.isFor key type)).length := by
    rw [List.count, List.countP_map, ← List.countP_eq_length_filter]
    rfl
  rw [hcount, filter_toList_addAll]
  cases Addition.merge (as.filter (Addition.isFor key type)) <;> simp

def nodeCount : List MergedField → Nat
  | [] => 0
  | m :: rest => m.nodes.length + nodeCount rest

theorem nodeCount_append (ms ns : List MergedField) :
    nodeCount (ms ++ ns) = nodeCount ms + nodeCount ns := by
  induction ms with
  | nil => simp [nodeCount]
  | cons m rest ih =>
    simp only [List.cons_append, nodeCount, ih]
    omega

theorem nodeCount_addTyped (key : String) (t : NamedType) (f : OutputField) (node : Field)
    (ms : List MergedField) : nodeCount (addTyped key t f node ms) = nodeCount ms + 1 := by
  induction ms with
  | nil => rfl
  | cons m rest ih =>
    unfold addTyped
    split
    · simp only [nodeCount, List.length_append, List.length_singleton]
      omega
    · simp only [nodeCount, ih]
      omega

theorem nodeCount_add (key : String) (t : NamedType) (f : OutputField) (node : Field)
    (g : FieldGroups) : nodeCount (g.add key t f node).toList = nodeCount g.toList + 1 := by
  induction g with
  | nil => rfl
  | cons p rest ih =>
    simp only [toList] at ih
    unfold add
    split
    · simp only [toList, List.flatMap_cons, nodeCount_append, nodeCount_addTyped]
      omega
    · simp only [toList, List.flatMap_cons, nodeCount_append, ih]
      omega

theorem nodeCount_addAll (g : FieldGroups) (as : List Addition) :
    nodeCount (g.addAll as).toList = nodeCount g.toList + as.length := by
  induction as generalizing g with
  | nil => rfl
  | cons a as ih =>
    have h := ih (g.add a.key a.type a.definition a.node)
    rw [nodeCount_add] at h
    simp only [addAll_cons, List.length_cons]
    omega

end FieldGroups

end OperationGraph
