import Mathlib.Data.List.Perm.Basic
import OperationGraph.Proofs.Selection.Visits

/-! # Object types do not interfere

Collecting for several object types at once gives each of them the merged fields that it gets when
fields are collected for it alone. Only the order of the keys may differ. -/

namespace OperationGraph

/-- No field of a schema has a reserved name. -/
def Schema.DeclaresNoMeta (s : Schema) : Prop :=
  ∀ t ∈ s.types, ∀ f ∈ t.fields, isMetaName f.name = false

instance (s : Schema) : Decidable s.DeclaresNoMeta :=
  inferInstanceAs (Decidable (∀ t ∈ s.types, ∀ f ∈ t.fields, isMetaName f.name = false))

structure Schema.ObjectTypes (s : Schema) (ts : List NamedType) : Prop where
  mem : ∀ t ∈ ts, t ∈ s.types
  object : ∀ t ∈ ts, t.kind = .object
  nodup : (ts.map (·.name)).Nodup

theorem Schema.DeclaresNoMeta.field?_eq_none {s : Schema} (hs : s.DeclaresNoMeta) {t : NamedType}
    (ht : t ∈ s.types) {name : String} (hm : isMetaName name) : t.field? name = none := by
  apply List.find?_eq_none.2
  intro f hf he
  have hname : f.name = name := by simpa using he
  have hfalse := hs t ht f hf
  rw [hname, hm] at hfalse
  cases hfalse

def Place.admits (p : Place) (t : NamedType) : Bool :=
  p.guards.all fun admitted => admitted.any (·.name = t.name)

/-- Narrowing by conditions one after another keeps the types that all of them admit. -/
theorem foldl_restrict (guards : List (List NamedType)) (ts : List NamedType) :
    guards.foldl TypeSet.restrict (some ts) =
      some (ts.filter fun t => guards.all fun admitted => admitted.any (·.name = t.name)) := by
  induction guards generalizing ts with
  | nil => simp
  | cons admitted guards ih =>
    rw [List.foldl_cons, TypeSet.restrict, ih, List.filter_filter]
    simp only [List.all_cons, Bool.and_comm]

theorem within_some (ts : List NamedType) (p : Place) :
    TypeSet.within (some ts) p = some (ts.filter p.admits) := foldl_restrict p.guards ts

def Addition.of? (n : Field) (t : NamedType) : Option Addition :=
  (t.field? n.name).map fun f => { key := n.key, type := t, definition := f, node := n }

namespace Visit

theorem attributed_eq_filterMap {n : Field} {ts : List NamedType}
    (h : (∀ t ∈ ts, (t.field? n.name).isSome) ∨ ∀ t ∈ ts, t.field? n.name = none) :
    attributed n ts = ts.filterMap (Addition.of? n) := by
  induction ts with
  | nil => rfl
  | cons t rest ih =>
    simp only [List.mem_cons, forall_eq_or_imp] at h
    rcases h with ⟨ht, hrest⟩ | ⟨ht, hrest⟩
    · obtain ⟨f, hf⟩ := Option.isSome_iff_exists.1 ht
      simp [attributed, Addition.of?, hf, ih (.inl hrest)]
    · have hnone : rest.filterMap (Addition.of? n) = [] :=
        List.filterMap_eq_nil_iff.2 fun u hu => by simp [Addition.of?, hrest u hu]
      simp [attributed, ht, Addition.of?, hnone]

/-- Without reserved fields a node is added for each of the possible types that has it. -/
theorem additions_eq_filterMap {s : Schema} (hs : s.DeclaresNoMeta) {ts : List NamedType}
    (hts : ∀ t ∈ ts, t ∈ s.types) {p : Place} {n : Field}
    (hp : (Visit.node p n).Passes (some ts)) :
    additions (some ts) (.node p n) = (ts.filter p.admits).filterMap (Addition.of? n) := by
  rw [Passes, within_some] at hp
  rw [additions, within_some]
  refine attributed_eq_filterMap ?_
  rcases hp with hm | hall
  · exact .inr fun t ht => hs.field?_eq_none (hts t (List.mem_of_mem_filter ht)) hm
  · exact .inl hall

theorem passes_iff_forall {ts : List NamedType} (hne : ts ≠ []) (x : Visit) :
    x.Passes (some ts) ↔ ∀ t ∈ ts, x.Passes (some [t]) := by
  cases x with
  | fault e =>
    obtain ⟨t, ht⟩ := List.exists_mem_of_ne_nil ts hne
    simp only [Passes, false_iff]
    exact fun h => h t ht
  | node p n =>
    simp only [Passes, within_some, TypeSet.toList, Option.getD_some, List.mem_filter,
      List.mem_singleton]
    by_cases hm : isMetaName n.name
    · simp [hm]
    · simp only [hm, Bool.false_eq_true, false_or]
      constructor
      · rintro h t ht u ⟨rfl, hu⟩
        exact h u ⟨ht, hu⟩
      · rintro h t ⟨ht, htp⟩
        exact h t ht t ⟨rfl, htp⟩

end Visit

theorem filter_name_eq_singleton {ts : List NamedType} (h : (ts.map (·.name)).Nodup) {t : NamedType}
    (ht : t ∈ ts) : (ts.filter fun u => u.name = t.name) = [t] := by
  induction ts with
  | nil => cases ht
  | cons u rest ih =>
    simp only [List.map_cons, List.nodup_cons, List.mem_map, not_exists, not_and] at h
    rcases List.mem_cons.1 ht with rfl | ht
    · have hnone : (rest.filter fun u => u.name = t.name) = [] :=
        List.filter_eq_nil_iff.2 fun u hu => by simpa using h.1 u hu
      simp [hnone]
    · have hne : u.name ≠ t.name := fun he => h.1 t ht he.symm
      simp [hne, ih h.2 ht]

theorem filter_filterMap_of? (n : Field) (type : String) (ts : List NamedType) :
    ((ts.filterMap (Addition.of? n)).filter fun a => a.type.name = type) =
      (ts.filter fun t => t.name = type).filterMap (Addition.of? n) := by
  induction ts with
  | nil => rfl
  | cons t rest ih =>
    cases hf : t.field? n.name <;> by_cases ht : t.name = type <;>
      simp_all [Addition.of?]

/-- At every visit an object type gets what it gets alone. -/
theorem Visit.filter_type_additions {s : Schema} (hs : s.DeclaresNoMeta) {ts : List NamedType}
    (hts : s.ObjectTypes ts) {t : NamedType} (ht : t ∈ ts) {x : Visit}
    (hp : x.Passes (some ts)) :
    ((x.additions (some ts)).filter fun a => a.type.name = t.name) = x.additions (some [t]) := by
  cases x with
  | fault e => rfl
  | node p n =>
    have hpt : (Visit.node p n).Passes (some [t]) :=
      (passes_iff_forall (List.ne_nil_of_mem ht) _).1 hp t ht
    have hmem : ∀ u ∈ [t], u ∈ s.types := by simpa using hts.mem t ht
    rw [additions_eq_filterMap hs hts.mem hp, additions_eq_filterMap hs hmem hpt,
      filter_filterMap_of?, List.filter_comm, filter_name_eq_singleton hts.nodup ht]

theorem filter_type_flatMap_additions {s : Schema} (hs : s.DeclaresNoMeta) {ts : List NamedType}
    (hts : s.ObjectTypes ts) {t : NamedType} (ht : t ∈ ts) {xs : List Visit}
    (hp : ∀ x ∈ xs, x.Passes (some ts)) :
    ((xs.flatMap (Visit.additions (some ts))).filter fun a => a.type.name = t.name) =
      xs.flatMap (Visit.additions (some [t])) := by
  induction xs with
  | nil => rfl
  | cons x rest ih =>
    simp only [List.mem_cons, forall_eq_or_imp] at hp
    rw [List.flatMap_cons, List.flatMap_cons, List.filter_append,
      Visit.filter_type_additions hs hts ht hp.1, ih hp.2]

/-- The merged fields of one object type depend on the additions to it alone. -/
theorem filter_isFor_addAll (as : List Addition) (key type : String) :
    (FieldGroups.addAll [] as).toList.filter (MergedField.isFor key type) =
      (FieldGroups.addAll [] (as.filter fun a => a.type.name = type)).toList.filter
        (MergedField.isFor key type) := by
  rw [FieldGroups.filter_toList_addAll, FieldGroups.filter_toList_addAll, List.filter_filter]
  congr 3
  funext a
  by_cases ha : a.type.name = type <;> simp [Addition.isFor, ha]

/-- Every merged field has the type of one of its additions. -/
theorem exists_addition_of_mem {as : List Addition} {m : MergedField}
    (hm : m ∈ (FieldGroups.addAll [] as).toList) :
    ∃ a ∈ as, a.key = m.key ∧ a.type = m.objectType := by
  have hfor : m ∈ (FieldGroups.addAll [] as).toList.filter
      (MergedField.isFor m.key m.objectType.name) :=
    List.mem_filter.2 ⟨hm, by simp [MergedField.isFor]⟩
  rw [FieldGroups.filter_toList_addAll] at hfor
  cases has : as.filter (Addition.isFor m.key m.objectType.name) with
  | nil => simp [has, Addition.merge] at hfor
  | cons a rest =>
    have ha : a ∈ as := List.mem_of_mem_filter (has ▸ List.mem_cons_self)
    rw [has, Addition.merge] at hfor
    simp only [Option.toList_some, List.mem_singleton] at hfor
    exact ⟨a, ha, by rw [hfor], by rw [hfor]⟩

/-- The merged fields of one object type are those of the additions to it. -/
theorem filter_type_addAll_perm (as : List Addition) (type : String) :
    ((FieldGroups.addAll [] as).toList.filter fun m => m.objectType.name = type).Perm
      (FieldGroups.addAll [] (as.filter fun a => a.type.name = type)).toList := by
  have hleft := (FieldGroups.nodup_toList_addAll as).of_map.filter
    fun m => decide (m.objectType.name = type)
  have hright :=
    (FieldGroups.nodup_toList_addAll (as.filter fun a => a.type.name = type)).of_map
  apply (List.perm_ext_iff_of_nodup hleft hright).2
  intro m
  have hfor : m ∈ (FieldGroups.addAll [] as).toList.filter (MergedField.isFor m.key type) ↔
      m ∈ (FieldGroups.addAll [] (as.filter fun a => a.type.name = type)).toList.filter
        (MergedField.isFor m.key type) := by rw [filter_isFor_addAll]
  simp only [List.mem_filter, MergedField.isFor, decide_true, Bool.true_and,
    decide_eq_true_eq] at hfor ⊢
  refine hfor.trans (and_iff_left_of_imp fun hm => ?_)
  obtain ⟨a, ha, -, htype⟩ := exists_addition_of_mem hm
  rw [← htype]
  simpa using (List.mem_filter.1 ha).2

/-- Merged fields of one object type are told apart by their keys. -/
theorem nodup_keys_of_type {ms : List MergedField} (type : String)
    (h : (ms.map fun m => (m.key, m.objectType.name)).Nodup)
    (htype : ∀ m ∈ ms, m.objectType.name = type) : (ms.map (·.key)).Nodup := by
  have hmap : (ms.map fun m => (m.key, m.objectType.name)) = (ms.map (·.key)).map (·, type) := by
    rw [List.map_map]
    exact List.map_congr_left fun m hm => by simp [htype m hm]
  rw [hmap] at h
  exact h.of_map

/-! ### Cats and dogs

A small schema, at which statements about collecting are looked at in particular. -/

namespace Pets

def animal : NamedType where
  name := "Animal"
  kind := .interface
  fields := [{ name := "name", type := .named "String" }]
  possibleTypes := ["Cat", "Dog"]

def cat : NamedType where
  name := "Cat"
  kind := .object
  fields := [{ name := "name", type := .named "String" }]
  interfaces := ["Animal"]

def dog : NamedType where
  name := "Dog"
  kind := .object
  fields := [{ name := "name", type := .named "String" }, { name := "id", type := .named "ID" }]
  interfaces := ["Animal"]

def nameAs (key : String) (column : Nat) : Selection :=
  .field { key, name := "name", pos := ⟨"", 1, column⟩ }

/-- The fragment `fragment Names on Animal { name }`. -/
def names : Fragment where
  name := "Names"
  condition := "Animal"
  selections := [nameAs "name" 76]
  pos := ⟨"", 1, 49⟩

/-- The selections `{ ... on Cat { tag: name } ...Names tag: name }`. -/
def tagged : List Selection :=
  [.inline (some "Cat") [] [nameAs "tag" 16] ⟨"", 1, 3⟩, .spread "Names" [] ⟨"", 1, 28⟩,
    nameAs "tag" 37]

def collector : Collector where
  schema := { types := [animal, cat, dog] }
  fragments := [names]

theorem declaresNoMeta : collector.schema.DeclaresNoMeta := by with_unfolding_all decide

theorem objectTypes : collector.schema.ObjectTypes [cat, dog] where
  mem := by simp [collector]
  object := by decide
  nodup := by decide

end Pets

/-- Collecting for several object types succeeds if it succeeds for each of them alone, and each gets
the merged fields that it gets alone, one for a key. -/
theorem collectFields_separate (c : Collector) (sets : List (List Selection)) (parent : NamedType)
    (ts : List NamedType) (hs : c.schema.DeclaresNoMeta) (hts : c.schema.ObjectTypes ts)
    (hne : ts ≠ []) :
    ((∃ ms, c.collectFields sets (some ts) parent = .ok ms) ↔
        ∀ t ∈ ts, ∃ ms, c.collectFields sets (some [t]) parent = .ok ms) ∧
      ∀ ms, c.collectFields sets (some ts) parent = .ok ms →
        ∀ t ∈ ts, ∀ mt, c.collectFields sets (some [t]) parent = .ok mt →
          (ms.filter fun m => m.objectType.name = t.name).Perm mt ∧ (mt.map (·.key)).Nodup := by
  constructor
  · simp only [Collector.collectFields_eq_ok_iff, exists_and_left, exists_eq', and_true]
    constructor
    · exact fun h t ht x hx => (Visit.passes_iff_forall hne x).1 (h x hx) t ht
    · exact fun h x hx => (Visit.passes_iff_forall hne x).2 fun t ht => h t ht x hx
  · intro ms hms t ht mt hmt
    obtain ⟨hp, rfl⟩ := Collector.collectFields_eq_ok_iff.1 hms
    obtain ⟨-, rfl⟩ := Collector.collectFields_eq_ok_iff.1 hmt
    have hperm := filter_type_addAll_perm
      ((sets.flatMap (c.visitsOf parent)).flatMap (Visit.additions (some ts))) t.name
    rw [filter_type_flatMap_additions hs hts ht hp] at hperm
    refine ⟨hperm, ?_⟩
    apply nodup_keys_of_type t.name (FieldGroups.nodup_toList_addAll _)
    intro m hm
    simpa using (List.mem_filter.1 (hperm.mem_iff.2 hm)).2

/-- In these selections a dog alone has its name first. -/
theorem collectFields_separate_pets :
    ∃ ms mt,
      Pets.collector.collectFields [Pets.tagged] (some [Pets.cat, Pets.dog]) Pets.animal = .ok ms ∧
      Pets.collector.collectFields [Pets.tagged] (some [Pets.dog]) Pets.animal = .ok mt ∧
      ms.map (·.label) = ["Cat.tag", "Dog.tag", "Cat.name", "Dog.name"] ∧
      mt.map (·.label) = ["Dog.name", "Dog.tag"] ∧
      (ms.filter fun m => m.objectType.name = "Dog").Perm mt ∧ (mt.map (·.key)).Nodup :=
  ⟨_, _, rfl, rfl, rfl, rfl,
    (collectFields_separate Pets.collector [Pets.tagged] Pets.animal [Pets.cat, Pets.dog]
      Pets.declaresNoMeta Pets.objectTypes (by simp)).2 _ rfl Pets.dog (by simp) _ rfl⟩

end OperationGraph
