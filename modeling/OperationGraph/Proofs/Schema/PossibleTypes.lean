import OperationGraph.Proofs.Schema.Closed
import OperationGraph.Proofs.Schema.Reordering

/-! # The possible types of a schema

An object stands for itself, a union for the members that it lists, and an interface for the objects that
name it. In the schema of a type system all of these are known and are listed in the order of their names,
each once, however often a definition repeats a name (`Schema.possibleTypes_ofTypeSystem`). -/

namespace OperationGraph

/-! ### Definitions -/

namespace NamedType
variable {implementations : List String} {d : Definition}

theorem possibleTypes_ofDefinition_interface (h : d.kind = .interface) :
    (ofDefinition implementations d).possibleTypes = distinct implementations := by
  simp [ofDefinition, h]

theorem possibleTypes_ofDefinition_union (h : d.kind = .union) :
    (ofDefinition implementations d).possibleTypes = distinct (sortNames d.members) := by
  simp [ofDefinition, h]

theorem mem_interfaces_ofDefinition (h : d.kind = .object) {name : String} :
    name ∈ (ofDefinition implementations d).interfaces ↔ name ∈ d.interfaces := by
  simp only [ofDefinition, h]
  exact (sortBy_perm id d.interfaces).mem_iff

/-- The names that a definition gives for the possible types are in order, if the implementations are. -/
theorem ordered_possibleNames_ofDefinition (himplementations : Sorted id implementations)
    (hk : d.kind.isComposite) : Ordered id (ofDefinition implementations d).possibleNames := by
  unfold possibleNames
  rw [kind_ofDefinition]
  cases hkind : d.kind with
  | object => exact List.pairwise_singleton ..
  | interface =>
    rw [if_neg (by simp), possibleTypes_ofDefinition_interface hkind]
    exact himplementations.ordered_distinct
  | union =>
    rw [if_neg (by simp), possibleTypes_ofDefinition_union hkind]
    exact Sorted.ordered_distinct (sorted_sortBy id d.members)
  | scalar | enum | inputObject | other => simp [hkind, Kind.isComposite] at hk

end NamedType

/-! ### The schema of a type system -/

/-- A type system whose types have names of their own, in which the members of unions are defined
objects. -/
structure TypeSystem.Resolved (ts : TypeSystem) : Prop where
  distinct : (ts.types.map Definition.name).Nodup
  members : ∀ d ∈ ts.types, d.kind = .union → ∀ name ∈ d.members,
    ∃ m, ts.type? name = some m ∧ m.kind = .object

namespace Schema
variable {ts : TypeSystem} {t u : NamedType} {us : List NamedType}

/-- A type that can be selected on is what a definition declares. -/
theorem exists_declared_of_isComposite (hnd : (ts.types.map Definition.name).Nodup)
    (ht : t ∈ (ofTypeSystem ts).types) (hk : t.kind.isComposite) :
    ∃ d, ts.type? t.name = some d ∧ d.kind = t.kind ∧
      t = NamedType.ofDefinition (ts.implementations d.name) d := by
  rcases scalar_or_declared_of_mem_types hnd ht with hb | ⟨d, hd, rfl⟩
  · simp [kind_of_builtinScalar? hb, Kind.isComposite] at hk
  · refine ⟨d, ?_, (NamedType.kind_ofDefinition _ d).symm, rfl⟩
    rw [NamedType.name_ofDefinition]
    exact find?_key_of_mem hnd hd

theorem exists_mem_types_of_isComposite (hnd : (ts.types.map Definition.name).Nodup) {d : Definition}
    (hd : d ∈ ts.types) (hk : d.kind.isComposite) :
    ∃ t ∈ (ofTypeSystem ts).types, t.name = d.name ∧ t.kind = d.kind := by
  have hknown : d.kind.isKnown := by
    cases hkind : d.kind <;> simp_all [Kind.isComposite, Kind.isKnown]
  obtain ⟨t, ht, hkind⟩ := exists_lookup_of_type? hnd (find?_key_of_mem hnd hd) hknown
  exact ⟨t, List.mem_of_find?_eq_some ht, name_of_lookup ht, hkind⟩

/-- The possible types are in the order of their names, without repetitions. -/
theorem ordered_possibleTypes (hnd : (ts.types.map Definition.name).Nodup)
    (ht : t ∈ (ofTypeSystem ts).types) (h : (ofTypeSystem ts).possibleTypes t = .ok us) :
    Ordered NamedType.name us := by
  have hk := isComposite_of_possibleTypes h
  obtain ⟨d, -, hkind, hdecl⟩ := exists_declared_of_isComposite hnd ht hk
  have hnames : Ordered id (us.map NamedType.name) := by
    rw [map_name_possibleTypes h, hdecl]
    exact NamedType.ordered_possibleNames_ofDefinition (ts.sorted_implementations d.name) (hkind ▸ hk)
  exact List.pairwise_map.1 hnames

section
variable (hnd : (ts.types.map Definition.name).Nodup) (ht : t ∈ (ofTypeSystem ts).types)
  (hu : u ∈ (ofTypeSystem ts).types) (h : (ofTypeSystem ts).possibleTypes t = .ok us)
include ht hu h

theorem mem_possibleTypes_iff_name_mem : u ∈ us ↔ u.name ∈ t.possibleNames := by
  have hordered := ordered_types_ofTypeSystem ts
  rw [mem_possibleTypes_iff ((mem_types_iff_lookup hordered).1 ht) h]
  exact and_iff_right ((mem_types_iff_lookup hordered).1 hu)

include hnd

/-- The possible types of an interface are the objects that name it. -/
theorem mem_possibleTypes_of_interface (hk : t.kind = .interface) (hobject : u.kind = .object) :
    ∃ d, ts.type? u.name = some d ∧ (u ∈ us ↔ t.name ∈ u.interfaces) ∧
      (t.name ∈ u.interfaces ↔ t.name ∈ d.interfaces) := by
  obtain ⟨i, -, hik, hi⟩ := exists_declared_of_isComposite hnd ht (by rw [hk]; rfl)
  obtain ⟨d, hd, hdk, hu'⟩ := exists_declared_of_isComposite hnd hu (by rw [hobject]; rfl)
  have hinterfaces : t.name ∈ u.interfaces ↔ t.name ∈ d.interfaces := by
    rw [hu']
    exact NamedType.mem_interfaces_ofDefinition (hdk.trans hobject)
  have hname : i.name = t.name := by rw [hi, NamedType.name_ofDefinition]
  refine ⟨d, hd, ?_, hinterfaces⟩
  have hpossible : t.possibleTypes = distinct (ts.implementations t.name) := by
    conv_lhs => rw [hi]
    rw [NamedType.possibleTypes_ofDefinition_interface (hik.trans hk), hname]
  rw [mem_possibleTypes_iff_name_mem ht hu h, hinterfaces, NamedType.possibleNames,
    if_neg (by simp [hk]), hpossible, mem_distinct, TypeSystem.mem_implementations_iff_type? hnd, hd]
  simp [hdk.trans hobject]

/-- The possible types of a union are the objects that it lists. -/
theorem mem_possibleTypes_of_union (hk : t.kind = .union) :
    ∃ d, ts.type? t.name = some d ∧ (u ∈ us ↔ u.name ∈ d.members) := by
  obtain ⟨d, hd, hdk, ht'⟩ := exists_declared_of_isComposite hnd ht (by rw [hk]; rfl)
  refine ⟨d, hd, ?_⟩
  have hpossible : t.possibleTypes = distinct (sortNames d.members) := by
    rw [ht', NamedType.possibleTypes_ofDefinition_union (hdk.trans hk)]
  rw [mem_possibleTypes_iff_name_mem ht hu h, NamedType.possibleNames, if_neg (by simp [hk]),
    hpossible, mem_distinct]
  exact (sortBy_perm id d.members).mem_iff

end

/-- In the schema of a type system whose unions list defined objects, every object, interface and union of
the type system is there and its possible types are known. They are objects of the schema in the order of
their names. An object is among those of an interface exactly if it names the interface, and among those of
a union exactly if the definition of the union lists it. -/
theorem possibleTypes_ofTypeSystem {ts : TypeSystem} (hts : ts.Resolved) :
    (∀ d ∈ ts.types, d.kind.isComposite →
        ∃ t ∈ (ofTypeSystem ts).types, t.name = d.name ∧ t.kind = d.kind) ∧
      ∀ t ∈ (ofTypeSystem ts).types, t.kind.isComposite →
        ∃ us, (ofTypeSystem ts).possibleTypes t = .ok us ∧ Ordered NamedType.name us ∧
          (∀ u ∈ us, u.kind = .object ∧ u ∈ (ofTypeSystem ts).types) ∧
          (t.kind = .object → us = [t]) ∧
          (t.kind = .interface → ∀ u ∈ (ofTypeSystem ts).types, u.kind = .object →
            ∃ d, ts.type? u.name = some d ∧ (u ∈ us ↔ t.name ∈ u.interfaces) ∧
              (t.name ∈ u.interfaces ↔ t.name ∈ d.interfaces)) ∧
          (t.kind = .union → ∃ d, ts.type? t.name = some d ∧
            ∀ u ∈ (ofTypeSystem ts).types, u ∈ us ↔ u.name ∈ d.members) := by
  refine ⟨fun d hd hk => exists_mem_types_of_isComposite hts.distinct hd hk, ?_⟩
  intro t ht hk
  obtain ⟨us, h⟩ := exists_possibleTypes_of_members
    (fun name hname => exists_object_of_mem_possibleTypes hts.distinct hts.members ht hname) hk
  refine ⟨us, h, ordered_possibleTypes hts.distinct ht h, ?_, ?_, ?_, ?_⟩
  · exact fun u hu => ⟨object_of_mem_possibleTypes h hu, mem_types_of_mem_possibleTypes ht h hu⟩
  · intro hobject
    rcases possibleTypes_eq_ok h with ⟨-, hus⟩ | ⟨hk | hk, -⟩
    · exact hus
    · exact absurd (hobject.symm.trans hk) (by simp)
    · exact absurd (hobject.symm.trans hk) (by simp)
  · exact fun hkind u hu hobject => mem_possibleTypes_of_interface hts.distinct ht hu h hkind hobject
  · intro hkind
    obtain ⟨d, hd, -⟩ := mem_possibleTypes_of_union hts.distinct ht ht h hkind
    refine ⟨d, hd, fun u hu => ?_⟩
    obtain ⟨d', hd', hmem⟩ := mem_possibleTypes_of_union hts.distinct ht hu h hkind
    rw [hd] at hd'
    exact Option.some.inj hd' ▸ hmem

end Schema

namespace Pets

/-- A type system in which a definition repeats an interface, and a union a member. -/
def repeated : TypeSystem where
  types := [objectOf "Dog" ["Animal", "Tagged", "Animal"], interfaceOf "Animal",
    objectOf "Cat" ["Animal"], unionOf "Either" ["Dog", "Cat", "Dog"], interfaceOf "Tagged"]

theorem resolved_repeated : repeated.Resolved := by
  constructor
  case distinct => decide
  case members =>
    intro d hd hk name hname
    have hall : ∀ d ∈ repeated.types, d.kind = .union → ∀ name ∈ d.members,
        (repeated.type? name).any (·.kind = .object) = true := by decide
    obtain ⟨m, hm, hobject⟩ := (Option.any_eq_true _ _).1 (hall d hd hk name hname)
    exact ⟨m, hm, of_decide_eq_true hobject⟩

end Pets

/-- The dog that names the animal twice, and that the union lists twice, is among their possible types
once. -/
theorem Schema.possibleTypes_ofTypeSystem_repeated :
    Pets.repeated.Resolved ∧
      ∀ name ∈ ["Animal", "Either"], ∃ t us, (ofTypeSystem Pets.repeated).lookup name = some t ∧
        (ofTypeSystem Pets.repeated).possibleTypes t = .ok us ∧
        us.map NamedType.name = ["Cat", "Dog"] ∧ Ordered NamedType.name us := by
  refine ⟨Pets.resolved_repeated, fun name hname => ?_⟩
  have hall : ∀ name ∈ ["Animal", "Either"], ((ofTypeSystem Pets.repeated).lookup name).any
      (fun t => t.kind.isComposite && t.possibleNames = ["Cat", "Dog"]) = true := by decide
  obtain ⟨t, ht, htest⟩ := (Option.any_eq_true _ _).1 (hall name hname)
  obtain ⟨hk, hnames⟩ := Bool.and_eq_true_iff.1 htest
  obtain ⟨us, hus, hordered, -⟩ :=
    (possibleTypes_ofTypeSystem Pets.resolved_repeated).2 t (List.mem_of_find?_eq_some ht) hk
  exact ⟨t, us, ht, hus, (map_name_possibleTypes hus).trans (of_decide_eq_true hnames), hordered⟩

end OperationGraph
