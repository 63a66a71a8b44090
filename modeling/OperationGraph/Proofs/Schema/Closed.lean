import OperationGraph.Proofs.Schema.Members
import OperationGraph.Proofs.Schema.Renewal
import OperationGraph.Proofs.Schema.RoundTrip

/-! # Schemas in which every name leads somewhere

In the schema of a well-formed type system the fields return types that are there and that a field may
return, and the possible types of a type are objects that are there (`Schema.closed_ofTypeSystem`). -/

namespace OperationGraph

/-- A type system whose types have names of their own, in which fields return types that are defined and
that a field may return, and in which the members of unions are defined objects. -/
structure TypeSystem.WellFormed (ts : TypeSystem) : Prop where
  distinct : (ts.types.map Definition.name).Nodup
  named : ∀ d ∈ ts.types, d.name ≠ ""
  returned : ∀ d ∈ ts.types, d.kind = .object ∨ d.kind = .interface → ∀ f ∈ d.fields,
    ∃ r, ts.type? f.type.baseName = some r ∧ r.kind.isOutput
  members : ∀ d ∈ ts.types, d.kind = .union → ∀ name ∈ d.members,
    ∃ m, ts.type? name = some m ∧ m.kind = .object

theorem Kind.isKnown_of_isOutput {k : Kind} (h : k.isOutput) : k.isKnown := by
  cases k with
  | other name => cases h
  | _ => rfl

namespace Schema

/-! ### Closed schemas -/

/-- A schema in which fields return types that are there and that a field may return, and in which the
possible types of a type are objects that are there. -/
structure Closed (s : Schema) : Prop where
  returned : ∀ t ∈ s.types, ∀ f ∈ t.fields,
    ∃ r, s.type? f.type.baseName = some r ∧ r.kind.isOutput
  possible : ∀ t ∈ s.types, ∀ name ∈ t.possibleTypes, ∃ m, s.lookup name = some m ∧ m.kind = .object

/-- In a closed schema the possible types of a type that can be selected on are known. -/
theorem Closed.exists_possibleTypes {s : Schema} (hs : s.Closed) {t : NamedType} (ht : t ∈ s.types)
    (hk : t.kind.isComposite) : ∃ ts, s.possibleTypes t = .ok ts :=
  exists_possibleTypes_of_members (hs.possible t ht) hk

/-! ### The schema of a well-formed type system -/

theorem kind_of_builtinScalar? {name : String} {b : NamedType} (h : builtinScalar? name = some b) :
    b.kind = .scalar := by
  have hall : ∀ b ∈ builtinScalars, b.kind = .scalar := by decide
  exact hall b (List.mem_of_find?_eq_some h)

/-- A definition adds a type of its own kind. -/
theorem exists_added? (ts : TypeSystem) {d : Definition} (hk : d.kind.isKnown) :
    ∃ t, added? ts d = some t ∧ t.kind = d.kind := by
  unfold added?
  split
  · next b hb hscalar => exact ⟨b, rfl, (kind_of_builtinScalar? hb).trans hscalar.symm⟩
  · exact ⟨_, if_pos hk, NamedType.kind_ofDefinition _ d⟩

section
variable {ts : TypeSystem}

theorem exists_lookup_of_type? (hnd : (ts.types.map Definition.name).Nodup) {name : String}
    {d : Definition} (hd : ts.type? name = some d) (hk : d.kind.isKnown) :
    ∃ t, (ofTypeSystem ts).lookup name = some t ∧ t.kind = d.kind := by
  obtain ⟨t, ht, hkind⟩ := exists_added? ts hk
  exact ⟨t, by simp [lookup_ofTypeSystem_eq_or hnd, hd, ht], hkind⟩

/-- A type of the schema is a built-in scalar, or what a definition declares. -/
theorem scalar_or_declared_of_mem_types (hnd : (ts.types.map Definition.name).Nodup) {t : NamedType}
    (ht : t ∈ (ofTypeSystem ts).types) :
    builtinScalar? t.name = some t ∨
      ∃ d ∈ ts.types, t = NamedType.ofDefinition (ts.implementations d.name) d := by
  have hlookup := (mem_types_iff_lookup (ordered_types_ofTypeSystem ts)).1 ht
  rw [lookup_ofTypeSystem_eq_or hnd, Option.or_eq_some_iff] at hlookup
  rcases hlookup with hadded | ⟨-, hbuiltin⟩
  · obtain ⟨d, hd, hadded⟩ := Option.bind_eq_some_iff.1 hadded
    have hname := name_of_added? hadded
    unfold added? at hadded
    split at hadded
    · next b hb _ =>
      cases hadded
      exact .inl (hname ▸ hb)
    · obtain ⟨-, hdeclared⟩ := Option.ite_none_right_eq_some.1 hadded
      exact .inr ⟨d, List.mem_of_find?_eq_some hd, (Option.some.inj hdeclared).symm⟩
  · exact .inl hbuiltin

theorem fields_of_builtinScalar? {name : String} {b : NamedType} (h : builtinScalar? name = some b) :
    b.fields = [] ∧ b.possibleTypes = [] := by
  have hall : ∀ b ∈ builtinScalars, b.fields.isEmpty ∧ b.possibleTypes.isEmpty := by decide
  simpa using hall b (List.mem_of_find?_eq_some h)

/-- Only objects and interfaces declare fields to select, each as one of the definition's. -/
theorem exists_of_mem_fields_ofDefinition {implementations : List String} {d : Definition}
    {f : OutputField} (h : f ∈ (NamedType.ofDefinition implementations d).fields) :
    (d.kind = .object ∨ d.kind = .interface) ∧ ∃ g ∈ d.fields, f = .ofField g := by
  have hfield (hmem : f ∈ (d.fields.filter fun f => !isMetaName f.name).map OutputField.ofField) :
      ∃ g ∈ d.fields, f = .ofField g := by
    obtain ⟨g, hg, rfl⟩ := List.mem_map.1 hmem
    exact ⟨g, (List.mem_filter.1 hg).1, rfl⟩
  unfold NamedType.ofDefinition at h
  cases hk : d.kind <;> simp only [hk] at h
  case object => exact ⟨.inl rfl, hfield h⟩
  case interface => exact ⟨.inr rfl, hfield h⟩
  all_goals cases h

/-- The possible types of a declared type are the objects that implement it, or its members. -/
theorem mem_possibleTypes_ofDefinition {implementations : List String} {d : Definition}
    {name : String} (h : name ∈ (NamedType.ofDefinition implementations d).possibleTypes) :
    name ∈ implementations ∨ d.kind = .union ∧ name ∈ d.members := by
  unfold NamedType.ofDefinition at h
  cases hk : d.kind <;> simp only [hk] at h
  case interface => exact .inl (mem_distinct.1 h)
  case union => exact .inr ⟨rfl, (sortBy_perm id d.members).mem_iff.1 (mem_distinct.1 h)⟩
  all_goals cases h

theorem exists_type?_of_returned (hts : ts.WellFormed) {f : FieldDefinition} {r : Definition}
    (hr : ts.type? f.type.baseName = some r) (hk : r.kind.isOutput) :
    ∃ t, (ofTypeSystem ts).type? (OutputField.ofField f).type.baseName = some t ∧
      t.kind.isOutput := by
  obtain ⟨t, ht, hkind⟩ := exists_lookup_of_type? hts.distinct hr (Kind.isKnown_of_isOutput hk)
  have hname : f.type.baseName ≠ "" := by
    have hrname : r.name = f.type.baseName := by simpa using List.find?_some hr
    exact hrname ▸ hts.named r (List.mem_of_find?_eq_some hr)
  refine ⟨t, ?_, hkind ▸ hk⟩
  rw [OutputField.ofField, TypeRef.baseName_ofExpr, type?, if_neg hname, ht]

/-- The possible types of a type are objects that are there, if the members of unions are defined
objects. -/
theorem exists_object_of_mem_possibleTypes (hnd : (ts.types.map Definition.name).Nodup)
    (hmembers : ∀ d ∈ ts.types, d.kind = .union → ∀ name ∈ d.members,
      ∃ m, ts.type? name = some m ∧ m.kind = .object)
    {t : NamedType} (ht : t ∈ (ofTypeSystem ts).types) {name : String} (hname : name ∈ t.possibleTypes) :
    ∃ m, (ofTypeSystem ts).lookup name = some m ∧ m.kind = .object := by
  rcases scalar_or_declared_of_mem_types hnd ht with hb | ⟨d, hd, rfl⟩
  · simp [fields_of_builtinScalar? hb] at hname
  · have hobject : ∃ m, ts.type? name = some m ∧ m.kind = .object := by
      rcases mem_possibleTypes_ofDefinition hname with himpl | ⟨hk, hmember⟩
      · obtain ⟨m, hm, hk, -⟩ := (TypeSystem.mem_implementations_iff_type? hnd).1 himpl
        exact ⟨m, hm, hk⟩
      · exact hmembers d hd hk name hmember
    obtain ⟨m, hm, hk⟩ := hobject
    obtain ⟨u, hu, hkind⟩ := exists_lookup_of_type? hnd hm (by rw [hk]; rfl)
    exact ⟨u, hu, hkind.trans hk⟩

theorem closed_ofTypeSystem (hts : ts.WellFormed) : (ofTypeSystem ts).Closed := by
  constructor
  case returned =>
    intro t ht f hf
    rcases scalar_or_declared_of_mem_types hts.distinct ht with hb | ⟨d, hd, rfl⟩
    · simp [fields_of_builtinScalar? hb] at hf
    · obtain ⟨hk, g, hg, rfl⟩ := exists_of_mem_fields_ofDefinition hf
      obtain ⟨r, hr, hout⟩ := hts.returned d hd hk g hg
      exact exists_type?_of_returned hts hr hout
  case possible =>
    exact fun t ht name hname =>
      exists_object_of_mem_possibleTypes hts.distinct hts.members ht hname

end

end Schema

end OperationGraph
