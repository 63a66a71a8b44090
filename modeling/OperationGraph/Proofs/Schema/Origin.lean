import OperationGraph.Proofs.Schema.Renewal
import OperationGraph.Proofs.Schema.Roots

/-! # The type system that a schema was made of

A schema that was loaded goes back to a type system that passed its checks (`Schema.MadeOf`): the types of
the schema are those of the type system, but for the fields of introspection that the query root gets and
for the built-in scalars, which stay as they are. What is written for a type is told by the definition that it
was made of. -/

namespace OperationGraph

theorem FieldDefinition.isShown_eq (f : FieldDefinition) : f.isShown = !isMetaName f.name := rfl

namespace TypeSystem

theorem isMetaName_of_mem_metaFields : ∀ f ∈ metaFields, isMetaName f.name = true := by
  with_unfolding_all decide

/-- Fields of introspection may be put behind those of every type. -/
theorem exists_extra_addMetaFields (ts : TypeSystem) :
    ∃ extra : Definition → List FieldDefinition, (∀ d, ∀ f ∈ extra d, f ∈ metaFields) ∧
      ts.addMetaFields.types = ts.types.map fun d => d.withFields (extra d) := by
  unfold addMetaFields
  split
  · exact ⟨fun _ => [], by simp, by simp [Definition.withFields]⟩
  · next q _ =>
    refine ⟨fun d => if d.name = q then metaFields else [], fun d f hf => ?_, ?_⟩
    · by_cases hname : d.name = q
      · simpa [hname] using hf
      · simp [hname] at hf
    · refine List.map_congr_left fun d _ => ?_
      by_cases hname : d.name = q <;> simp [Definition.withFields, hname]

/-- No declared field has a reserved name. -/
theorem isShown_of_check {ts : TypeSystem} (h : ts.check = .ok ()) {d : Definition} (hd : d ∈ ts.types) :
    ∀ f ∈ d.fields, f.isShown = true := by
  intro f hf
  have hfields := (checkDefinition_eq_ok_iff.1 ((check_eq_ok_iff.1 h).1 d hd)).1
  simp [FieldDefinition.isShown, (checkFields_eq_ok_iff.1 hfields f hf).1]

end TypeSystem

/-! ### What is written for a type -/

/-- A type that a definition declares, with fields of introspection behind its own. -/
structure NamedType.MadeOf (t : NamedType) (d : Definition) : Prop where
  named : d.isNamed = true
  shown : ∀ f ∈ d.fields, f.isShown = true
  made : ∃ (implementations : List String) (extra : List FieldDefinition),
    (∀ f ∈ extra, f ∈ TypeSystem.metaFields) ∧ t = .ofDefinition implementations (d.withFields extra)

def Definition.ownDirectives (d : Definition) : List Directive :=
  match d.kind with
  | .inputObject =>
    if (Directive.find? "oneOf" d.directives).isSome then [{ name := "oneOf", pos := default }] else []
  | .scalar =>
    (NamedType.specifiedBy? d.directives).toList.map fun url =>
      { name := "specifiedBy", pos := default,
        arguments := [{ name := "url", value := .string url, pos := default }] }
  | _ => []

def Schema.declaredField (s : Schema) (kind : Kind) (f : FieldDefinition) : FieldDefinition :=
  if kind = .inputObject then s.inputFieldDefinition (.ofField f) else s.fieldDefinition (.ofField f)

namespace NamedType.MadeOf
variable {t : NamedType} {d : Definition} (h : t.MadeOf d) (s : Schema)
include h

theorem name : t.name = d.name := by
  obtain ⟨_, _, _, rfl⟩ := h.made
  simp

theorem kind : t.kind = d.kind := by
  obtain ⟨_, _, _, rfl⟩ := h.made
  simp

theorem kind_ne_other (n : String) : d.kind ≠ .other n := by
  intro hk
  have hknown := (Definition.isNamed_iff.1 h.named).1
  rw [hk] at hknown
  cases hknown

theorem orderly : (d.interfaces = [] ∨ d.kind = .object ∨ d.kind = .interface) ∧
    (d.kind = .inputObject → ∀ f ∈ d.fields, f.isShown = true → f.arguments = []) ∧
    (d.builtIn = true → ∃ b ∈ builtinDocument.definitions, b.name = d.name) := by
  obtain ⟨-, -, -, -, -, -, horderly⟩ := Definition.isNamed_iff.1 h.named
  exact Definition.isOrderly_iff.1 horderly

theorem interfaces_eq_nil (hobject : d.kind ≠ .object) (hinterface : d.kind ≠ .interface) :
    d.interfaces = [] := by
  simpa [hobject, hinterface] using h.orderly.1

theorem description_definition : (s.definition t).description = d.description := by
  obtain ⟨_, _, _, rfl⟩ := h.made
  cases hk : d.kind <;> simp [Schema.definition, ofDefinition, Definition.withFields, hk]

theorem interfaces_definition : (s.definition t).interfaces = sortNames d.interfaces := by
  have hnone := h.interfaces_eq_nil
  obtain ⟨_, _, _, rfl⟩ := h.made
  cases hk : d.kind <;>
    simp [Schema.definition, ofDefinition, Definition.withFields, hk, hnone, sortNames, sortBy]

theorem members_definition :
    (s.definition t).members = if d.kind = .union then distinct (sortNames d.members) else [] := by
  obtain ⟨_, _, _, rfl⟩ := h.made
  cases hk : d.kind <;> simp [Schema.definition, ofDefinition, Definition.withFields, hk]

theorem directives_definition : (s.definition t).directives = d.ownDirectives := by
  obtain ⟨_, _, _, rfl⟩ := h.made
  cases hk : d.kind <;>
    simp only [Schema.definition, ofDefinition, Definition.withFields, Definition.ownDirectives, hk]
  cases specifiedBy? d.directives <;> rfl

theorem values_definition :
    (s.definition t).values = d.ownValues.map fun v => Schema.enumValueDefinition (.ofDefinition v) := by
  obtain ⟨_, _, _, rfl⟩ := h.made
  cases hk : d.kind <;>
    simp [Schema.definition, ofDefinition, Definition.withFields, Definition.ownValues, hk]

/-- Of the fields of a type and those of introspection behind them the former are shown. -/
theorem filter_isShown {extra : List FieldDefinition} (hextra : ∀ f ∈ extra, f ∈ TypeSystem.metaFields) :
    (d.fields ++ extra).filter FieldDefinition.isShown = d.fields := by
  have hnone : extra.filter FieldDefinition.isShown = [] := by
    rw [List.filter_eq_nil_iff]
    intro f hf
    simp [FieldDefinition.isShown_eq, TypeSystem.isMetaName_of_mem_metaFields f (hextra f hf)]
  rw [List.filter_append, hnone, List.append_nil, List.filter_eq_self]
  exact h.shown

theorem shownFields_definition :
    (s.definition t).shownFields = d.ownFields.map (s.declaredField d.kind) := by
  obtain ⟨implementations, extra, hextra, rfl⟩ := h.made
  have hfilter := h.filter_isShown hextra
  -- whether a field is shown is told by its name, which is kept
  have houtput : ((((d.fields ++ extra).filter FieldDefinition.isShown).map OutputField.ofField).map
      s.fieldDefinition).filter FieldDefinition.isShown =
        d.fields.map fun f => s.fieldDefinition (.ofField f) := by
    rw [hfilter, List.map_map, List.filter_map]
    exact congrArg _ (List.filter_eq_self.2 h.shown)
  have hinput : (((d.fields ++ extra).map InputValue.ofField).map s.inputFieldDefinition).filter
      FieldDefinition.isShown = d.fields.map fun f => s.inputFieldDefinition (.ofField f) := by
    rw [List.map_map, List.filter_map]
    exact congrArg _ hfilter
  unfold Definition.shownFields
  cases hk : d.kind with
  | object | interface =>
    simp only [Schema.definition, ofDefinition, Definition.withFields, Definition.ownFields, hk]
    exact houtput
  | inputObject =>
    simp only [Schema.definition, ofDefinition, Definition.withFields, Definition.ownFields, hk]
    exact hinput
  | union | enum | scalar =>
    simp [Schema.definition, ofDefinition, Definition.withFields, Definition.ownFields, hk]
  | other n => exact absurd hk (h.kind_ne_other n)

end NamedType.MadeOf

namespace Schema

/-- A checked type system that has the types and the directives of a schema. -/
structure MadeOf (s : Schema) (base : TypeSystem) : Prop where
  sound : base.Sound
  checked : base.check = .ok ()
  builtins : ∀ b ∈ builtinDocument.definitions, ∃ d ∈ base.types, d.name = b.name ∧ d.kind = b.kind
  types : Ordered NamedType.name s.types
  directives : Ordered DirectiveType.name s.directives
  lookup : ∀ name, builtinScalar? name = none → Option.Rel NamedType.MadeOf (s.lookup name) (base.type? name)
  scalar : ∀ name b, builtinScalar? name = some b → s.lookup name = some b
  directive : ∀ name, impliedDirectives.contains name = false →
    s.directive? name = (base.directive? name).map DirectiveType.ofDefinition
  rooted : ∀ op, s.rootName op ≠ "" → (base.type? (s.rootName op)).isSome

theorem MadeOf.exists_type {s : Schema} {base : TypeSystem} (h : s.MadeOf base) {d : Definition}
    (hd : d ∈ base.types) (hscalar : builtinScalar? d.name = none) :
    ∃ t, s.lookup d.name = some t ∧ t.MadeOf d := by
  have hrel := h.lookup d.name hscalar
  rw [TypeSystem.type?, find?_key_of_mem h.sound.declarable.distinct hd] at hrel
  exact exists_of_rel_some_right hrel

theorem MadeOf.exists_definition {s : Schema} {base : TypeSystem} (h : s.MadeOf base) {name : String}
    {t : NamedType} (ht : s.lookup name = some t) (hscalar : builtinScalar? name = none) :
    ∃ d, base.type? name = some d ∧ t.MadeOf d := by
  have hrel := h.lookup name hscalar
  rw [ht] at hrel
  exact exists_of_rel_some hrel

/-- A type that is written was made of a declared one. -/
theorem MadeOf.exists_of_mem_definitions {s : Schema} {base : TypeSystem} (h : s.MadeOf base) {d : Definition}
    (hd : d ∈ s.toDocument.definitions) : ∃ t e, d = s.definition t ∧ e ∈ base.types ∧ t.MadeOf e := by
  obtain ⟨t, ht, rfl⟩ := List.mem_map.1 hd
  have himplied : isImpliedType t.name = false := by simpa using (List.mem_filter.1 ht).2
  have hfound := (mem_types_iff_lookup h.types).1 (List.mem_filter.1 ht).1
  obtain ⟨e, he, hmade⟩ := h.exists_definition hfound (builtinScalar?_eq_none himplied)
  exact ⟨t, e, rfl, List.mem_of_find?_eq_some he, hmade⟩

/-- If the built-in types are there, a type of the name of a built-in scalar is a scalar. -/
theorem kind_eq_scalar_of_builtins {base : TypeSystem} (hdistinct : (base.types.map Definition.name).Nodup)
    (hbuiltins : ∀ b ∈ builtinDocument.definitions, ∃ d ∈ base.types, d.name = b.name ∧ d.kind = b.kind)
    {name : String} {b : NamedType} (hb : builtinScalar? name = some b) {d : Definition}
    (hd : d ∈ base.types) (hname : d.name = name) : d.kind = .scalar := by
  have hall : ∀ b ∈ builtinScalars, ∃ e ∈ builtinDocument.definitions,
      e.name = b.name ∧ e.kind = .scalar := by
    decide
  obtain ⟨e, he, hename, hekind⟩ := hall b (List.mem_of_find?_eq_some hb)
  rw [name_of_builtinScalar? hb] at hename
  obtain ⟨e', he', hname', hkind'⟩ := hbuiltins e he
  have hsame : d = e' := by
    have hfound := find?_key_of_mem hdistinct hd
    have hfound' := find?_key_of_mem hdistinct he'
    rw [show d.name = e'.name from hname.trans (hename.symm.trans hname'.symm)] at hfound
    exact Option.some.inj (hfound.symm.trans hfound')
  rw [hsame, hkind', hekind]

/-- The schema of a checked type system, with or without the roots of the usual names, is made of it. -/
theorem madeOf_addMetaFields {base ts : TypeSystem} (hsound : base.Sound) (hcheck : base.check = .ok ())
    (hbuiltins : ∀ b ∈ builtinDocument.definitions, ∃ d ∈ base.types, d.name = b.name ∧ d.kind = b.kind)
    (hts : ts = base ∨ ts = base.inferRoots) : (ofTypeSystem ts.addMetaFields).MadeOf base := by
  have htypes : ts.types = base.types := by rcases hts with rfl | rfl <;> rfl
  have hdirectives : ts.directives = base.directives := by rcases hts with rfl | rfl <;> rfl
  have hrooted : ts.addMetaFields.Sound := by
    rcases hts with rfl | rfl
    · exact hsound.addMetaFields
    · exact hsound.inferRoots.addMetaFields
  have hdistinct := hsound.declarable.distinct
  obtain ⟨extra, hmeta, hextra⟩ := ts.exists_extra_addMetaFields
  rw [htypes] at hextra
  have htype (name : String) : ts.addMetaFields.type? name =
      (base.type? name).map fun d => d.withFields (extra d) :=
    TypeSystem.type?_of_perm hdistinct (.of_eq hextra) name
  refine ⟨hsound, hcheck, hbuiltins, ordered_types_ofTypeSystem _, ordered_directives_ofTypeSystem _,
    fun name hname => ?_, fun name b hb => ?_, fun name hname => ?_, fun op hop => ?_⟩
  · rw [lookup_ofTypeSystem hrooted.declarable.distinct hname, htype]
    cases hd : base.type? name with
    | none => exact .none
    | some d =>
      have hmem : d ∈ base.types := List.mem_of_find?_eq_some hd
      have hknown := hsound.declarable.known hmem
      simp only [Option.map_some, Option.bind_some, declared?, Definition.kind_withFields, hknown, if_true]
      exact .some ⟨hsound.declarable.named d hmem, TypeSystem.isShown_of_check hcheck hmem,
        _, extra d, hmeta d, rfl⟩
  · refine lookup_ofTypeSystem_of_builtinScalar? hb fun d hd hname => ?_
    rw [hextra] at hd
    obtain ⟨d', hd', rfl⟩ := List.mem_map.1 hd
    rw [Definition.kind_withFields]
    exact kind_eq_scalar_of_builtins hdistinct hbuiltins hb hd' hname
  · rw [directive?_ofTypeSystem, directive?_empty hname, Option.none_or, TypeSystem.directive?,
      TypeSystem.directives_addMetaFields, hdirectives]
    rfl
  · rw [rootName_ofTypeSystem] at hop ⊢
    cases hroot : ts.addMetaFields.root? op with
    | none => exact absurd (by rw [hroot]; rfl) hop
    | some name =>
      have hsome := hrooted.rooted op name hroot
      rw [htype, Option.isSome_map] at hsome
      exact hsome

/-- A schema that was loaded is made of a type system. -/
theorem exists_madeOf_of_ofText {text : String} {s : Schema} (h : ofText text = .ok s) :
    ∃ base, s.MadeOf base := by
  obtain ⟨doc, ts, hparse, hts, rfl⟩ := exists_of_ofText h
  have hnamed := named_append (TypeSystemDocument.named_of_parse hparse)
  obtain ⟨base, types, hsound, hcheck, htypes, hextended, -, rfl⟩ :=
    TypeSystem.exists_checked_of_ofDocument hnamed hts
  refine ⟨base, madeOf_addMetaFields hsound hcheck (fun b hb => ?_) ?_⟩
  · obtain rfl : types = (builtinDocument.append doc).definitions := by
      simpa using TypeSystem.eq_append_of_declareType htypes
    refine of_foldlM_eq_ok (fun types => ∃ d ∈ types, d.name = b.name ∧ d.kind = b.kind) hextended
      ⟨b, List.mem_append_left _ hb, rfl, rfl⟩ ?_
    rintro ext - types types' ⟨d, hd, hname, hkind⟩ hext
    obtain ⟨d', hd', hname', hkind'⟩ := TypeSystem.exists_mem_of_extendType hext hd
    exact ⟨d', hd', hname'.trans hname, hkind'.trans hkind⟩
  · split
    · exact .inr rfl
    · exact .inl rfl

end Schema

end OperationGraph
