import OperationGraph.Proofs.Schema.Legibility
import OperationGraph.Proofs.Schema.Likeness

/-! # Texts of schemas are fixed points

The text of a loaded schema can be loaded again, and the schema that is read has the same text
(`render_ofText_render`), under conditions on the schema that can be computed. Whatever is read is spelled as
what was written: names, types and the marks of deprecation are the same, descriptions are if they are settled,
and defaults are written like those that they were read from. -/

namespace OperationGraph

/-! ### Directives -/

/-- The reason of a deprecation is read back. -/
theorem deprecation?_of_recalls {reason : Option String} {ds : List Directive}
    (h : (Schema.deprecatedDirectives reason).Forall₂ Directive.Recalls ds) : deprecation? ds = reason := by
  unfold Schema.deprecatedDirectives at h
  split at h
  · cases h
    rfl
  · cases h with
    | cons hd hnil =>
      cases hnil
      have hnone := List.forall₂_nil_left_iff.1 hd.arguments
      simp [deprecation?, Directive.find?, Argument.find?, hd.name, hnone]
  · cases h with
    | @cons d d' _ _ hd hnil =>
      cases hnil
      obtain ⟨a, _, ha, hrest, hargs⟩ := List.forall₂_cons_left_iff.1 hd.arguments
      cases hrest
      simp [deprecation?, Directive.find?, Argument.find?, hd.name, hargs, ha.name, ha.value, Literal.reread,
        Literal.raw]

/-- The directives of a type are read back. -/
theorem ownDirectives_of_recalls {d d' : Definition} (hkind : d'.kind = d.kind)
    (h : d.ownDirectives.Forall₂ Directive.Recalls d'.directives) : d'.ownDirectives = d.ownDirectives := by
  unfold Definition.ownDirectives at h ⊢
  rw [hkind]
  cases hk : d.kind with
  | inputObject =>
    simp only [hk] at h ⊢
    by_cases hone : (Directive.find? "oneOf" d.directives).isSome = true
    · rw [if_pos hone] at h
      obtain ⟨x, _, hx, hnil, hds⟩ := List.forall₂_cons_left_iff.1 h
      cases hnil
      have hfound : (Directive.find? "oneOf" d'.directives).isSome = true := by
        simp [hds, Directive.find?, hx.name]
      rw [if_pos hfound, if_pos hone]
    · rw [if_neg hone] at h
      have hmissing : (Directive.find? "oneOf" d'.directives).isSome ≠ true := by
        simp [List.forall₂_nil_left_iff.1 h, Directive.find?]
      rw [if_neg hmissing, if_neg hone]
  | scalar =>
    simp only [hk] at h ⊢
    cases hurl : NamedType.specifiedBy? d.directives with
    | none =>
      rw [hurl] at h
      simp [List.forall₂_nil_left_iff.1 h, NamedType.specifiedBy?, Directive.find?]
    | some url =>
      rw [hurl] at h
      obtain ⟨x, _, hx, hnil, hds⟩ := List.forall₂_cons_left_iff.1 h
      cases hnil
      obtain ⟨a, _, ha, hrest, hargs⟩ := List.forall₂_cons_left_iff.1 hx.arguments
      cases hrest
      simp [hds, NamedType.specifiedBy?, Directive.find?, Argument.find?, hx.name, hargs, ha.name, ha.value,
        Literal.reread, Literal.raw]
  | object | interface | union | enum | other n => rfl

attribute [ext] Definition

namespace Schema

theorem pos_definition (s : Schema) (t : NamedType) : (s.definition t).pos = default := by
  unfold definition
  cases t.kind <;> rfl

theorem builtIn_definition (s : Schema) (t : NamedType) : (s.definition t).builtIn = false := by
  unfold definition
  cases t.kind <;> rfl

/-! ### Elements -/

section
variable {s s' : Schema} {R : TypeRef → TypeRef → Prop} (hR : s.Matches s' R) (hrefl : ∀ t, R t t)

theorem written_defaultOf (l : Option Literal) : (defaultOf l).Written := by
  cases l with
  | none => exact .null
  | some l => exact l.written_toValue

include hR hrefl

/-- An argument that is read is spelled as the one that was written. -/
theorem spelled_argumentDefinition {a a' : ArgumentDefinition}
    (h : (s.argumentDefinition (.ofArgument a)).Recalls a')
    (hfaithful : (s.argumentDefinition (.ofArgument a)).isFaithful = true) :
    (s'.argumentDefinition (.ofArgument a')).spelled = (s.argumentDefinition (.ofArgument a)).spelled := by
  simp only [ArgumentDefinition.isFaithful, Bool.and_eq_true] at hfaithful
  obtain ⟨⟨hdescribed, hdefaults⟩, -⟩ := hfaithful
  have hname : a'.name = a.name := h.name
  have hdescription : a'.description = a.description := eq_of_recallsDescription h.description hdescribed
  have htype : TypeRef.ofExpr a'.type = TypeRef.ofExpr a.type :=
    h.type.trans (TypeRef.ofExpr_toExpr_ofExpr _)
  have hdefault : a'.default = (s.defaultLiteral? (.ofExpr a.type) (defaultOf a.default)).map Literal.reread :=
    h.default
  have hspelled := hR.spelled_defaultLiteral? (hrefl (.ofExpr a.type)) (written_defaultOf a.default)
    (all_isSettled_of_isFaithful hdefaults)
  have hdeprecated : deprecation? a'.directives = deprecation? a.directives :=
    deprecation?_of_recalls h.directives
  simp only [ArgumentDefinition.spelled, argumentDefinition, InputValue.ofArgument, hname, hdescription, htype,
    hdefault, hspelled, hdeprecated]

theorem spelled_argumentDefinitions {as as' : List ArgumentDefinition}
    (h : (as.map fun a => s.argumentDefinition (.ofArgument a)).Forall₂ ArgumentDefinition.Recalls as')
    (hfaithful : (as.map fun a => s.argumentDefinition (.ofArgument a)).all ArgumentDefinition.isFaithful = true) :
    (as'.map fun a => (s'.argumentDefinition (.ofArgument a)).spelled) =
      as.map fun a => (s.argumentDefinition (.ofArgument a)).spelled := by
  rw [List.all_map, List.all_eq_true] at hfaithful
  apply map_eq_of_forall₂ _ _ (List.forall₂_map_left_iff.1 h)
  intro a ha a' hrecalls
  exact spelled_argumentDefinition hR hrefl hrecalls (hfaithful a ha)

/-- A field that is read is spelled as the one that was written. -/
theorem spelled_declaredField {kind : Kind} {f f' : FieldDefinition} (h : (s.declaredField kind f).Recalls f')
    (hfaithful : (s.declaredField kind f).isFaithful = true) :
    (s'.declaredField kind f').spelled = (s.declaredField kind f).spelled := by
  simp only [FieldDefinition.isFaithful, Bool.and_eq_true] at hfaithful
  obtain ⟨⟨⟨hdescribed, harguments⟩, hdefault⟩, -⟩ := hfaithful
  obtain ⟨hname, hdescription, -, hdirectives⟩ := declaredField_eq s kind f
  have htype := ofExpr_type_of_declaredField h
  have hname : f'.name = f.name := h.name.trans hname
  have hdescription : f'.description = f.description := (eq_of_recallsDescription h.description hdescribed).trans hdescription
  have hdeprecated : deprecation? f'.directives = deprecation? f.directives := by
    have hrecalls := h.directives
    rw [hdirectives] at hrecalls
    exact deprecation?_of_recalls hrecalls
  unfold declaredField at h harguments hdefault ⊢
  by_cases hk : kind = .inputObject
  · simp only [hk, if_true] at h hdefault ⊢
    have hread : f'.default = (s.defaultLiteral? (.ofExpr f.type) (defaultOf f.default)).map Literal.reread :=
      h.default
    have hspelled := hR.spelled_defaultLiteral? (hrefl (.ofExpr f.type)) (written_defaultOf f.default)
      (all_isSettled_of_isFaithful hdefault)
    simp only [FieldDefinition.spelled, inputFieldDefinition, InputValue.ofField, hname, hdescription, htype,
      hread, hspelled, hdeprecated]
  · simp only [hk, if_false] at h harguments ⊢
    have hrecalls := h.arguments
    simp only [fieldDefinition, OutputField.ofField, List.map_map, Function.comp_def] at hrecalls harguments
    have hspelled := spelled_argumentDefinitions hR hrefl hrecalls harguments
    simp only [FieldDefinition.spelled, fieldDefinition, OutputField.ofField, List.map_map, Function.comp_def,
      hname, hdescription, htype, hdeprecated, hspelled]

omit hR hrefl in
theorem enumValueDefinition_of_recalls {v v' : EnumValueDefinition}
    (h : (enumValueDefinition (.ofDefinition v)).Recalls v')
    (hfaithful : (enumValueDefinition (.ofDefinition v)).isFaithful = true) :
    enumValueDefinition (.ofDefinition v') = enumValueDefinition (.ofDefinition v) := by
  have hname : v'.name = v.name := h.name
  have hdescription : v'.description = v.description :=
    eq_of_recallsDescription h.description (Bool.and_eq_true_iff.1 hfaithful).1
  have hdeprecated : deprecation? v'.directives = deprecation? v.directives :=
    deprecation?_of_recalls h.directives
  simp only [enumValueDefinition, EnumValue.ofDefinition, hname, hdescription, hdeprecated]

/-! ### Types and directives -/

omit hR hrefl in
theorem ownFields_of_recalls {t : NamedType} {d d' : Definition} (hmade : t.MadeOf d) (hkind : d'.kind = d.kind)
    (h : (s.definition t).Recalls d') : d'.ownFields = d'.fields := by
  have hfields := h.fields
  rw [hmade.shownFields_definition] at hfields
  unfold Definition.ownFields at hfields ⊢
  rw [hkind]
  split
  · rfl
  · rfl
  · rfl
  · simp_all

omit hR hrefl in
theorem ownValues_of_recalls {t : NamedType} {d d' : Definition} (hmade : t.MadeOf d) (hkind : d'.kind = d.kind)
    (h : (s.definition t).Recalls d') : d'.ownValues = d'.values := by
  have hvalues := h.values
  rw [hmade.values_definition] at hvalues
  unfold Definition.ownValues at hvalues ⊢
  rw [hkind]
  split
  · rfl
  · simp_all

/-- A type that is read is spelled as the one that was written. -/
theorem spelled_definition {t t' : NamedType} (h : t.ReadAs s t')
    (hfaithful : (s.definition t).isFaithful = true) : (s'.definition t').spelled = (s.definition t).spelled := by
  obtain ⟨d, d', hmade, hmade', hrecalls⟩ := h
  simp only [Definition.isFaithful, Bool.and_eq_true] at hfaithful
  obtain ⟨⟨⟨hdescription, -⟩, hfields⟩, hvalues⟩ := hfaithful
  have hshown : (s.definition t).shownFields.all FieldDefinition.isFaithful = true := by
    rw [List.all_eq_true] at hfields ⊢
    exact fun f hf => hfields f (List.mem_filter.1 hf).1
  have hkind : d'.kind = d.kind := by rw [hrecalls.kind, kind_definition, hmade.kind]
  apply Definition.ext
  · change (s'.definition t').kind = (s.definition t).kind
    rw [kind_definition, kind_definition, hmade.kind, hmade'.kind, hkind]
  · change (s'.definition t').name = (s.definition t).name
    rw [name_definition, hmade'.name, hrecalls.name]
  · change (s'.definition t').description = (s.definition t).description
    rw [hmade'.description_definition, eq_of_recallsDescription hrecalls.description hdescription]
  · change (s'.definition t').directives = (s.definition t).directives
    have hdirectives := hrecalls.directives
    rw [hmade.directives_definition] at hdirectives ⊢
    rw [hmade'.directives_definition, ownDirectives_of_recalls hkind hdirectives]
  · change (s'.definition t').interfaces = (s.definition t).interfaces
    rw [hmade'.interfaces_definition, hrecalls.interfaces, hmade.interfaces_definition, sortNames_sortNames]
  · change (s'.definition t').shownFields.map FieldDefinition.spelled =
      (s.definition t).shownFields.map FieldDefinition.spelled
    have hread := hrecalls.fields
    rw [hmade.shownFields_definition] at hread hshown ⊢
    rw [hmade'.shownFields_definition, ownFields_of_recalls hmade hkind hrecalls, hkind, List.map_map,
      List.map_map]
    rw [List.all_map, List.all_eq_true] at hshown
    apply map_eq_of_forall₂ _ _ (List.forall₂_map_left_iff.1 hread)
    intro f hf f' hf'
    exact spelled_declaredField hR hrefl hf' (hshown f hf)
  · change (s'.definition t').members = (s.definition t).members
    have hmembers := hrecalls.members
    rw [hmade.members_definition] at hmembers ⊢
    rw [hmade'.members_definition, hkind, hmembers]
    split
    · exact distinct_sortNames_distinct_sortNames d.members
    · rfl
  · change (s'.definition t').values = (s.definition t).values
    have hread := hrecalls.values
    rw [hmade.values_definition] at hread hvalues ⊢
    rw [hmade'.values_definition, ownValues_of_recalls hmade hkind hrecalls]
    rw [List.all_map, List.all_eq_true] at hvalues
    apply map_eq_of_forall₂ _ _ (List.forall₂_map_left_iff.1 hread)
    intro v hv v' hv'
    exact enumValueDefinition_of_recalls hv' (hvalues v hv)
  · change (s'.definition t').pos = (s.definition t).pos
    rw [pos_definition, pos_definition]
  · change (s'.definition t').builtIn = (s.definition t).builtIn
    rw [builtIn_definition, builtIn_definition]

/-- A directive that is read is spelled as the one that was written. -/
theorem spelled_directiveDefinition {d d' : DirectiveType} (h : d.ReadAs s d')
    (hfaithful : (s.directiveDefinition d).isFaithful = true) :
    (s'.directiveDefinition d').spelled = (s.directiveDefinition d).spelled := by
  obtain ⟨e, e', rfl, rfl, hrecalls⟩ := h
  rw [DirectiveDefinition.isFaithful, Bool.and_eq_true] at hfaithful
  obtain ⟨hdescribed, harguments⟩ := hfaithful
  have hname : e'.name = e.name := hrecalls.name
  have hdescription : e'.description = e.description := eq_of_recallsDescription hrecalls.description hdescribed
  have hlocations : e'.locations = e.locations := hrecalls.locations
  have hrepeatable : e'.repeatable = e.repeatable := hrecalls.repeatable
  have hread := hrecalls.arguments
  simp only [directiveDefinition, DirectiveType.ofDefinition, List.map_map, Function.comp_def]
    at hread harguments
  have hspelled := spelled_argumentDefinitions hR hrefl hread harguments
  simp only [DirectiveDefinition.spelled, directiveDefinition, DirectiveType.ofDefinition, List.map_map,
    Function.comp_def, hname, hdescription, hlocations, hrepeatable, hspelled]

end

/-! ### Documents -/

theorem ordered_spelled_definitions {s : Schema} (h : Ordered NamedType.name s.types) :
    Ordered Definition.name (s.toDocument.definitions.map Definition.spelled) := by
  have hname (t : NamedType) : (s.definition t).spelled.name = t.name := s.name_definition t
  rw [toDocument, List.map_map]
  apply List.pairwise_map.2
  simp only [Function.comp_apply, hname]
  exact h.filter _

theorem find?_definitions_of_implied (s : Schema) {name : String} (himplied : isImpliedType name = true) :
    s.toDocument.definitions.find? (fun d => d.name = name) = none :=
  find?_key_eq_none_of_test (fun k => !isImpliedType k)
    (fun d hd => by simp [s.isImpliedType_of_mem_toDocument hd]) (by simp [himplied])

theorem ordered_spelled_directives {s : Schema} (h : Ordered DirectiveType.name s.directives) :
    Ordered DirectiveDefinition.name (s.toDocument.directives.map DirectiveDefinition.spelled) := by
  rw [toDocument, List.map_map]
  exact List.pairwise_map.2 (h.filter _)

section
variable {s s' : Schema} (h : s.ReadAs s') (hfaithful : s.toDocument.isFaithful = true)
include h hfaithful

theorem ReadAs.map_spelled_definitions :
    s'.toDocument.definitions.map Definition.spelled = s.toDocument.definitions.map Definition.spelled := by
  obtain ⟨base, hmade⟩ := h.made
  obtain ⟨base', hmade'⟩ := h.remade
  have hall := List.all_eq_true.1 (Bool.and_eq_true_iff.1 hfaithful).2
  apply (ordered_spelled_definitions hmade'.types).ext_find? (ordered_spelled_definitions hmade.types)
  intro name
  rw [List.find?_map, List.find?_map]
  change (s'.toDocument.definitions.find? fun d => d.name = name).map Definition.spelled =
    (s.toDocument.definitions.find? fun d => d.name = name).map Definition.spelled
  cases himplied : isImpliedType name with
  | true => rw [s.find?_definitions_of_implied himplied, s'.find?_definitions_of_implied himplied]
  | false =>
    have hfound := s.find?_definitions_toDocument himplied
    rw [hfound, s'.find?_definitions_toDocument himplied, Option.map_map, Option.map_map]
    apply map_eq_of_rel _ _ (h.types name himplied)
    intro t ht t' hread
    rw [ht, Option.map_some] at hfound
    exact spelled_definition h.matches_alike (fun _ => .inl rfl) hread
      (hall _ (List.mem_of_find?_eq_some hfound))

theorem ReadAs.map_spelled_directives :
    s'.toDocument.directives.map DirectiveDefinition.spelled =
      s.toDocument.directives.map DirectiveDefinition.spelled := by
  obtain ⟨base, hmade⟩ := h.made
  obtain ⟨base', hmade'⟩ := h.remade
  have hall := List.all_eq_true.1 (Bool.and_eq_true_iff.1 hfaithful).1
  apply (ordered_spelled_directives hmade'.directives).ext_find? (ordered_spelled_directives hmade.directives)
  intro name
  rw [List.find?_map, List.find?_map]
  change (s'.toDocument.directives.find? fun d => d.name = name).map DirectiveDefinition.spelled =
    (s.toDocument.directives.find? fun d => d.name = name).map DirectiveDefinition.spelled
  have hfound := s.find?_directives_toDocument name
  rw [hfound, s'.find?_directives_toDocument, Option.map_map, Option.map_map]
  apply map_eq_of_rel _ _ (h.directives name)
  intro d hd d' hread
  rw [hd, Option.map_some] at hfound
  exact spelled_directiveDefinition h.matches_alike (fun _ => .inl rfl) hread
    (hall _ (List.mem_of_find?_eq_some hfound))

/-- A schema that was read from the text of another one has the same text. -/
theorem ReadAs.render_eq : s'.render = s.render := by
  obtain ⟨base, hmade⟩ := h.made
  obtain ⟨base', hmade'⟩ := h.remade
  have hspelled : s'.toDocument.spelled = s.toDocument.spelled := by
    simp only [TypeSystemDocument.spelled, h.map_spelled_definitions hfaithful, h.map_spelled_directives hfaithful]
    simp only [toDocument, h.roots]
  have htext := TypeSystemDocument.text_spelled fun d hd => d.shownFields_ne_nil (hmade.fitsKind_of_mem hd)
  have htext' := TypeSystemDocument.text_spelled fun d hd => d.shownFields_ne_nil (hmade'.fitsKind_of_mem hd)
  rw [render, render, ← htext, ← htext', hspelled]

end

/-! ### Loaded schemas -/

/-- Whether a schema can be read back from its text as it is: the texts in it are faithful, what fields take
beyond the fields of interfaces may be left out, and no type that is not written names an interface. -/
def isRestorable (s : Schema) : Bool :=
  s.toDocument.isFaithful && s.toDocument.extrasOptional
    && s.types.all fun t => !isImpliedType t.name || t.interfaces.isEmpty

/-- The text of a restorable schema can be loaded, and the schema that is loaded has the same text. -/
theorem render_ofText_render {text : String} {s : Schema} (hs : ofText text = .ok s)
    (hrestorable : s.isRestorable = true) : ∃ s', ofText s.render = .ok s' ∧ s'.render = s.render := by
  simp only [isRestorable, Bool.and_eq_true, List.all_eq_true] at hrestorable
  obtain ⟨⟨hfaithful, hextra⟩, hnone⟩ := hrestorable
  obtain ⟨base, hmade⟩ := exists_madeOf_of_ofText hs
  have hlegible := hmade.isLegible_toDocument hfaithful
  have hnone (t : NamedType) (ht : t ∈ s.types) (himplied : isImpliedType t.name = true) : t.interfaces = [] := by
    simpa [himplied] using hnone t ht
  obtain ⟨s', hs'⟩ := exists_ofText_render hs hlegible hextra hnone
  exact ⟨s', hs', (readAs_of_ofText hs hlegible hs').render_eq hfaithful⟩

/-- A schema with a deprecated value, a description, and defaults of which one is a whole number. -/
def itemsText : String :=
  "enum Color \x7b RED BLUE @deprecated \x7d interface Item \x7b name: ID! \x7d type Query implements Item " ++
    "\x7b \"Its name.\" name(scale: Float = 1.0, colors: [Color] = [RED]): ID! \x7d"

theorem render_ofText_render_items :
    ∃ s s', ofText itemsText = .ok s ∧ s.isRestorable = true ∧ ofText s.render = .ok s' ∧
      s'.render = s.render := by
  have h : (ofText itemsText).toOption.map isRestorable = some true := by decide +kernel
  obtain ⟨s, hs, hrestorable⟩ := Option.map_eq_some_iff.1 h
  have hs := eq_ok_of_toOption hs
  obtain ⟨s', hs', hsame⟩ := render_ofText_render hs hrestorable
  exact ⟨s, s', hs, hrestorable, hs', hsame⟩

/-- Schemas whose texts are read as other schemas: a description that begins with a blank, and a negative
zero. -/
def changedTexts : List String :=
  ["\"\"\" A pet. \"\"\" type Query \x7b a: Int \x7d", "type Query \x7b a(x: Float = -0.0): Int \x7d"]

/-- A schema whose text cannot be read, since the default is beyond all doubles. -/
def endlessText : String := "type Query \x7b a(x: Float = 1e999): Int \x7d"

/-- Not every text of a loaded schema is a fixed point, and not every one can be loaded. -/
theorem exists_render_ofText_render_ne :
    (∀ text ∈ changedTexts, ∃ s s', ofText text = .ok s ∧ ofText s.render = .ok s' ∧ s'.render ≠ s.render) ∧
      ∃ s, ofText endlessText = .ok s ∧ ∀ s', ofText s.render ≠ .ok s' := by
  constructor
  · have h : ∀ text ∈ changedTexts, (reloaded? text).map (fun p => decide (p.2.render = p.1.render)) = some false := by
      decide +kernel
    intro text htext
    obtain ⟨⟨s, s'⟩, hloaded, hne⟩ := Option.map_eq_some_iff.1 (h text htext)
    obtain ⟨hs, hs'⟩ := ofText_of_reloaded? hloaded
    exact ⟨s, s', hs, hs', of_decide_eq_false hne⟩
  · have h : (ofText endlessText).toOption.map (fun s => (ofText s.render).toOption.isSome) = some false := by
      decide +kernel
    obtain ⟨s, hs, hnone⟩ := Option.map_eq_some_iff.1 h
    refine ⟨s, eq_ok_of_toOption hs, fun s' hs' => ?_⟩
    rw [hs'] at hnone
    cases hnone

end Schema

end OperationGraph
