import OperationGraph.Proofs.Schema.Origin
import OperationGraph.Proofs.Schema.Respelling

/-! # Faithful texts

The names and the shape of a schema that was loaded are such that its text can be read. What may fail is told
by the texts in it: descriptions, reasons, addresses and defaults. If these are read as they are written
(`TypeSystemDocument.isFaithful`), the document of the schema is legible
(`Schema.MadeOf.isLegible_toDocument`). -/

namespace OperationGraph

/-! ### Faithful declarations -/

/-- Whether a description stays inside its quotes and is read as it is written. -/
def isFaithfulDescription (s : String) : Bool := isLegibleDescription s && isSettledDescription s

/-- Whether a default can be read and is written again as it was. -/
def Literal.isFaithful (l : Literal) : Bool := l.isLegible && l.isSettled

def Directive.givesLegible (d : Directive) : Bool := d.arguments.all fun a => a.value.isLegible

def ArgumentDefinition.isFaithful (a : ArgumentDefinition) : Bool :=
  isFaithfulDescription a.description && a.default.all Literal.isFaithful
    && a.directives.all Directive.givesLegible

def FieldDefinition.isFaithful (f : FieldDefinition) : Bool :=
  isFaithfulDescription f.description && f.arguments.all ArgumentDefinition.isFaithful
    && f.default.all Literal.isFaithful && f.directives.all Directive.givesLegible

def EnumValueDefinition.isFaithful (v : EnumValueDefinition) : Bool :=
  isFaithfulDescription v.description && v.directives.all Directive.givesLegible

def Definition.isFaithful (d : Definition) : Bool :=
  isFaithfulDescription d.description && d.directives.all Directive.givesLegible
    && d.fields.all FieldDefinition.isFaithful && d.values.all EnumValueDefinition.isFaithful

def DirectiveDefinition.isFaithful (d : DirectiveDefinition) : Bool :=
  isFaithfulDescription d.description && d.arguments.all ArgumentDefinition.isFaithful

def TypeSystemDocument.isFaithful (doc : TypeSystemDocument) : Bool :=
  doc.directives.all DirectiveDefinition.isFaithful && doc.definitions.all Definition.isFaithful

theorem isLegible_of_isFaithfulDescription {s : String} (h : isFaithfulDescription s = true) :
    isLegibleDescription s = true := (Bool.and_eq_true_iff.1 h).1

theorem all_isLegible_of_isFaithful {l : Option Literal} (h : l.all Literal.isFaithful = true) :
    l.all Literal.isLegible = true := by
  cases l with
  | none => rfl
  | some l => exact (Bool.and_eq_true_iff.1 h).1

theorem eq_of_recallsDescription {s s' : String} (h : RecallsDescription s s')
    (hfaithful : isFaithfulDescription s = true) : s' = s := h (Bool.and_eq_true_iff.1 hfaithful).2

theorem all_isSettled_of_isFaithful {l : Option Literal} (h : l.all Literal.isFaithful = true) :
    l.all Literal.isSettled = true := by
  cases l with
  | none => rfl
  | some l => exact (Bool.and_eq_true_iff.1 h).2

/-! ### Elements -/

theorem TypeRef.isLegible_toExpr_ofExpr (e : TypeExpr) : (toExpr (ofExpr e)).isLegible = e.isLegible := by
  induction e with
  | named n b p => cases b <;> rfl
  | list e b p ih => cases b <;> simp [ofExpr, toExpr, markNonNull, TypeExpr.isLegible, ih]

namespace Schema
variable {s : Schema}

theorem isLegible_deprecatedDirectives {reason : Option String}
    (h : (deprecatedDirectives reason).all Directive.givesLegible = true) :
    (deprecatedDirectives reason).all Directive.isLegible = true := by
  have hnames : Scan.isNameText "deprecated" = true ∧ Scan.isNameText "reason" = true := by decide
  unfold deprecatedDirectives at h ⊢
  split at h
  · rfl
  · simp [Directive.isLegible, hnames]
  · simpa [Directive.isLegible, Argument.isLegible, Directive.givesLegible, hnames] using h

theorem isLegible_argumentDefinition {a : ArgumentDefinition} (hnamed : a.isNamed = true)
    (hfaithful : (s.argumentDefinition (.ofArgument a)).isFaithful = true) :
    (s.argumentDefinition (.ofArgument a)).isLegible = true := by
  simp only [ArgumentDefinition.isFaithful, Bool.and_eq_true] at hfaithful
  obtain ⟨⟨hdescription, hdefault⟩, hdirectives⟩ := hfaithful
  obtain ⟨hname, htype⟩ := Bool.and_eq_true_iff.1 hnamed
  simp only [ArgumentDefinition.isLegible, Bool.and_eq_true]
  refine ⟨⟨⟨⟨isLegible_of_isFaithfulDescription hdescription, hname⟩, ?_⟩,
    all_isLegible_of_isFaithful hdefault⟩, isLegible_deprecatedDirectives hdirectives⟩
  exact (TypeRef.isLegible_toExpr_ofExpr a.type).trans htype

theorem isLegible_argumentDefinitions {as : List ArgumentDefinition} (hnamed : as.all ArgumentDefinition.isNamed = true)
    (hfaithful : (as.map fun a => s.argumentDefinition (.ofArgument a)).all ArgumentDefinition.isFaithful = true) :
    (as.map fun a => s.argumentDefinition (.ofArgument a)).all ArgumentDefinition.isLegible = true := by
  rw [List.all_map, List.all_eq_true] at hfaithful ⊢
  intro a ha
  exact isLegible_argumentDefinition (List.all_eq_true.1 hnamed a ha) (hfaithful a ha)

theorem isLegible_declaredField {kind : Kind} {f : FieldDefinition} (hnamed : f.isNamed = true)
    (hfaithful : (s.declaredField kind f).isFaithful = true) : (s.declaredField kind f).isLegible = true := by
  simp only [FieldDefinition.isFaithful, FieldDefinition.isNamed, Bool.and_eq_true] at hfaithful hnamed
  obtain ⟨⟨⟨hdescription, harguments⟩, hdefault⟩, hdirectives⟩ := hfaithful
  obtain ⟨⟨hname, hargsNamed⟩, htype⟩ := hnamed
  have htype : (TypeRef.toExpr (TypeRef.ofExpr f.type)).isLegible = true :=
    (TypeRef.isLegible_toExpr_ofExpr f.type).trans htype
  have hdefault := all_isLegible_of_isFaithful hdefault
  simp only [FieldDefinition.isLegible, Bool.and_eq_true]
  unfold declaredField at *
  by_cases hk : kind = .inputObject
  · simp only [hk, if_true] at hdescription hdirectives hdefault ⊢
    exact ⟨⟨⟨⟨⟨isLegible_of_isFaithfulDescription hdescription, hname⟩, rfl⟩, htype⟩, hdefault⟩,
      isLegible_deprecatedDirectives hdirectives⟩
  · simp only [hk, if_false] at hdescription harguments hdirectives hdefault ⊢
    have hargs : (s.fieldDefinition (.ofField f)).arguments =
        f.arguments.map fun a => s.argumentDefinition (.ofArgument a) := by
      simp [fieldDefinition, OutputField.ofField]
    rw [hargs] at harguments ⊢
    exact ⟨⟨⟨⟨⟨isLegible_of_isFaithfulDescription hdescription, hname⟩,
      isLegible_argumentDefinitions hargsNamed harguments⟩, htype⟩, hdefault⟩,
      isLegible_deprecatedDirectives hdirectives⟩

end Schema

/-! ### Types -/

theorem Definition.isLegible_ownDirectives {d : Definition}
    (hgives : d.ownDirectives.all Directive.givesLegible = true) :
    d.ownDirectives.all Directive.isLegible = true := by
  have hnames : Scan.isNameText "oneOf" = true ∧ Scan.isNameText "specifiedBy" = true ∧
      Scan.isNameText "url" = true := by
    decide
  rw [List.all_eq_true] at hgives ⊢
  intro x hx
  have hlegible := hgives x hx
  unfold Definition.ownDirectives at hx
  split at hx
  · split at hx
    · obtain rfl := List.mem_singleton.1 hx
      simp [Directive.isLegible, hnames]
    · cases hx
  · obtain ⟨url, -, rfl⟩ := List.mem_map.1 hx
    simpa [Directive.isLegible, Argument.isLegible, Directive.givesLegible, hnames] using hlegible
  · cases hx

namespace NamedType.MadeOf
variable {t : NamedType} {d : Definition} (h : t.MadeOf d) (s : Schema)
include h

/-- What is written for the fields of a type, those of introspection included. -/
theorem exists_of_mem_fields {f : FieldDefinition} (hf : f ∈ (s.definition t).fields) :
    ∃ g, g.isNamed = true ∧ f = s.declaredField d.kind g := by
  have hmeta : ∀ f ∈ TypeSystem.metaFields, f.isNamed = true := by decide
  obtain ⟨-, -, -, -, hnamed, -⟩ := Definition.isNamed_iff.1 h.named
  obtain ⟨implementations, extra, hextra, rfl⟩ := h.made
  have hall (g : FieldDefinition) (hg : g ∈ d.fields ++ extra) : g.isNamed = true := by
    rcases List.mem_append.1 hg with hg | hg
    · exact hnamed g hg
    · exact hmeta g (hextra g hg)
  unfold Schema.declaredField
  cases hk : d.kind with
  | object | interface =>
    simp only [Schema.definition, ofDefinition, Definition.withFields, hk, List.map_map] at hf
    obtain ⟨g, hg, rfl⟩ := List.mem_map.1 hf
    exact ⟨g, hall g (List.mem_filter.1 hg).1, rfl⟩
  | inputObject =>
    simp only [Schema.definition, ofDefinition, Definition.withFields, hk, List.map_map] at hf
    obtain ⟨g, hg, rfl⟩ := List.mem_map.1 hf
    exact ⟨g, hall g hg, rfl⟩
  | union | enum | scalar | other n =>
    simp [Schema.definition, ofDefinition, Definition.withFields, hk] at hf

theorem fields_eq_nil (hobject : d.kind ≠ .object) (hinterface : d.kind ≠ .interface)
    (hinput : d.kind ≠ .inputObject) : (s.definition t).fields = [] := by
  obtain ⟨_, _, _, rfl⟩ := h.made
  cases hk : d.kind <;> simp_all [Schema.definition, ofDefinition, Definition.withFields]

theorem shownFields_ne_nil (hfilled : d.isFilled = true)
    (hk : d.kind = .object ∨ d.kind = .interface ∨ d.kind = .inputObject) :
    (s.definition t).shownFields ≠ [] := by
  have hany : d.fields.any FieldDefinition.isShown = true := by
    rcases hk with hk | hk | hk <;> simpa [Definition.isFilled, hk] using hfilled
  have hown : d.ownFields = d.fields := by
    rcases hk with hk | hk | hk <;> simp [Definition.ownFields, hk]
  rw [h.shownFields_definition, hown, ne_eq, List.map_eq_nil_iff]
  intro hnil
  rw [hnil] at hany
  cases hany

/-- A type is written with the parts of its kind. -/
theorem fitsKind_definition (hfilled : d.isFilled = true) : (s.definition t).fitsKind = true := by
  have hkind : (s.definition t).kind = d.kind := by rw [Schema.kind_definition, h.kind]
  have hshown := h.shownFields_ne_nil s hfilled
  have hempty := h.fields_eq_nil s
  have hnone := h.interfaces_eq_nil
  have hnil : sortNames [] = [] := rfl
  have hdeclared (f : FieldDefinition) (hf : f ∈ (s.definition t).fields) :
      if d.kind = .inputObject then f.arguments = [] else f.default = none := by
    obtain ⟨g, -, rfl⟩ := h.exists_of_mem_fields s hf
    unfold Schema.declaredField
    split <;> rfl
  unfold Definition.fitsKind
  rw [hkind]
  cases hk : d.kind with
  | object | interface =>
    simp [h.members_definition, h.values_definition, Definition.ownValues, hk] at hshown hdeclared ⊢
    exact ⟨hshown, hdeclared⟩
  | inputObject =>
    simp [h.members_definition, h.values_definition, h.interfaces_definition, hnone, hnil, Definition.ownValues,
      hk] at hshown hdeclared ⊢
    exact ⟨.inr hshown, hdeclared⟩
  | scalar | union | enum =>
    simp [h.members_definition, h.values_definition, h.interfaces_definition, hnone, hnil, hempty,
      Definition.ownValues, hk]
  | other n => exact absurd hk (h.kind_ne_other n)

/-- What is written for a type can be read if the texts in it are faithful. -/
theorem isLegible_definition (hfilled : d.isFilled = true) (hfaithful : (s.definition t).isFaithful = true) :
    (s.definition t).isLegible = true := by
  obtain ⟨-, hname, hinterfaces, hmembers, -, hvalues, -⟩ := Definition.isNamed_iff.1 h.named
  simp only [Definition.isFaithful, Bool.and_eq_true] at hfaithful
  obtain ⟨⟨⟨hdescription, hgives⟩, hfields⟩, hfaithfulValues⟩ := hfaithful
  simp only [Definition.isLegible, Bool.and_eq_true]
  refine ⟨⟨⟨⟨⟨⟨⟨h.fitsKind_definition s hfilled, isLegible_of_isFaithfulDescription hdescription⟩, ?_⟩, ?_⟩, ?_⟩,
    ?_⟩, ?_⟩, ?_⟩
  · rw [Schema.name_definition, h.name]
    exact hname
  · rw [h.interfaces_definition, List.all_eq_true]
    intro n hn
    exact hinterfaces n ((sortBy_perm ..).mem_iff.1 hn)
  · rw [h.directives_definition] at hgives ⊢
    exact Definition.isLegible_ownDirectives hgives
  · rw [h.members_definition, List.all_eq_true]
    intro n hn
    split at hn
    · exact hmembers n ((sortBy_perm ..).mem_iff.1 (mem_distinct.1 hn))
    · cases hn
  · rw [List.all_eq_true] at hfields ⊢
    intro f hf
    have hfaithful := hfields f hf
    obtain ⟨g, hg, rfl⟩ := h.exists_of_mem_fields s hf
    exact Schema.isLegible_declaredField hg hfaithful
  · rw [h.values_definition, List.all_map, List.all_eq_true] at hfaithfulValues ⊢
    intro v hv
    have hmem : v ∈ d.values := by
      unfold Definition.ownValues at hv
      split at hv
      · exact hv
      · cases hv
    obtain ⟨hdescription, hdirectives⟩ := Bool.and_eq_true_iff.1 (hfaithfulValues v hv)
    simp only [Function.comp_apply, EnumValueDefinition.isLegible, Bool.and_eq_true]
    exact ⟨⟨isLegible_of_isFaithfulDescription hdescription, hvalues v hmem⟩,
      Schema.isLegible_deprecatedDirectives hdirectives⟩

end NamedType.MadeOf

/-! ### Documents -/

namespace Schema
variable {s : Schema} {base : TypeSystem} (h : s.MadeOf base)
include h

theorem MadeOf.fitsKind_of_mem {d : Definition} (hd : d ∈ s.toDocument.definitions) : d.fitsKind = true := by
  obtain ⟨t, e, rfl, he, hmade⟩ := h.exists_of_mem_definitions hd
  exact hmade.fitsKind_definition s (TypeSystem.isFilled_of_check h.checked e he)

theorem MadeOf.isLegible_directive {d : DirectiveDefinition} (hd : d ∈ s.toDocument.directives)
    (hfaithful : d.isFaithful = true) : d.isLegible = true := by
  have himplied := s.not_implied_of_mem_toDocument hd
  obtain ⟨t, ht, rfl⟩ := List.mem_map.1 hd
  have hfound : s.directive? t.name = some t :=
    find?_key_of_mem h.directives.nodup_keys (List.mem_filter.1 ht).1
  rw [h.directive t.name himplied] at hfound
  obtain ⟨e, he, rfl⟩ := Option.map_eq_some_iff.1 hfound
  have hnamed := h.sound.directives e (List.mem_of_find?_eq_some he)
  simp only [DirectiveDefinition.isNamed, Bool.and_eq_true] at hnamed
  obtain ⟨⟨⟨hname, hargsNamed⟩, hlocations⟩, hknown⟩ := hnamed
  obtain ⟨hdescription, harguments⟩ := Bool.and_eq_true_iff.1 hfaithful
  have hargs : (s.directiveDefinition (.ofDefinition e)).arguments =
      e.arguments.map fun a => s.argumentDefinition (.ofArgument a) := by
    simp [directiveDefinition, DirectiveType.ofDefinition]
  simp only [DirectiveDefinition.isLegible, Bool.and_eq_true]
  rw [hargs] at harguments ⊢
  exact ⟨⟨⟨⟨isLegible_of_isFaithfulDescription hdescription, hname⟩,
    isLegible_argumentDefinitions hargsNamed harguments⟩, hlocations⟩, hknown⟩

/-- Declared roots are types, whose names are names. -/
theorem MadeOf.isLegible_schema {sd : SchemaDefinition} (hsd : s.schemaDefinition? = some sd) :
    sd.isLegible = true := by
  unfold schemaDefinition? at hsd
  split at hsd
  · next hany =>
    obtain rfl := Option.some.inj hsd
    obtain ⟨r, hr, -⟩ := List.any_eq_true.1 hany
    have hne : s.roots ≠ [] := List.ne_nil_of_mem hr
    simp only [SchemaDefinition.isLegible, List.isEmpty_map, List.all_map, Bool.and_eq_true, Bool.not_eq_true',
      List.isEmpty_eq_false_iff, List.all_eq_true]
    refine ⟨hne, fun r hr => ?_⟩
    obtain ⟨hname, hset⟩ := mem_roots hr
    obtain ⟨d, hd⟩ := Option.isSome_iff_exists.1 (h.rooted r.1 hset)
    have hdname : d.name = r.2.1 := by
      rw [hname]
      simpa using List.find?_some hd
    have hnamed := h.sound.declarable.named d (List.mem_of_find?_eq_some hd)
    change Scan.isNameText r.2.1 = true
    rw [← hdname]
    exact (Definition.isNamed_iff.1 hnamed).2.1
  · cases hsd

/-- The document of a loaded schema can be read if the texts in it are faithful. -/
theorem MadeOf.isLegible_toDocument (hfaithful : s.toDocument.isFaithful = true) :
    s.toDocument.isLegible = true := by
  obtain ⟨hdirectives, hdefinitions⟩ := Bool.and_eq_true_iff.1 hfaithful
  rw [List.all_eq_true] at hdirectives hdefinitions
  simp only [TypeSystemDocument.isLegible, Bool.and_eq_true, List.all_eq_true]
  refine ⟨⟨fun sd hsd => ?_, fun d hd => ?_⟩, fun d hd => ?_⟩
  · exact h.isLegible_schema (Option.mem_toList.1 hsd)
  · exact h.isLegible_directive hd (hdirectives d hd)
  · have hd' := hdefinitions d hd
    obtain ⟨t, e, rfl, he, hmade⟩ := h.exists_of_mem_definitions hd
    exact hmade.isLegible_definition s (TypeSystem.isFilled_of_check h.checked e he) hd'

end Schema

end OperationGraph
