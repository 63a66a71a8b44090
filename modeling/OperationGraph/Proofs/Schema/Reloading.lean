import OperationGraph.Proofs.Schema.Origin
import OperationGraph.Proofs.Schema.Renewal

/-! # Schemas that can be loaded from their own text

The text of a loaded schema can be loaded again if it is legible, if what fields take beyond the fields of
interfaces may be left out, and if no built-in type was made to implement an interface
(`exists_ofText_render`). What is read from the text renews the declarations that the schema was made of, so
it passes their checks. -/

namespace OperationGraph

/-! ### Directives that are written -/

namespace TypeSystem

/-- Whether a built-in directive may stand at a place with arguments of these names. -/
def accepts (location name : String) (given : List String) : Bool :=
  !"__".isPrefixOf name && (builtin.directive? name).any fun decl =>
    decl.locations.contains location && given.all (fun a => decl.arguments.any (·.name = a))
      && decl.arguments.all fun a => !isRequired a || given.contains a.name

theorem isGiven_of_mem {args : List Argument} (h : ∀ a ∈ args, ∃ s, a.value = .string s) {name : String}
    (hname : name ∈ args.map Argument.name) : isGiven args name = true := by
  unfold isGiven
  cases hfind : Argument.find? name args with
  | none =>
    exact absurd hname (find?_key_eq_none_iff.1 hfind)
  | some a =>
    obtain ⟨text, htext⟩ := h a (List.mem_of_find?_eq_some hfind)
    obtain ⟨_, _, _⟩ := a
    obtain rfl : _ = Literal.string text := htext
    rfl

/-- A directive that is read where an accepted one was written is right. -/
theorem checkDirectives_of_recalls {ds ds' : List Directive} (h : ds.Forall₂ Directive.Recalls ds')
    {location : String} (hds : ∀ d ∈ ds, accepts location d.name (d.arguments.map Argument.name) = true ∧
      ∀ a ∈ d.arguments, ∃ s, a.value = .string s) :
    builtin.checkDirectives location none ds' = .ok () := by
  simp only [checkDirectives, checkAll_eq_ok_iff]
  intro d' hd'
  obtain ⟨d, hd, hrecalls⟩ := exists_of_mem_forall₂ h hd'
  obtain ⟨haccepts, hstrings⟩ := hds d hd
  have hnames : d'.arguments.map Argument.name = d.arguments.map Argument.name :=
    map_eq_of_forall₂ _ _ hrecalls.arguments fun _ _ _ ha => ha.name
  have hgiven : ∀ a' ∈ d'.arguments, ∃ s, a'.value = .string s := by
    intro a' ha'
    obtain ⟨a, ha, harg⟩ := exists_of_mem_forall₂ hrecalls.arguments ha'
    obtain ⟨text, htext⟩ := hstrings a ha
    exact ⟨text, by rw [harg.value, htext]; rfl⟩
  rw [accepts, Bool.and_eq_true, Option.any_eq_true] at haccepts
  obtain ⟨hname, decl, hdecl, haccepts⟩ := haccepts
  simp only [Bool.and_eq_true, List.contains_iff_mem, List.all_eq_true, ← hnames] at haccepts
  obtain ⟨⟨hlocation, hdeclared⟩, hrequired⟩ := haccepts
  refine checkDirective_eq_ok_iff.2 ⟨?_, (Option.some_ne_none _).symm, decl, hrecalls.name ▸ hdecl, hlocation, ?_⟩
  · rw [hrecalls.name]
    simpa using hname
  · rw [checkGivenArguments, then_eq_ok_iff]
    simp only [checkAll_eq_ok_iff, require_eq_ok_iff]
    refine ⟨fun a ha => hdeclared _ (List.mem_map_of_mem ha), fun a ha => ?_⟩
    have ha := hrequired a ha
    simp only [Bool.or_eq_true, List.contains_iff_mem] at ha ⊢
    exact ha.imp_right (isGiven_of_mem hgiven)

/-- The mark of a deprecated element may stand on what can be deprecated. -/
theorem checkDirectives_deprecated {reason : Option String} {ds : List Directive}
    (h : (Schema.deprecatedDirectives reason).Forall₂ Directive.Recalls ds) {location : String}
    (hlocation : location ∈ ["FIELD_DEFINITION", "ARGUMENT_DEFINITION", "INPUT_FIELD_DEFINITION", "ENUM_VALUE"]) :
    builtin.checkDirectives location none ds = .ok () := by
  have hall : ∀ l ∈ ["FIELD_DEFINITION", "ARGUMENT_DEFINITION", "INPUT_FIELD_DEFINITION", "ENUM_VALUE"],
      accepts l "deprecated" [] = true ∧ accepts l "deprecated" ["reason"] = true := by
    with_unfolding_all decide
  refine checkDirectives_of_recalls h fun d hd => ?_
  unfold Schema.deprecatedDirectives at hd
  split at hd
  · cases hd
  · obtain rfl := List.mem_singleton.1 hd
    exact ⟨(hall location hlocation).1, by simp⟩
  · obtain rfl := List.mem_singleton.1 hd
    exact ⟨(hall location hlocation).2, by simp⟩

end TypeSystem

open TypeSystem (checkDirectives_deprecated)

/-! ### Elements -/

namespace Schema
variable {s : Schema}

theorem renews_argumentDefinition {a a' : ArgumentDefinition}
    (h : (s.argumentDefinition (.ofArgument a)).Recalls a') : a.Renews a' :=
  ⟨h.name, h.type.trans (TypeRef.ofExpr_toExpr_ofExpr _),
    checkDirectives_deprecated h.directives (by decide)⟩

theorem renews_argumentDefinitions {as as' : List ArgumentDefinition}
    (h : (as.map fun a => s.argumentDefinition (.ofArgument a)).Forall₂ ArgumentDefinition.Recalls as') :
    as.Forall₂ ArgumentDefinition.Renews as' :=
  (List.forall₂_map_left_iff.1 h).imp fun _ _ => renews_argumentDefinition

theorem checkDirectives_field {reason : Option String} {ds : List Directive}
    (h : (deprecatedDirectives reason).Forall₂ Directive.Recalls ds) (kind : Kind) :
    TypeSystem.builtin.checkDirectives (TypeSystem.fieldLocation kind) none ds = .ok () := by
  refine checkDirectives_deprecated h ?_
  unfold TypeSystem.fieldLocation
  split <;> decide

/-- What is read where a field was written renews the field; fields of input objects take no arguments. -/
theorem renews_declaredField {kind : Kind} {f f' : FieldDefinition}
    (harguments : kind = .inputObject → f.arguments = []) (h : (s.declaredField kind f).Recalls f') :
    f.Renews f' := by
  unfold declaredField at h
  split at h
  · next hk =>
    refine ⟨h.name, h.type.trans (TypeRef.ofExpr_toExpr_ofExpr _), ?_, checkDirectives_field h.directives⟩
    rw [harguments hk, List.forall₂_nil_left_iff.1 h.arguments]
    exact .nil
  · refine ⟨h.name, h.type.trans (TypeRef.ofExpr_toExpr_ofExpr _), ?_, checkDirectives_field h.directives⟩
    refine renews_argumentDefinitions (s := s) ?_
    simpa [fieldDefinition, OutputField.ofField, Function.comp_def] using h.arguments

theorem renews_enumValueDefinition {v v' : EnumValueDefinition}
    (h : (enumValueDefinition (.ofDefinition v)).Recalls v') : v.Renews v' :=
  ⟨h.name, checkDirectives_deprecated h.directives (by decide)⟩

/-! ### Types -/

/-- The directives that are written for a type may stand on it. -/
theorem checkDirectives_ownDirectives {d : Definition} {ds : List Directive}
    (h : d.ownDirectives.Forall₂ Directive.Recalls ds) :
    TypeSystem.builtin.checkDirectives d.kind.text none ds = .ok () := by
  have honeOf : TypeSystem.accepts "INPUT_OBJECT" "oneOf" [] = true := by with_unfolding_all decide
  have hurl : TypeSystem.accepts "SCALAR" "specifiedBy" ["url"] = true := by with_unfolding_all decide
  refine TypeSystem.checkDirectives_of_recalls h fun x hx => ?_
  unfold Definition.ownDirectives at hx
  split at hx
  · next hk =>
    split at hx
    · obtain rfl := List.mem_singleton.1 hx
      exact ⟨hk ▸ honeOf, by simp⟩
    · cases hx
  · next hk =>
    obtain ⟨url, -, rfl⟩ := List.mem_map.1 hx
    exact ⟨hk ▸ hurl, by simp⟩
  · cases hx

/-- What is read where a type of a schema was written renews the type that it was made of. -/
theorem renews_definition {t : NamedType} {d d' : Definition} (ht : t.MadeOf d)
    (hname : isMetaName d.name = false) (h : (s.definition t).Recalls d') : d.Renews d' := by
  obtain ⟨hfielded, hinput, -⟩ := ht.orderly
  obtain ⟨hkind, hname', -, hinterfaces, hdirectives, hmembers, hfields, hvalues, -⟩ := h
  have hkind : d'.kind = d.kind := by rw [hkind, kind_definition, ht.kind]
  rw [ht.interfaces_definition] at hinterfaces
  rw [ht.members_definition] at hmembers
  rw [ht.directives_definition] at hdirectives
  rw [ht.shownFields_definition, List.forall₂_map_left_iff] at hfields
  rw [ht.values_definition, List.forall₂_map_left_iff] at hvalues
  refine ⟨hkind, fun i => ?_, hfielded, fun m hm => ?_, fun hk m hm => ?_, ?_, ?_, ?_, fun _ => ?_⟩
  · simp [hinterfaces, sortNames, (sortBy_perm ..).mem_iff]
  · rw [hmembers] at hm
    split at hm
    · simpa [mem_distinct, sortNames, (sortBy_perm ..).mem_iff] using hm
    · cases hm
  · simpa [hmembers, hk, mem_distinct, sortNames, (sortBy_perm ..).mem_iff] using hm
  · refine List.forall₂_iff_zip.2 ⟨hfields.length_eq, fun {f f'} hzip => ?_⟩
    refine renews_declaredField (fun hk => ?_) ((List.forall₂_iff_zip.1 hfields).2 hzip)
    have hmem : f ∈ d.fields := by
      rcases d.ownFields_eq with hown | hown
      · exact hown ▸ (List.of_mem_zip hzip).1
      · rw [hown] at hzip
        cases hzip
    exact hinput hk f hmem (ht.shown f hmem)
  · exact hvalues.imp fun _ _ => renews_enumValueDefinition
  · rw [hkind]
    exact checkDirectives_ownDirectives hdirectives
  · have hsame : d'.name = d.name := by rw [hname', name_definition, ht.name]
    exact hsame ▸ hname

end Schema

/-! ### Built-in definitions -/

namespace Definition

/-- Whether a type stands alone: it names no other type but as the type of a field, and uses no
directive. -/
def isBare (d : Definition) : Bool :=
  d.interfaces.isEmpty && d.members.isEmpty && d.directives.isEmpty && d.builtIn
    && (d.kind = .object || d.fields.isEmpty) && (d.kind = .enum || d.values.isEmpty)
    && (d.fields.all fun f => f.directives.isEmpty && f.arguments.all (·.directives.isEmpty))
    && (d.values.all fun v => v.directives.isEmpty) && d.kind ≠ .interface

theorem Renews.refl_of_isBare {d : Definition} (h : d.isBare = true) : d.Renews d := by
  simp only [isBare, Bool.and_eq_true, List.isEmpty_iff, Bool.or_eq_true, decide_eq_true_eq,
    List.all_eq_true] at h
  obtain ⟨⟨⟨⟨⟨⟨⟨⟨hinterfaces, hmembers⟩, hdirectives⟩, hbuiltIn⟩, hfields⟩, hvalues⟩, hall⟩, hallValues⟩, -⟩ := h
  refine ⟨rfl, fun _ => Iff.rfl, .inl hinterfaces, fun _ h => h, fun _ _ h => h, ?_, ?_, ?_, ?_⟩
  · have hown : d.ownFields = d.fields := by
      rcases hfields with hk | hnil
      · simp [ownFields, hk]
      · rcases d.ownFields_eq with hown | hown <;> simp [hown, hnil]
    rw [hown]
    refine List.forall₂_same.2 fun f hf => ⟨rfl, rfl, List.forall₂_same.2 fun a ha => ⟨rfl, rfl, ?_⟩, fun _ => ?_⟩
    · rw [(hall f hf).2 a ha]
      rfl
    · rw [(hall f hf).1]
      rfl
  · have hown : d.ownValues = d.values := by
      unfold ownValues
      split
      · rfl
      · next hk => exact (hvalues.resolve_left hk).symm
    rw [hown]
    refine List.forall₂_same.2 fun v hv => ⟨rfl, ?_⟩
    rw [hallValues v hv]
    rfl
  · rw [hdirectives]
    rfl
  · simp [hbuiltIn]

end Definition

theorem isBare_of_mem_builtinDocument : ∀ d ∈ builtinDocument.definitions, d.isBare = true := by
  decide

theorem check_builtin : TypeSystem.builtin.check = .ok () := by
  have h : TypeSystem.builtin.check.toOption.isSome = true := by with_unfolding_all decide
  cases hcheck : TypeSystem.builtin.check with
  | error e => simp [hcheck, Except.toOption] at h
  | ok u => rfl

namespace Schema

/-! ### Implied types -/

section
variable {s : Schema} {base : TypeSystem} (h : s.MadeOf base)
include h

theorem MadeOf.eq_of_name_eq {d e : Definition} (hd : d ∈ base.types) (he : e ∈ base.types)
    (hname : d.name = e.name) : d = e := by
  have hfound := find?_key_of_mem h.sound.declarable.distinct hd
  rw [hname, find?_key_of_mem h.sound.declarable.distinct he] at hfound
  exact (Option.some.inj hfound).symm

/-- A type with the name of an implied one is of the kind of a built-in type. -/
theorem MadeOf.exists_builtin {d : Definition} (hd : d ∈ base.types)
    (himplied : isImpliedType d.name = true) :
    ∃ b ∈ builtinDocument.definitions, b.name = d.name ∧ b.kind = d.kind := by
  have hscalars : ∀ b ∈ builtinScalars, ∃ e ∈ builtinDocument.definitions, e.name = b.name := by
    decide
  obtain ⟨b, hb, hname⟩ : ∃ b ∈ builtinDocument.definitions, b.name = d.name := by
    rw [isImpliedType, Bool.or_eq_true] at himplied
    rcases himplied with hscalar | hmeta
    · obtain ⟨t, ht⟩ := Option.isSome_iff_exists.1 hscalar
      rw [← name_of_builtinScalar? ht]
      exact hscalars t (List.mem_of_find?_eq_some ht)
    · have hcheck := (TypeSystem.check_eq_ok_iff.1 h.checked).1 d hd
      obtain ⟨-, -, -, -, -, hbuiltIn, -⟩ := TypeSystem.checkDefinition_eq_ok_iff.1 hcheck
      obtain ⟨-, -, -, -, -, -, horderly⟩ := Definition.isNamed_iff.1 (h.sound.declarable.named d hd)
      refine (Definition.isOrderly_iff.1 horderly).2.2 ?_
      by_contra hnot
      exact Bool.false_ne_true ((hbuiltIn (Bool.not_eq_true _ ▸ hnot)).symm.trans hmeta)
  obtain ⟨e, he, hename, hkind⟩ := h.builtins b hb
  rw [h.eq_of_name_eq he hd (hename.trans hname)] at hkind
  exact ⟨b, hb, hname, hkind.symm⟩

theorem MadeOf.kind_ne_interface {d : Definition} (hd : d ∈ base.types)
    (himplied : isImpliedType d.name = true) : d.kind ≠ .interface ∧ d.kind ≠ .union := by
  have hall : ∀ b ∈ builtinDocument.definitions, b.kind ≠ .interface ∧ b.kind ≠ .union := by
    decide
  obtain ⟨b, hb, -, hkind⟩ := h.exists_builtin hd himplied
  exact hkind ▸ hall b hb

/-- An implied type names no interface if its type in the schema names none. -/
theorem MadeOf.interfaces_eq_nil (hnone : ∀ t ∈ s.types, isImpliedType t.name = true → t.interfaces = [])
    {d : Definition} (hd : d ∈ base.types) (himplied : isImpliedType d.name = true) :
    d.interfaces = [] := by
  obtain ⟨-, -, -, -, -, -, horderly⟩ := Definition.isNamed_iff.1 (h.sound.declarable.named d hd)
  rcases (Definition.isOrderly_iff.1 horderly).1 with hnil | hk | hk
  · exact hnil
  · have hscalar : builtinScalar? d.name = none := by
      have hall : ∀ b ∈ builtinDocument.definitions, (builtinScalar? b.name).isSome = true →
          b.kind = .scalar := by
        decide
      obtain ⟨b, hb, hname, hkind⟩ := h.exists_builtin hd himplied
      by_contra hsome
      rw [← hname] at hsome
      have hkind' := hall b hb (Option.isSome_iff_ne_none.2 hsome)
      exact absurd (hkind'.symm.trans (hkind.trans hk)) (by decide)
    obtain ⟨t, ht, hmade⟩ := h.exists_type hd hscalar
    have hnil := hnone t (List.mem_of_find?_eq_some ht) (hmade.name ▸ himplied)
    have hperm : (sortNames d.interfaces).Perm d.interfaces := sortBy_perm ..
    have hsorted : sortNames d.interfaces = [] := by
      obtain ⟨_, _, _, rfl⟩ := hmade.made
      simpa [NamedType.ofDefinition, Definition.withFields, hk] using hnil
    exact List.Perm.nil_eq (hsorted ▸ hperm) |>.symm
  · exact absurd hk (h.kind_ne_interface hd himplied).1

end

/-! ### The type system that is read -/

section
variable {s : Schema} {base ts : TypeSystem} {doc : TypeSystemDocument} (h : s.MadeOf base)
  (hnone : ∀ t ∈ s.types, isImpliedType t.name = true → t.interfaces = [])
  (hdoc : s.toDocument.Recalls doc)
  (htypes : ts.types = (builtinDocument.append doc).definitions)
  (hdirectives : ts.directives = (builtinDocument.append doc).directives)

include hdirectives in
theorem keepsDirectives : ts.KeepsDirectives := by
  intro name decl hdecl
  have hfound : builtinDocument.directives.find? (fun d => d.name = name) = some decl := hdecl
  rw [TypeSystem.directive?, hdirectives, TypeSystemDocument.append, List.find?_append, hfound,
    Option.some_or]

include htypes in
theorem type?_of_builtin {name : String} {d : Definition}
    (hd : TypeSystem.builtin.type? name = some d) : ts.type? name = some d := by
  have hfound : builtinDocument.definitions.find? (fun d => d.name = name) = some d := hd
  rw [TypeSystem.type?, htypes, TypeSystemDocument.append, List.find?_append, hfound, Option.some_or]

include htypes in
theorem type?_of_not_implied {name : String} (himplied : isImpliedType name = false) :
    ts.type? name = doc.definitions.find? fun d => d.name = name := by
  have hnone : builtinDocument.definitions.find? (fun d => d.name = name) = none :=
    find?_key_eq_none_of_test isImpliedType isImpliedType_of_mem_builtinDocument himplied
  rw [TypeSystem.type?, htypes, TypeSystemDocument.append, List.find?_append, hnone, Option.none_or]

include h hdoc htypes in
theorem MadeOf.exists_renews {d : Definition} (hd : d ∈ base.types)
    (himplied : isImpliedType d.name = false) :
    ∃ d', ts.type? d.name = some d' ∧ d.Renews d' := by
  obtain ⟨t, ht, hmade⟩ := h.exists_type hd (builtinScalar?_eq_none himplied)
  have hwritten := s.find?_definitions_toDocument himplied
  rw [ht, Option.map_some] at hwritten
  obtain ⟨d', hd', hrecalls⟩ :=
    exists_find?_of_forall₂ hdoc.definitions (fun _ _ hd => hd.name) hwritten
  exact ⟨d', (type?_of_not_implied htypes himplied).trans hd',
    renews_definition hmade (Bool.or_eq_false_iff.1 himplied).2 hrecalls⟩

include h hnone hdoc htypes hdirectives in
theorem MadeOf.renews : base.Renews ts := by
  refine ⟨h.sound.declarable.distinct, fun name d hd => ?_, keepsDirectives hdirectives⟩
  obtain rfl : d.name = name := by simpa using List.find?_some hd
  have hmem : d ∈ base.types := List.mem_of_find?_eq_some hd
  cases himplied : isImpliedType d.name with
  | false =>
    obtain ⟨d', hd', hrenews⟩ := h.exists_renews hdoc htypes hmem himplied
    exact ⟨d', hd', hrenews.standsFor⟩
  | true =>
    obtain ⟨b, hb, hname, hkind⟩ := h.exists_builtin hmem himplied
    have hfound : TypeSystem.builtin.type? b.name = some b :=
      find?_key_of_mem nodup_names_builtinDocument hb
    have hnot := h.kind_ne_interface hmem himplied
    refine ⟨b, hname ▸ type?_of_builtin htypes hfound, hkind, ?_, ?_, ?_⟩
    · simp [h.interfaces_eq_nil hnone hmem himplied]
    · exact fun hk => absurd hk hnot.2
    · exact fun hk => absurd hk hnot.1

include htypes hdirectives in
theorem builtin_renews : TypeSystem.builtin.Renews ts := by
  refine ⟨nodup_names_builtinDocument, fun name d hd => ?_, keepsDirectives hdirectives⟩
  have hbare := isBare_of_mem_builtinDocument d (List.mem_of_find?_eq_some hd)
  exact ⟨d, type?_of_builtin htypes hd, (Definition.Renews.refl_of_isBare hbare).standsFor⟩

end

/-! ### Checks -/

end Schema

/-- Whether what fields take beyond the fields of interfaces may be left out. -/
def TypeSystemDocument.extrasOptional (doc : TypeSystemDocument) : Bool :=
  doc.definitions.all fun d => doc.definitions.all fun i =>
    !d.interfaces.contains i.name || i.shownFields.all fun r =>
      (d.shownFields.find? (·.name = r.name)).all fun f => TypeSystem.extrasOptional r f

theorem isRequired_of_recalls {a a' : ArgumentDefinition} (h : a.Recalls a') :
    TypeSystem.isRequired a' = TypeSystem.isRequired a := by
  rw [TypeSystem.isRequired, TypeSystem.isRequired, ← TypeRef.isNonNull_ofExpr, h.type,
    TypeRef.isNonNull_ofExpr, h.default, Option.isNone_map]

theorem extrasOptional_of_recalls {r r' f f' : FieldDefinition} (hr : r.Recalls r') (hf : f.Recalls f')
    (h : TypeSystem.extrasOptional r f = true) : TypeSystem.extrasOptional r' f' = true := by
  have hnames : r'.arguments.map ArgumentDefinition.name = r.arguments.map ArgumentDefinition.name :=
    map_eq_of_forall₂ _ _ hr.arguments fun _ _ _ ha => ha.name
  have hany (args : List ArgumentDefinition) (name : String) :
      args.any (·.name = name) = (args.map ArgumentDefinition.name).contains name := by
    rw [Bool.eq_iff_iff]
    simp only [List.any_eq_true, decide_eq_true_eq, List.contains_iff_mem, List.mem_map]
  refine List.all_eq_true.2 fun b' hb' => ?_
  obtain ⟨b, hb, hrecalls⟩ := exists_of_mem_forall₂ hf.arguments hb'
  have hok := List.all_eq_true.1 h b hb
  rw [hany] at hok ⊢
  rw [hnames, hrecalls.name, isRequired_of_recalls hrecalls]
  exact hok

namespace Schema

section
variable {s : Schema} {base ts : TypeSystem} {doc : TypeSystemDocument} (h : s.MadeOf base)
  (hnone : ∀ t ∈ s.types, isImpliedType t.name = true → t.interfaces = [])
  (hdoc : s.toDocument.Recalls doc)
  (htypes : ts.types = (builtinDocument.append doc).definitions)
  (hdirectives : ts.directives = (builtinDocument.append doc).directives)

include h in
/-- A type that is written was made of a type that its text renews. -/
theorem MadeOf.exists_of_mem_toDocument {d : Definition} (hd : d ∈ s.toDocument.definitions) :
    ∃ e ∈ base.types, ∀ d', d.Recalls d' → e.Renews d' := by
  have himplied := s.isImpliedType_of_mem_toDocument hd
  obtain ⟨t, e, rfl, he, hmade⟩ := h.exists_of_mem_definitions hd
  refine ⟨e, he, fun d' => renews_definition hmade ?_⟩
  rw [name_definition, hmade.name] at himplied
  exact (Bool.or_eq_false_iff.1 himplied).2

include h in
/-- A directive that is written was made of one that takes the same arguments. -/
theorem MadeOf.exists_of_mem_directives {d : DirectiveDefinition} (hd : d ∈ s.toDocument.directives) :
    ∃ e ∈ base.directives, d.name = e.name ∧ impliedDirectives.contains e.name = false ∧
      ∀ d', d.Recalls d' → e.arguments.Forall₂ ArgumentDefinition.Renews d'.arguments := by
  have himplied := s.not_implied_of_mem_toDocument hd
  obtain ⟨t, ht, rfl⟩ := List.mem_map.1 hd
  have hfound : s.directive? t.name = some t :=
    find?_key_of_mem h.directives.nodup_keys (List.mem_filter.1 ht).1
  rw [h.directive t.name himplied] at hfound
  obtain ⟨e, he, rfl⟩ := Option.map_eq_some_iff.1 hfound
  refine ⟨e, List.mem_of_find?_eq_some he, rfl, himplied, fun d' hd' => ?_⟩
  refine renews_argumentDefinitions (s := s) ?_
  simpa [directiveDefinition, DirectiveType.ofDefinition, Function.comp_def] using hd'.arguments

include h hdoc htypes in
theorem MadeOf.extrasOptional (hextra : s.toDocument.extrasOptional = true) {e d d' : Definition}
    (he : e ∈ base.types) (hd : d ∈ s.toDocument.definitions) (hrecalls : d.Recalls d')
    (hrenews : e.Renews d') :
    ∀ name ∈ d'.interfaces, ∀ i ∈ ts.type? name, ∀ r ∈ i.fields,
      ∀ f ∈ d'.fields.find? (·.name = r.name), TypeSystem.extrasOptional r f = true := by
  intro name hname i' hi' r' hr' f' hf'
  -- The interface is none of the implied types, which are of other kinds, so it was written.
  have himplied : isImpliedType name = false := by
    have hcheck := (TypeSystem.check_eq_ok_iff.1 h.checked).1 e he
    have himplements := (TypeSystem.checkDefinition_eq_ok_iff.1 hcheck).2.2.1 name
      ((hrenews.interfaces name).1 hname)
    obtain ⟨j, hj, hkind, -⟩ := TypeSystem.checkImplements_eq_ok_iff.1 himplements
    obtain rfl : j.name = name := by simpa using List.find?_some hj
    by_contra hnot
    exact (h.kind_ne_interface (List.mem_of_find?_eq_some hj) (Bool.not_eq_false _ ▸ hnot)).1 hkind
  rw [Option.mem_def, type?_of_not_implied htypes himplied] at hi'
  have hiname : i'.name = name := by simpa using List.find?_some hi'
  obtain ⟨i, hi, hirecalls⟩ := exists_of_mem_forall₂ hdoc.definitions (List.mem_of_find?_eq_some hi')
  obtain ⟨r, hr, hrrecalls⟩ := exists_of_mem_forall₂ hirecalls.fields hr'
  have hrel := rel_find?_of_forall₂ hrecalls.fields (fun _ _ hf => hf.name) r'.name
  rw [hf'] at hrel
  obtain ⟨f, hf, hfrecalls⟩ := exists_of_rel_some_right hrel
  have hcontains : d.interfaces.contains i.name = true := by
    rw [← hirecalls.name, hiname, ← hrecalls.interfaces]
    simpa using hname
  have hok := List.all_eq_true.1 (List.all_eq_true.1 hextra d hd) i hi
  rw [hcontains, Bool.not_true, Bool.false_or] at hok
  have hok := List.all_eq_true.1 hok r hr
  rw [← hrrecalls.name, hf] at hok
  exact extrasOptional_of_recalls hrrecalls hfrecalls hok

include h hnone hdoc htypes hdirectives in
/-- What is read from the text of a schema passes its checks. -/
theorem MadeOf.check (hextra : s.toDocument.extrasOptional = true) : ts.check = .ok () := by
  have hrenews := h.renews hnone hdoc htypes hdirectives
  have hbuiltin := builtin_renews htypes hdirectives
  obtain ⟨hbuiltinTypes, hbuiltinDirectives⟩ := TypeSystem.check_eq_ok_iff.1 check_builtin
  obtain ⟨hbaseTypes, hbaseDirectives⟩ := TypeSystem.check_eq_ok_iff.1 h.checked
  rw [TypeSystem.check_eq_ok_iff, htypes, hdirectives]
  constructor
  · refine List.forall_mem_append.2 ⟨fun d hd => ?_, fun d' hd' => ?_⟩
    · have hbare := isBare_of_mem_builtinDocument d hd
      refine TypeSystem.checkDefinition_of_renews hbuiltin (Definition.Renews.refl_of_isBare hbare)
        (hbuiltinTypes d hd) ?_
      have hnil : ∀ d ∈ builtinDocument.definitions, d.interfaces = [] := by decide
      simp [hnil d hd]
    · obtain ⟨d, hd, hrecalls⟩ := exists_of_mem_forall₂ hdoc.definitions hd'
      obtain ⟨e, he, hrenewed⟩ := h.exists_of_mem_toDocument hd
      exact TypeSystem.checkDefinition_of_renews hrenews (hrenewed d' hrecalls) (hbaseTypes e he)
        (h.extrasOptional hdoc htypes hextra he hd hrecalls (hrenewed d' hrecalls))
  · refine List.forall_mem_append.2 ⟨fun d hd => ?_, fun d' hd' => ?_⟩
    · have hbare : ∀ d ∈ builtinDocument.directives, ∀ a ∈ d.arguments, a.directives = [] := by
        have hall : ∀ d ∈ builtinDocument.directives,
            (d.arguments.all (·.directives.isEmpty)) = true := by
          decide
        intro d hd a ha
        simpa using List.all_eq_true.1 (hall d hd) a ha
      refine ⟨(hbuiltinDirectives d hd).1, TypeSystem.checkArguments_of_renews hbuiltin
        (fun _ _ => .inr (hbare d hd)) (List.forall₂_same.2 fun a ha => ⟨rfl, rfl, ?_⟩)
        (hbuiltinDirectives d hd).2⟩
      rw [hbare d hd a ha]
      rfl
    · obtain ⟨d, hd, hrecalls⟩ := exists_of_mem_forall₂ hdoc.directives hd'
      obtain ⟨e, he, hname, himplied, hrenewed⟩ := h.exists_of_mem_directives hd
      obtain ⟨hmeta, hargs⟩ := hbaseDirectives e he
      have hnot : TypeSystem.builtin.directive? e.name = none :=
        find?_key_eq_none_of_test impliedDirectives.contains implied_of_mem_builtinDocument himplied
      rw [hrecalls.name, hname]
      exact ⟨hmeta, TypeSystem.checkArguments_of_renews hrenews (by simp [hnot])
        (hrenewed d' hrecalls) hargs⟩

end

end Schema

/-! ### Loading -/

/-- A loop that puts elements of new names behind the others gives them all. -/
theorem foldlM_eq_append {ε α : Type} (key : α → String) {f : List α → α → Except ε (List α)}
    (hf : ∀ as a, key a ∉ as.map key → f as a = .ok (as ++ [a])) {xs as : List α}
    (hnd : ((as ++ xs).map key).Nodup) : xs.foldlM f as = .ok (as ++ xs) := by
  induction xs generalizing as with
  | nil => simp [pure, Except.pure]
  | cons x rest ih =>
    have hnot : key x ∉ as.map key := by
      rw [List.map_append, List.nodup_append] at hnd
      exact fun hmem => hnd.2.2 _ hmem _ (List.mem_map_of_mem List.mem_cons_self) rfl
    rw [List.foldlM_cons, hf as x hnot]
    exact (ih (by simpa using hnd)).trans (by simp)

namespace TypeSystem

theorem foldlM_declareType {ds : List Definition} (hnd : (ds.map Definition.name).Nodup) :
    ds.foldlM declareType [] = .ok ds := by
  refine foldlM_eq_append Definition.name (fun as a hnot => if_neg ?_) hnd
  simpa using hnot

theorem foldlM_declareDirective {ds : List DirectiveDefinition}
    (hnd : (ds.map DirectiveDefinition.name).Nodup) : ds.foldlM declareDirective [] = .ok ds := by
  refine foldlM_eq_append DirectiveDefinition.name (fun as a hnot => if_neg ?_) hnd
  simpa using hnot

theorem exists_foldlM_declareRoot {ts : TypeSystem} {rs : List RootDefinition}
    (h : ∀ r ∈ rs, (ts.type? r.type).isSome = true) : ∃ ts', rs.foldlM declareRoot ts = .ok ts' := by
  induction rs generalizing ts with
  | nil => exact ⟨ts, rfl⟩
  | cons r rest ih =>
    rw [List.foldlM_cons, declareRoot, if_pos (h r List.mem_cons_self)]
    refine ih fun r' hr' => ?_
    rw [type?, types_setRoot]
    exact h r' (List.mem_cons_of_mem r hr')

theorem exists_declareSchema {ts : TypeSystem} {sd : SchemaDefinition} (hds : sd.directives = [])
    (h : ∀ r ∈ sd.roots, (ts.type? r.type).isSome = true) : ∃ ts', ts.declareSchema sd = .ok ts' := by
  obtain ⟨ts', hroots⟩ := exists_foldlM_declareRoot h
  refine ⟨ts', ?_⟩
  rw [declareSchema, hroots, hds]
  rfl

/-- A document that extends nothing, with names of their own and roots that exist, gives a type system if
its declarations pass the checks. -/
theorem exists_ofDocument {doc : TypeSystemDocument} (hextensions : doc.extensions = [])
    (hschemaExtensions : doc.schemaExtensions = []) (hlength : doc.schemas.length ≤ 1)
    (hdefinitions : (doc.definitions.map Definition.name).Nodup)
    (hdirectives : (doc.directives.map DirectiveDefinition.name).Nodup)
    (hschemas : ∀ sd ∈ doc.schemas, sd.directives = [] ∧
      ∀ r ∈ sd.roots, (doc.definitions.find? fun d => d.name = r.type).isSome = true)
    (hcheck : ∀ ts : TypeSystem, ts.types = doc.definitions → ts.directives = doc.directives →
      ts.check = .ok ()) : ∃ ts, ofDocument doc = .ok ts := by
  unfold ofDocument
  rw [foldlM_declareType hdefinitions, foldlM_declareDirective hdirectives, hextensions, hschemaExtensions]
  rcases hdoc : doc.schemas with _ | ⟨sd, _ | ⟨_, _⟩⟩
  · simp only [List.foldlM_nil, bind, Except.bind, pure, Except.pure]
    rw [hcheck _ rfl rfl]
    exact ⟨_, rfl⟩
  · obtain ⟨hds, hroots⟩ := hschemas sd (by simp [hdoc])
    obtain ⟨ts', hts'⟩ := @exists_declareSchema
      { types := doc.definitions, directives := doc.directives, description := sd.description } sd hds hroots
    obtain ⟨htypes, hdirectives⟩ := types_of_declareSchema hts'
    simp only [List.foldlM_nil, List.foldlM_cons, bind, Except.bind, pure, Except.pure, List.head?_cons,
      Option.map_some, Option.getD_some, hts']
    rw [hcheck _ htypes hdirectives]
    exact ⟨_, rfl⟩
  · simp [hdoc] at hlength

end TypeSystem

namespace Schema

theorem ofText_eq_ok {text : String} {doc : TypeSystemDocument} {ts : TypeSystem}
    (hparse : TypeSystemDocument.parse { name := "schema.graphql", text } = .ok doc)
    (hts : TypeSystem.ofDocument (builtinDocument.append doc) = .ok ts) :
    ofText text = .ok (ofTypeSystem ts) := by
  have hall : TypeSystemDocument.parseAll [{ name := "schema.graphql", text }] = .ok doc := by
    rw [TypeSystemDocument.parseAll, List.foldlM_cons, hparse]
    rfl
  rw [ofText, load, TypeSystem.ofSources, hall]
  change ofTypeSystem <$> (TypeSystem.ofDocument (builtinDocument.append doc)).mapError _ = _
  rw [hts]
  rfl

/-- The text of a loaded schema can be loaded again if it is legible, if what fields take beyond the fields
of interfaces may be left out, and if no implied type names an interface. -/
theorem exists_ofText_render {text : String} {s : Schema} (hs : ofText text = .ok s)
    (hlegible : s.toDocument.isLegible = true) (hextra : s.toDocument.extrasOptional = true)
    (hnone : ∀ t ∈ s.types, isImpliedType t.name = true → t.interfaces = []) :
    ∃ s', ofText s.render = .ok s' := by
  obtain ⟨base, h⟩ := exists_madeOf_of_ofText hs
  obtain ⟨doc, hparse, hdoc⟩ := exists_parse_render hlegible "schema.graphql"
  have hcheck (ts : TypeSystem) (htypes : ts.types = (builtinDocument.append doc).definitions)
      (hdirectives : ts.directives = (builtinDocument.append doc).directives) : ts.check = .ok () :=
    h.check hnone hdoc htypes hdirectives hextra
  have hdefinitions : ((builtinDocument.append doc).definitions.map Definition.name).Nodup := by
    have hnames := nodup_names_append_toDocument h.types
    rw [TypeSystemDocument.append, List.map_append] at hnames ⊢
    rwa [map_eq_of_forall₂ _ _ hdoc.definitions fun _ _ _ hd => hd.name]
  have hdirectives : ((builtinDocument.append doc).directives.map DirectiveDefinition.name).Nodup := by
    have hnames := nodup_directive_names_append_toDocument h.directives
    rw [TypeSystemDocument.append, List.map_append] at hnames ⊢
    rwa [map_eq_of_forall₂ _ _ hdoc.directives fun _ _ _ hd => hd.name]
  have hlength : doc.schemas.length ≤ 1 := by
    have hsame : doc.schemas.length = s.schemaDefinition?.toList.length := hdoc.schemas.length_eq.symm
    rw [hsame]
    cases s.schemaDefinition? <;> simp
  have hschemas (sd' : SchemaDefinition) (hsd' : sd' ∈ doc.schemas) : sd'.directives = [] ∧ ∀ r ∈ sd'.roots,
      ((builtinDocument.append doc).definitions.find? fun d => d.name = r.type).isSome = true := by
    obtain ⟨sd, hsd, hrecalls⟩ := exists_of_mem_forall₂ hdoc.schemas hsd'
    refine ⟨hrecalls.directives, fun r hr => ?_⟩
    have hroot : (r.operation, r.type) ∈ s.roots.map fun r => (r.1, r.2.1) := by
      rw [← outline_of_schemaDefinition? (Option.mem_toList.1 hsd), ← hrecalls.outline]
      exact List.mem_map_of_mem hr
    obtain ⟨root, hmem, heq⟩ := List.mem_map.1 hroot
    obtain ⟨hname, hset⟩ := mem_roots hmem
    obtain ⟨d, hd⟩ := Option.isSome_iff_exists.1 (h.rooted root.1 hset)
    have hrenews := @MadeOf.renews s base
      { types := (builtinDocument.append doc).definitions
        directives := (builtinDocument.append doc).directives } doc h hnone hdoc rfl rfl
    obtain ⟨d', hd', -⟩ := hrenews.types _ d hd
    rw [← hname, (Prod.mk.inj heq).2] at hd'
    exact Option.isSome_iff_exists.2 ⟨d', hd'⟩
  obtain ⟨ts, hts⟩ := @TypeSystem.exists_ofDocument (builtinDocument.append doc) hdoc.extensions
    hdoc.schemaExtensions hlength hdefinitions hdirectives hschemas hcheck
  exact ⟨_, ofText_eq_ok hparse hts⟩

end Schema

end OperationGraph
