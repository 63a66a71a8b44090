import OperationGraph.Proofs.Schema.Reloading

/-! # A schema and what is read from its text

The schema that is read from the text of another one has, under every name that is written, a type that was
read where the other schema wrote its type, and directives likewise; it declares the same roots
(`readAs_of_ofText`). -/

namespace OperationGraph

/-- Two options that are related to a third one are related. -/
theorem rel_of_rel_map {α β γ δ : Type} {R : γ → δ → Prop} {S : β → δ → Prop} {T : α → β → Prop} {f : α → γ}
    {a? : Option α} {b? : Option β} {c? : Option δ} (h : Option.Rel R (a?.map f) c?) (h' : Option.Rel S b? c?)
    (hT : ∀ a, a? = some a → ∀ c b, R (f a) c → S b c → T a b) : Option.Rel T a? b? := by
  cases a? with
  | none =>
    cases h with
    | none =>
      cases h' with
      | none => exact .none
  | some a =>
    obtain ⟨c, rfl, hac⟩ := exists_of_rel_some h
    obtain ⟨b, rfl, hbc⟩ := exists_of_rel_some_right h'
    exact .some (hT a rfl c b hac hbc)

def NamedType.ReadAs (s : Schema) (t t' : NamedType) : Prop :=
  ∃ d d', t.MadeOf d ∧ t'.MadeOf d' ∧ (s.definition t).Recalls d'

def DirectiveType.ReadAs (s : Schema) (d d' : DirectiveType) : Prop :=
  ∃ e e', d = .ofDefinition e ∧ d' = .ofDefinition e' ∧ (s.directiveDefinition d).Recalls e'

namespace Schema

def writtenDirective? (s : Schema) (name : String) : Option DirectiveType :=
  (s.directives.filter isWritten).find? fun d => d.name = name

structure ReadAs (s s' : Schema) : Prop where
  made : ∃ base, s.MadeOf base
  remade : ∃ base, s'.MadeOf base
  types : ∀ name, isImpliedType name = false →
    Option.Rel (NamedType.ReadAs s) (s.lookup name) (s'.lookup name)
  directives : ∀ name,
    Option.Rel (DirectiveType.ReadAs s) (s.writtenDirective? name) (s'.writtenDirective? name)
  roots : s'.schemaDefinition? = s.schemaDefinition?

/-! ### Fields -/

theorem declaredField_eq (s : Schema) (kind : Kind) (f : FieldDefinition) :
    (s.declaredField kind f).name = f.name ∧ (s.declaredField kind f).description = f.description ∧
      (s.declaredField kind f).type = (TypeRef.ofExpr f.type).toExpr ∧
      (s.declaredField kind f).directives = deprecatedDirectives (deprecation? f.directives) := by
  unfold declaredField
  split <;> exact ⟨rfl, rfl, rfl, rfl⟩

/-- The type of a field is read back. -/
theorem ofExpr_type_of_declaredField {s : Schema} {kind : Kind} {f f' : FieldDefinition}
    (h : (s.declaredField kind f).Recalls f') : TypeRef.ofExpr f'.type = TypeRef.ofExpr f.type := by
  rw [h.type, (declaredField_eq s kind f).2.2.1, TypeRef.ofExpr_toExpr_ofExpr]

/-! ### Directives -/

theorem writtenDirective?_eq_none (s : Schema) {name : String}
    (himplied : impliedDirectives.contains name = true) : s.writtenDirective? name = none := by
  rw [writtenDirective?, List.find?_eq_none]
  intro d hd hname
  have hname : d.name = name := by simpa using hname
  have hwritten := (List.mem_filter.1 hd).2
  rw [isWritten, hname, himplied, Bool.not_true, Bool.and_false] at hwritten
  cases hwritten

theorem writtenDirective?_eq {s : Schema} (h : Ordered DirectiveType.name s.directives) (name : String) :
    s.writtenDirective? name = (s.directive? name).filter isWritten := by
  cases hfound : s.directive? name with
  | none =>
    have hnot : name ∉ s.directives.map DirectiveType.name := find?_key_eq_none_iff.1 hfound
    rw [writtenDirective?, Option.filter_none, find?_key_eq_none_iff]
    exact fun hmem => hnot ((List.filter_sublist.map _).mem hmem)
  | some d =>
    have hmem : d ∈ s.directives := List.mem_of_find?_eq_some hfound
    obtain rfl : d.name = name := by simpa using List.find?_some hfound
    have hnd : ((s.directives.filter isWritten).map DirectiveType.name).Nodup :=
      h.nodup_keys.sublist (List.filter_sublist.map _)
    by_cases hwritten : isWritten d = true
    · rw [Option.filter_some, if_pos hwritten]
      exact find?_key_of_mem hnd (List.mem_filter.2 ⟨hmem, hwritten⟩)
    · rw [Option.filter_some, if_neg hwritten, writtenDirective?, List.find?_eq_none]
      intro e he hname
      obtain ⟨hemem, hewritten⟩ := List.mem_filter.1 he
      have hfound' := find?_key_of_mem h.nodup_keys hemem
      rw [show e.name = d.name by simpa using hname, find?_key_of_mem h.nodup_keys hmem] at hfound'
      exact hwritten (Option.some.inj hfound' ▸ hewritten)

theorem find?_directives_toDocument (s : Schema) (name : String) :
    s.toDocument.directives.find? (fun d => d.name = name) =
      (s.writtenDirective? name).map s.directiveDefinition := by
  rw [toDocument, List.find?_map]
  rfl

/-! ### Roots -/

theorem schemaDefinition?_congr {s s' : Schema} (h : ∀ op, s'.rootName op = s.rootName op) :
    s'.schemaDefinition? = s.schemaDefinition? := by
  have hroots : s'.roots = s.roots := by
    have hquery : s'.query = s.query := h .query
    have hmutation : s'.mutation = s.mutation := h .mutation
    have hsubscription : s'.subscription = s.subscription := h .subscription
    rw [roots, roots, hquery, hmutation, hsubscription]
  rw [schemaDefinition?, schemaDefinition?, hroots]

/-- No declaration of roots is written where every root that is set has the usual name. -/
theorem schemaDefinition?_eq_none {s : Schema}
    (h : ∀ op : OperationType, s.rootName op = "" ∨ s.rootName op = op.usualRoot) :
    s.schemaDefinition? = none := by
  rw [schemaDefinition?, if_neg]
  intro hany
  obtain ⟨r, hr, hne⟩ := List.any_eq_true.1 hany
  obtain ⟨hmem, hset⟩ := List.mem_filter.1 hr
  simp only [List.mem_cons, List.not_mem_nil, or_false] at hmem
  rcases hmem with rfl | rfl | rfl
  · have hquery := h .query
    simp_all [rootName, OperationType.usualRoot]
  · have hmutation := h .mutation
    simp_all [rootName, OperationType.usualRoot]
  · have hsubscription := h .subscription
    simp_all [rootName, OperationType.usualRoot]

theorem schemaDefinition?_of_ofText_render {s s' : Schema} (hlegible : s.toDocument.isLegible = true)
    (h : ofText s.render = .ok s') : s'.schemaDefinition? = s.schemaDefinition? := by
  have hroot := rootName_of_ofText_render hlegible h
  cases hsd : s.schemaDefinition? with
  | some sd =>
    rw [← hsd]
    apply schemaDefinition?_congr
    intro op
    rw [hroot, hsd]
    rfl
  | none =>
    apply schemaDefinition?_eq_none
    intro op
    rw [hroot, hsd]
    by_cases hsome : (s.lookup op.usualRoot).isSome = true
    · simp [hsome]
    · simp [hsome]

/-! ### Loading -/

/-- What is read from the text of a schema is made of the built-in declarations and those of the text. -/
theorem exists_madeOf_of_ofText_render {s s' : Schema} (hordered : Ordered DirectiveType.name s.directives)
    (hlegible : s.toDocument.isLegible = true) (hs' : ofText s.render = .ok s') :
    ∃ doc base, s.toDocument.Recalls doc ∧ s'.MadeOf base ∧
      base.types = (builtinDocument.append doc).definitions ∧
      base.directives = (builtinDocument.append doc).directives := by
  obtain ⟨doc, hparse, hdoc⟩ := exists_parse_render hlegible "schema.graphql"
  obtain ⟨doc', ts, hparse', hts, rfl⟩ := exists_of_ofText hs'
  obtain rfl : doc = doc' := Except.ok.inj (hparse.symm.trans hparse')
  have hnamed := named_append (TypeSystemDocument.named_of_parse hparse)
  obtain ⟨base, types, hsound, hcheck, htypes, hextended, hdirectives, rfl⟩ :=
    TypeSystem.exists_checked_of_ofDocument hnamed hts
  obtain rfl : types = (builtinDocument.append doc).definitions := by
    simpa using TypeSystem.eq_append_of_declareType htypes
  have hbase : base.types = (builtinDocument.append doc).definitions := by
    have hnone : (builtinDocument.append doc).extensions = [] := hdoc.extensions
    rw [hnone] at hextended
    exact (Except.ok.inj hextended).symm
  have hnd : ((builtinDocument.append doc).directives.map DirectiveDefinition.name).Nodup := by
    have hnames := nodup_directive_names_append_toDocument hordered
    rw [TypeSystemDocument.append, List.map_append] at hnames ⊢
    rwa [map_eq_of_forall₂ _ _ hdoc.directives fun _ _ _ hd => hd.name]
  rw [TypeSystem.foldlM_declareDirective hnd] at hdirectives
  refine ⟨doc, base, hdoc, madeOf_addMetaFields hsound hcheck (fun b hb => ?_) ?_, hbase,
    (Except.ok.inj hdirectives).symm⟩
  · exact ⟨b, hbase ▸ List.mem_append_left _ hb, rfl, rfl⟩
  · split
    · exact .inr rfl
    · exact .inl rfl

section
variable {s s' : Schema} {base base' : TypeSystem} {doc : TypeSystemDocument} (h : s.MadeOf base)
  (h' : s'.MadeOf base') (hdoc : s.toDocument.Recalls doc)
include h h' hdoc

theorem rel_lookup_of_recalls (htypes : base'.types = (builtinDocument.append doc).definitions) {name : String}
    (himplied : isImpliedType name = false) :
    Option.Rel (NamedType.ReadAs s) (s.lookup name) (s'.lookup name) := by
  have hscalar := builtinScalar?_eq_none himplied
  have hread := rel_find?_of_forall₂ hdoc.definitions (fun _ _ hd => hd.name) name
  rw [s.find?_definitions_toDocument himplied, ← type?_of_not_implied htypes himplied] at hread
  apply rel_of_rel_map hread (h'.lookup name hscalar)
  intro t ht d' t' hrecalls hmade'
  obtain ⟨d, -, hmade⟩ := h.exists_definition ht hscalar
  exact ⟨d, d', hmade, hmade', hrecalls⟩

/-- All directives of the text are written again. -/
theorem rel_writtenDirective?_of_recalls
    (hdirectives : base'.directives = (builtinDocument.append doc).directives) {name : String}
    (himplied : impliedDirectives.contains name = false) :
    Option.Rel (DirectiveType.ReadAs s) (s.writtenDirective? name) (s'.writtenDirective? name) := by
  have hread := rel_find?_of_forall₂ hdoc.directives (fun _ _ hd => hd.name) name
  have hfound : base'.directive? name = doc.directives.find? fun d => d.name = name := by
    have hnone : builtinDocument.directives.find? (fun d => d.name = name) = none :=
      find?_key_eq_none_of_test impliedDirectives.contains implied_of_mem_builtinDocument himplied
    rw [TypeSystem.directive?, hdirectives, TypeSystemDocument.append, List.find?_append, hnone, Option.none_or]
  have hwritten : Option.Rel (fun d e => d = DirectiveType.ofDefinition e) (s'.writtenDirective? name)
      (doc.directives.find? fun d => d.name = name) := by
    rw [writtenDirective?_eq h'.directives, h'.directive name himplied, hfound]
    cases he : doc.directives.find? fun d => d.name = name with
    | none => exact .none
    | some e =>
      obtain ⟨d, -, hrecalls⟩ := exists_of_mem_forall₂ hdoc.directives (List.mem_of_find?_eq_some he)
      have hname : e.name = name := by simpa using List.find?_some he
      have hisWritten : isWritten (.ofDefinition e) = true := by
        simp only [isWritten, DirectiveType.ofDefinition, hrecalls.builtIn, hname, himplied, Bool.not_false,
          Bool.and_self]
      rw [Option.map_some, Option.filter_some, if_pos hisWritten]
      exact .some rfl
  rw [find?_directives_toDocument] at hread
  apply rel_of_rel_map hread hwritten
  intro d hd e' d' hrecalls hmade'
  have hold := writtenDirective?_eq h.directives name
  rw [hd, h.directive name himplied] at hold
  obtain ⟨hx, -⟩ := Option.filter_eq_some_iff.1 hold.symm
  obtain ⟨e, -, rfl⟩ := Option.map_eq_some_iff.1 hx
  exact ⟨e, e', rfl, hmade', hrecalls⟩

end

/-- A schema that was loaded from the text of a loaded schema was read from it, part by part. -/
theorem readAs_of_ofText {text : String} {s s' : Schema} (hs : ofText text = .ok s)
    (hlegible : s.toDocument.isLegible = true) (hs' : ofText s.render = .ok s') : s.ReadAs s' := by
  obtain ⟨base, h⟩ := exists_madeOf_of_ofText hs
  obtain ⟨doc, base', hdoc, h', htypes, hdirectives⟩ :=
    exists_madeOf_of_ofText_render h.directives hlegible hs'
  refine ⟨⟨base, h⟩, ⟨base', h'⟩, fun name himplied => rel_lookup_of_recalls h h' hdoc htypes himplied,
    fun name => ?_, schemaDefinition?_of_ofText_render hlegible hs'⟩
  cases himplied : impliedDirectives.contains name with
  | true =>
    rw [writtenDirective?_eq_none s himplied, writtenDirective?_eq_none s' himplied]
    exact .none
  | false => exact rel_writtenDirective?_of_recalls h h' hdoc hdirectives himplied

end Schema

end OperationGraph
