import OperationGraph.Proofs.Schema.ReadAgain
import OperationGraph.Proofs.Schema.Respelling

/-! # References in a schema that was read again

A schema that was read from the text of another one has the same kinds of types under the same names, and the
same fields of input objects, but for fields of introspection, which only the query root has. Their types are
no enumerations, so both schemas write the same values as names (`ReadAs.matches_alike`). -/

namespace OperationGraph

/-- The types of the fields of introspection, and the reference that is left out. -/
def hiddenTypes : List TypeRef := [.absent, .nonNull (.named "__Schema"), .named "__Type"]

/-- References that are the same, or that both lead to what is not written. -/
def TypeRef.Alike (t t' : TypeRef) : Prop := t' = t ∨ (t ∈ hiddenTypes ∧ t' ∈ hiddenTypes)

/-! ### Fields of input objects -/

namespace NamedType

theorem MadeOf.inputFields_eq_nil {t : NamedType} {d : Definition} (h : t.MadeOf d)
    (hk : d.kind ≠ .inputObject) : t.inputFields = [] := by
  obtain ⟨_, _, _, rfl⟩ := h.made
  cases hkind : d.kind <;> simp_all [ofDefinition, Definition.withFields]

theorem MadeOf.exists_inputFields {t : NamedType} {d : Definition} (h : t.MadeOf d)
    (hk : d.kind = .inputObject) : ∃ extra : List FieldDefinition, (∀ f ∈ extra, f ∈ TypeSystem.metaFields) ∧
      t.inputFields = (d.fields ++ extra).map InputValue.ofField := by
  obtain ⟨implementations, extra, hextra, rfl⟩ := h.made
  exact ⟨extra, hextra, by simp [ofDefinition, Definition.withFields, hk]⟩

/-- A field of a reserved name is one of introspection. -/
theorem MadeOf.type_mem_hiddenTypes {t : NamedType} {d : Definition} (h : t.MadeOf d) {key : String}
    (hkey : isMetaName key = true) {v : InputValue} (hv : t.inputField? key = some v) :
    v.type ∈ hiddenTypes := by
  have hall : ∀ f ∈ TypeSystem.metaFields, TypeRef.ofExpr f.type ∈ hiddenTypes := by decide
  have hmem : v ∈ t.inputFields := List.mem_of_find?_eq_some hv
  have hname : v.name = key := by simpa using List.find?_some hv
  by_cases hk : d.kind = .inputObject
  · obtain ⟨extra, hextra, hfields⟩ := h.exists_inputFields hk
    rw [hfields] at hmem
    obtain ⟨f, hf, rfl⟩ := List.mem_map.1 hmem
    rcases List.mem_append.1 hf with hf | hf
    · have hshown := h.shown f hf
      have hname : f.name = key := hname
      rw [FieldDefinition.isShown_eq, hname, hkey] at hshown
      cases hshown
    · exact hall f (hextra f hf)
  · rw [h.inputFields_eq_nil hk] at hmem
    cases hmem

/-- A field of another name is one that was declared. -/
theorem MadeOf.inputField?_eq {t : NamedType} {d : Definition} (h : t.MadeOf d) (hk : d.kind = .inputObject)
    {key : String} (hkey : isMetaName key = false) :
    t.inputField? key = (d.fields.find? fun f => f.name = key).map InputValue.ofField := by
  obtain ⟨extra, hextra, hfields⟩ := h.exists_inputFields hk
  have hnone : extra.find? (fun f => f.name = key) = none :=
    find?_key_eq_none_of_test isMetaName
      (fun f hf => TypeSystem.isMetaName_of_mem_metaFields f (hextra f hf)) hkey
  rw [inputField?, hfields, List.find?_map]
  change Option.map InputValue.ofField ((d.fields ++ extra).find? fun f => f.name = key) = _
  rw [List.find?_append, hnone, Option.or_none]

theorem ReadAs.kind_eq {s : Schema} {t t' : NamedType} (h : t.ReadAs s t') : t'.kind = t.kind := by
  obtain ⟨d, d', hmade, hmade', hrecalls⟩ := h
  rw [hmade'.kind, hrecalls.kind, Schema.kind_definition]

/-- A type that was read has the fields of input that were written. -/
theorem ReadAs.type_inputField? {s : Schema} {t t' : NamedType} (h : t.ReadAs s t') {key : String}
    (hkey : isMetaName key = false) :
    (t'.inputField? key).map InputValue.type = (t.inputField? key).map InputValue.type := by
  have hkind := h.kind_eq
  obtain ⟨d, d', hmade, hmade', hrecalls⟩ := h
  rw [hmade.kind, hmade'.kind] at hkind
  by_cases hk : d.kind = .inputObject
  · have hfields := hrecalls.fields
    rw [hmade.shownFields_definition, List.forall₂_map_left_iff] at hfields
    have hown : d.ownFields = d.fields := by simp [Definition.ownFields, hk]
    rw [hown] at hfields
    have hrel := rel_find?_of_forall₂ hfields
      (fun f f' hf => hf.name.trans (Schema.declaredField_eq s d.kind f).1) key
    rw [hmade.inputField?_eq hk hkey, hmade'.inputField?_eq (hkind.trans hk) hkey, Option.map_map,
      Option.map_map]
    apply map_eq_of_rel _ _ hrel
    intro f _ f' hf
    exact Schema.ofExpr_type_of_declaredField hf
  · rw [inputField?, inputField?, hmade.inputFields_eq_nil hk,
      hmade'.inputFields_eq_nil (hkind ▸ hk)]

end NamedType

namespace Schema

/-! ### Implied types -/

section
variable {s : Schema} {base : TypeSystem} (h : s.MadeOf base)
include h

/-- The types that are not written have the kinds of the built-in ones. -/
theorem MadeOf.kind_lookup_of_implied {name : String} (himplied : isImpliedType name = true) :
    (s.lookup name).map NamedType.kind =
      (builtinDocument.definitions.find? fun d => d.name = name).map Definition.kind := by
  cases hscalar : builtinScalar? name with
  | some b =>
    have hall : ∀ b ∈ builtinScalars,
        (builtinDocument.definitions.find? fun d => d.name = b.name).map Definition.kind = some b.kind := by
      decide
    have hb := hall b (List.mem_of_find?_eq_some hscalar)
    rw [name_of_builtinScalar? hscalar] at hb
    rw [h.scalar name b hscalar, hb]
    rfl
  | none =>
    have hrel := h.lookup name hscalar
    cases hd : base.type? name with
    | none =>
      rw [hd] at hrel
      have hnone : builtinDocument.definitions.find? (fun d => d.name = name) = none := by
        rw [List.find?_eq_none]
        intro b hb hname
        obtain ⟨d, hmem, hdname, -⟩ := h.builtins b hb
        have hname : b.name = name := by simpa using hname
        exact List.find?_eq_none.1 hd d hmem (by simpa using hdname.trans hname)
      rw [hnone]
      cases ht : s.lookup name with
      | none => rfl
      | some t =>
        rw [ht] at hrel
        cases hrel
    | some d =>
      rw [hd] at hrel
      obtain ⟨t, ht, hmade⟩ := exists_of_rel_some_right hrel
      have hname : d.name = name := by simpa using List.find?_some hd
      obtain ⟨b, hb, hbname, hkind⟩ := h.exists_builtin (List.mem_of_find?_eq_some hd) (hname ▸ himplied)
      have hfound := find?_key_of_mem nodup_names_builtinDocument hb
      rw [hbname, hname] at hfound
      rw [ht, hfound, Option.map_some, Option.map_some, hmade.kind, hkind]

/-- The types that are not written are no input objects. -/
theorem MadeOf.inputFields_of_implied {name : String} (himplied : isImpliedType name = true) {t : NamedType}
    (ht : s.lookup name = some t) : t.inputFields = [] := by
  cases hscalar : builtinScalar? name with
  | some b =>
    have hall : ∀ b ∈ builtinScalars, b.inputFields.isEmpty = true := by decide
    rw [h.scalar name b hscalar] at ht
    obtain rfl := Option.some.inj ht
    simpa using hall b (List.mem_of_find?_eq_some hscalar)
  | none =>
    have hall : ∀ b ∈ builtinDocument.definitions, b.kind ≠ .inputObject := by decide
    obtain ⟨d, hd, hmade⟩ := h.exists_definition ht hscalar
    have hname : d.name = name := by simpa using List.find?_some hd
    obtain ⟨b, hb, -, hkind⟩ := h.exists_builtin (List.mem_of_find?_eq_some hd) (hname ▸ himplied)
    exact hmade.inputFields_eq_nil (hkind ▸ hall b hb)

/-! ### References to what is not written -/

omit h in
theorem entryType_eq (s : Schema) (t : TypeRef) (key : String) :
    s.entryType t key =
      (((s.type? t.baseName).bind (·.inputField? key)).map InputValue.type).getD .absent := by
  unfold entryType
  cases (s.type? t.baseName).bind (·.inputField? key) <;> rfl

omit h in
theorem baseName_of_mem_hiddenTypes : ∀ t ∈ hiddenTypes, t.baseName = "" ∨ isImpliedType t.baseName = true := by
  with_unfolding_all decide

theorem MadeOf.bind_inputField?_of_implied {name : String} (himplied : isImpliedType name = true) (key : String) :
    (s.type? name).bind (·.inputField? key) = none := by
  unfold type?
  split
  · rfl
  · cases ht : s.lookup name with
    | none => rfl
    | some t => simp [NamedType.inputField?, h.inputFields_of_implied himplied ht]

theorem MadeOf.entryType_of_hidden {t : TypeRef} (ht : t ∈ hiddenTypes) (key : String) :
    s.entryType t key = .absent := by
  rw [entryType_eq]
  rcases baseName_of_mem_hiddenTypes t ht with hname | hname
  · rw [hname]
    rfl
  · rw [h.bind_inputField?_of_implied hname]
    rfl

theorem MadeOf.namedKind?_of_hidden {t : TypeRef} (ht : t ∈ hiddenTypes) : s.namedKind? t ≠ some .enum := by
  have hall : ∀ t ∈ hiddenTypes,
      (builtinDocument.definitions.find? fun d => d.name = t.baseName).map Definition.kind ≠ some .enum := by
    decide
  rw [namedKind?, type?]
  rcases baseName_of_mem_hiddenTypes t ht with hname | hname
  · simp [hname]
  · split
    · simp
    · rw [h.kind_lookup_of_implied hname]
      exact hall t ht

/-- The entry of a reserved name is a field of introspection, or there is none. -/
theorem MadeOf.entryType_mem_hiddenTypes (t : TypeRef) {key : String} (hkey : isMetaName key = true) :
    s.entryType t key ∈ hiddenTypes := by
  rw [entryType_eq]
  cases himplied : isImpliedType t.baseName with
  | true =>
    rw [h.bind_inputField?_of_implied himplied]
    decide
  | false =>
    cases hv : (s.type? t.baseName).bind (·.inputField? key) with
    | none => decide
    | some v =>
      obtain ⟨x, hx, hv⟩ := Option.bind_eq_some_iff.1 hv
      have hlookup : s.lookup t.baseName = some x := by
        unfold type? at hx
        split at hx
        · cases hx
        · exact hx
      obtain ⟨d, -, hmade⟩ := h.exists_definition hlookup (builtinScalar?_eq_none himplied)
      exact hmade.type_mem_hiddenTypes hkey hv

end

/-! ### Both schemas -/

section
variable {s s' : Schema} (h : s.ReadAs s')
include h

theorem ReadAs.kind_lookup (name : String) :
    (s'.lookup name).map NamedType.kind = (s.lookup name).map NamedType.kind := by
  obtain ⟨base, hmade⟩ := h.made
  obtain ⟨base', hmade'⟩ := h.remade
  cases himplied : isImpliedType name with
  | true => rw [hmade.kind_lookup_of_implied himplied, hmade'.kind_lookup_of_implied himplied]
  | false =>
    apply map_eq_of_rel _ _ (h.types name himplied)
    intro t _ t' ht
    exact ht.kind_eq

theorem ReadAs.entryType_eq_of_shown (t : TypeRef) {key : String} (hkey : isMetaName key = false) :
    s'.entryType t key = s.entryType t key := by
  obtain ⟨base, hmade⟩ := h.made
  obtain ⟨base', hmade'⟩ := h.remade
  rw [entryType_eq, entryType_eq]
  cases himplied : isImpliedType t.baseName with
  | true => rw [hmade.bind_inputField?_of_implied himplied, hmade'.bind_inputField?_of_implied himplied]
  | false =>
    by_cases hname : t.baseName = ""
    · rw [hname]
      rfl
    · have hrel := h.types t.baseName himplied
      rw [type?, type?, if_neg hname, if_neg hname]
      generalize s.lookup t.baseName = t?, s'.lookup t.baseName = t?' at hrel ⊢
      cases hrel with
      | none => rfl
      | some ht =>
        rw [Option.bind_some, Option.bind_some, ht.type_inputField? hkey]

/-- A schema and the one that was read from its text know the same enumerations. -/
theorem ReadAs.matches_alike : s.Matches s' TypeRef.Alike := by
  obtain ⟨base, hmade⟩ := h.made
  obtain ⟨base', hmade'⟩ := h.remade
  constructor
  · rintro t _ (rfl | ⟨ht, ht'⟩)
    · rw [namedKind?, namedKind?, type?, type?]
      split
      · rfl
      · rw [h.kind_lookup]
    · simp [hmade.namedKind?_of_hidden ht, hmade'.namedKind?_of_hidden ht']
  · rintro t _ (rfl | ⟨ht, ht'⟩)
    · exact .inl rfl
    · have hall : ∀ t ∈ hiddenTypes, itemType (nullable t) = .absent := by decide
      exact .inl (by rw [hall t ht, hall _ ht'])
  · rintro t t' key (rfl | ⟨ht, ht'⟩)
    · cases hkey : isMetaName key with
      | true =>
        exact .inr ⟨hmade.entryType_mem_hiddenTypes t' hkey, hmade'.entryType_mem_hiddenTypes t' hkey⟩
      | false => exact .inl (h.entryType_eq_of_shown t' hkey)
    · exact .inl (by rw [hmade.entryType_of_hidden ht, hmade'.entryType_of_hidden ht'])

end

end Schema

end OperationGraph
