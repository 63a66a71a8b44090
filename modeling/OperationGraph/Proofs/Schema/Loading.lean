import OperationGraph.Definition.Prelude
import OperationGraph.Proofs.Definition.Checks
import OperationGraph.Proofs.Definition.Named
import OperationGraph.Proofs.Schema.Lookup
import OperationGraph.Schema.Load

/-! # What loading makes of a document

A document that is taken over gives a type system whose types have names of their own, and whose roots
are types of it (`Sound`). Objects, interfaces and input objects have a field that is written out. The
roots are those of the schema declaration, or the types of the usual names if there is none (`root?_of_ofDocument`). -/

namespace OperationGraph

def OperationType.usualRoot : OperationType → String
  | query => "Query"
  | mutation => "Mutation"
  | subscription => "Subscription"

theorem OperationType.isImpliedType_usualRoot (op : OperationType) :
    isImpliedType op.usualRoot = false := by
  cases op <;> with_unfolding_all decide

namespace TypeSystem

def root? (ts : TypeSystem) : OperationType → Option String
  | .query => ts.query
  | .mutation => ts.mutation
  | .subscription => ts.subscription

/-! ### Declaring types -/

theorem declareType_eq_ok {types types' : List Definition} {d : Definition}
    (h : declareType types d = .ok types') :
    d.name ∉ types.map Definition.name ∧ types' = types ++ [d] := by
  unfold declareType at h
  split at h
  · cases h
  · next hany =>
    refine ⟨fun hmem => hany ?_, (Except.ok.inj h).symm⟩
    obtain ⟨e, he, heq⟩ := List.mem_map.1 hmem
    exact List.any_eq_true.2 ⟨e, he, by simp [heq]⟩

/-- The definitions of a document are its types. -/
theorem eq_append_of_declareType {ds types types' : List Definition}
    (h : ds.foldlM declareType types = .ok types') : types' = types ++ ds := by
  induction ds generalizing types with
  | nil => simpa using (Except.ok.inj h).symm
  | cons d rest ih =>
    rw [List.foldlM_cons] at h
    obtain ⟨mid, hmid, h⟩ := exists_of_bind_eq_ok h
    obtain ⟨-, rfl⟩ := declareType_eq_ok hmid
    rw [ih h, List.append_assoc, List.singleton_append]

/-- The names of types do not repeat, and the names in them are names. -/
structure Declarable (types : List Definition) : Prop where
  distinct : (types.map Definition.name).Nodup
  named : ∀ d ∈ types, d.isNamed = true

theorem Declarable.nil : Declarable [] := ⟨List.nodup_nil, by simp⟩

theorem Declarable.known {types : List Definition} (h : Declarable types) {d : Definition}
    (hd : d ∈ types) : d.kind.isKnown = true :=
  (Definition.isNamed_iff.1 (h.named d hd)).1

theorem Declarable.concat {types : List Definition} (h : Declarable types) {d : Definition}
    (hname : d.name ∉ types.map Definition.name) (hnamed : d.isNamed = true) :
    Declarable (types ++ [d]) := by
  refine ⟨?_, List.forall_mem_append.2 ⟨h.named, List.forall_mem_singleton.2 hnamed⟩⟩
  rw [List.map_append]
  exact List.nodup_append.2 ⟨h.distinct, by simp, by simpa using hname⟩

theorem Declarable.map {types : List Definition} (h : Declarable types)
    {f : Definition → Definition} (hname : ∀ d, (f d).name = d.name)
    (hnamed : ∀ d ∈ types, d.isNamed = true → (f d).isNamed = true) : Declarable (types.map f) := by
  refine ⟨?_, fun e he => ?_⟩
  · simpa [Function.comp_def, hname] using h.distinct
  · obtain ⟨d, hd, rfl⟩ := List.mem_map.1 he
    exact hnamed d hd (h.named d hd)

theorem Declarable.declareType {types types' : List Definition} {d : Definition}
    (h : Declarable types) (hnamed : d.isNamed = true)
    (hd : declareType types d = .ok types') : Declarable types' := by
  obtain ⟨hname, rfl⟩ := declareType_eq_ok hd
  exact h.concat hname hnamed

theorem isNamed_merge {d ext : Definition} (hd : d.isNamed = true) (hext : ext.isNamed = true)
    (hkind : d.kind = ext.kind) : (merge d ext).isNamed = true := by
  have horderly : (merge d ext).isOrderly = true := by
    obtain ⟨-, -, -, -, -, -, hd⟩ := Definition.isNamed_iff.1 hd
    obtain ⟨-, -, -, -, -, -, hext⟩ := Definition.isNamed_iff.1 hext
    obtain ⟨hd, hinput, hbuiltIn⟩ := Definition.isOrderly_iff.1 hd
    obtain ⟨hext, hinput', -⟩ := Definition.isOrderly_iff.1 hext
    rw [← hkind] at hext hinput'
    refine Definition.isOrderly_iff.2 ⟨?_, fun hk => ?_, hbuiltIn⟩
    · rcases hd with hd | hd
      · exact hext.imp_left fun hext => by simp [merge, hd, hext]
      · exact .inr hd
    · exact List.forall_mem_append.2 ⟨hinput hk, hinput' hk⟩
  simp only [Definition.isNamed, Bool.and_eq_true] at hd hext
  simp only [Definition.isNamed, horderly, Bool.and_true]
  simp [merge, hd, hext]

theorem Declarable.extendType {types types' : List Definition} {ext : Definition}
    (h : Declarable types) (hnamed : ext.isNamed = true)
    (hext : extendType types ext = .ok types') : Declarable types' := by
  unfold TypeSystem.extendType at hext
  split at hext
  · next hnone =>
    rw [← Except.ok.inj hext]
    refine h.concat (find?_key_eq_none_iff.1 hnone) ?_
    obtain ⟨hkind, hname, hinterfaces, hmembers, hfields, hvalues, horderly⟩ :=
      Definition.isNamed_iff.1 hnamed
    exact Definition.isNamed_iff.2 ⟨hkind, hname, hinterfaces, hmembers, hfields, hvalues,
      Definition.isOrderly_iff.2
        ⟨(Definition.isOrderly_iff.1 horderly).1, (Definition.isOrderly_iff.1 horderly).2.1, nofun⟩⟩
  · next d hd =>
    split at hext
    · next hkind =>
      rw [← Except.ok.inj hext]
      refine h.map (fun t => ?_) fun t hmem ht => ?_
      · split <;> rfl
      · split
        · next hname =>
          have hfound := find?_key_of_mem h.distinct hmem
          rw [hname, hd] at hfound
          exact isNamed_merge ht hnamed (Option.some.inj hfound ▸ hkind)
        · exact ht
    · cases hext

/-- An extension keeps the name and the kind of every type. -/
theorem exists_mem_of_extendType {types types' : List Definition} {ext d : Definition}
    (h : extendType types ext = .ok types') (hd : d ∈ types) :
    ∃ d' ∈ types', d'.name = d.name ∧ d'.kind = d.kind := by
  unfold TypeSystem.extendType at h
  split at h
  · rw [← Except.ok.inj h]
    exact ⟨d, List.mem_append_left _ hd, rfl, rfl⟩
  · split at h
    · rw [← Except.ok.inj h]
      refine ⟨_, List.mem_map_of_mem hd, ?_⟩
      split <;> exact ⟨rfl, rfl⟩
    · cases h

/-! ### Declaring directives -/

theorem isNamed_of_declareDirective {ds ds' : List DirectiveDefinition} {d : DirectiveDefinition}
    (h : declareDirective ds d = .ok ds') (hd : d.isNamed = true)
    (hds : ∀ e ∈ ds, e.isNamed = true) : ∀ e ∈ ds', e.isNamed = true := by
  unfold declareDirective at h
  split at h
  · split at h
    · rw [← Except.ok.inj h, List.forall_mem_map]
      intro e he
      split
      · exact hd
      · exact hds e he
    · cases h
  · rw [← Except.ok.inj h]
    exact List.forall_mem_append.2 ⟨hds, List.forall_mem_singleton.2 hd⟩

/-! ### Declaring roots -/

@[simp] theorem directives_setRoot (ts : TypeSystem) (op : OperationType) (name : String) :
    (ts.setRoot op name).directives = ts.directives := by
  cases op <;> rfl

@[simp] theorem types_setRoot (ts : TypeSystem) (op : OperationType) (name : String) :
    (ts.setRoot op name).types = ts.types := by
  cases op <;> rfl

@[simp] theorem root?_setRoot (ts : TypeSystem) (op op' : OperationType) (name : String) :
    (ts.setRoot op name).root? op' = if op = op' then some name else ts.root? op' := by
  cases op <;> cases op' <;> rfl

theorem declareRoot_eq_ok {ts ts' : TypeSystem} {r : RootDefinition}
    (h : ts.declareRoot r = .ok ts') :
    (ts.type? r.type).isSome ∧ ts' = ts.setRoot r.operation r.type := by
  unfold declareRoot at h
  split at h
  · next hsome => exact ⟨hsome, (Except.ok.inj h).symm⟩
  · cases h

/-- The types are declarable, the names in directives are names, and the roots that are set are among
the types. -/
structure Sound (ts : TypeSystem) : Prop where
  declarable : Declarable ts.types
  directives : ∀ d ∈ ts.directives, d.isNamed = true
  rooted : ∀ op name, ts.root? op = some name → (ts.type? name).isSome

theorem Sound.setRoot {ts : TypeSystem} (h : ts.Sound) {op : OperationType} {name : String}
    (hname : (ts.type? name).isSome) : (ts.setRoot op name).Sound := by
  refine ⟨by simpa using h.declarable, by simpa using h.directives, fun op' name' hroot => ?_⟩
  rw [root?_setRoot] at hroot
  rw [type?, types_setRoot]
  split at hroot
  · exact Option.some.inj hroot ▸ hname
  · exact h.rooted op' name' hroot

theorem roots_of_declareSchema {ts ts' : TypeSystem} {sd : SchemaDefinition}
    (h : ts.declareSchema sd = .ok ts') : sd.roots.foldlM declareRoot ts = .ok ts' := by
  obtain ⟨mid, hroots, h⟩ := exists_of_bind_eq_ok h
  obtain ⟨-, -, h⟩ := exists_of_bind_eq_ok h
  rw [hroots, Except.ok.inj h]

theorem types_of_declareSchema {ts ts' : TypeSystem} {sd : SchemaDefinition}
    (h : ts.declareSchema sd = .ok ts') : ts'.types = ts.types ∧ ts'.directives = ts.directives := by
  refine of_foldlM_eq_ok (fun a => a.types = ts.types ∧ a.directives = ts.directives)
    (roots_of_declareSchema h) ⟨rfl, rfl⟩ ?_
  intro r _ a b ha hb
  obtain ⟨-, rfl⟩ := declareRoot_eq_ok hb
  simpa using ha

theorem Sound.declareSchema {ts ts' : TypeSystem} (h : ts.Sound) {sd : SchemaDefinition}
    (hsd : ts.declareSchema sd = .ok ts') : ts'.Sound := by
  refine of_foldlM_eq_ok Sound (roots_of_declareSchema hsd) h ?_
  intro r _ a b ha hb
  obtain ⟨hsome, rfl⟩ := declareRoot_eq_ok hb
  exact ha.setRoot hsome

/-! ### Roots by name -/

theorem root?_inferRoots (ts : TypeSystem) (op : OperationType) :
    ts.inferRoots.root? op = (ts.root? op).or
      (if (ts.type? op.usualRoot).isSome then some op.usualRoot else none) := by
  obtain ⟨_, _, _, query, mutation, subscription⟩ := ts
  cases op with
  | query => cases query <;> rfl
  | mutation => cases mutation <;> rfl
  | subscription => cases subscription <;> rfl

theorem Sound.inferRoots {ts : TypeSystem} (h : ts.Sound) : ts.inferRoots.Sound := by
  refine ⟨h.declarable, h.directives, fun op name hroot => ?_⟩
  change (ts.type? name).isSome
  rw [root?_inferRoots] at hroot
  cases hop : ts.root? op with
  | some root =>
    rw [hop, Option.some_or] at hroot
    exact h.rooted op name (hop.trans hroot)
  | none =>
    rw [hop, Option.none_or] at hroot
    split at hroot
    · next hsome => exact Option.some.inj hroot ▸ hsome
    · cases hroot

@[simp] theorem root?_addMetaFields (ts : TypeSystem) (op : OperationType) :
    ts.addMetaFields.root? op = ts.root? op := by
  unfold addMetaFields
  split <;> cases op <;> rfl

@[simp] theorem directives_addMetaFields (ts : TypeSystem) :
    ts.addMetaFields.directives = ts.directives := by
  unfold addMetaFields
  split <;> rfl

/-- A type may get fields of introspection behind its own. -/
theorem exists_types_addMetaFields (ts : TypeSystem) :
    ∃ f : Definition → Definition, ts.addMetaFields.types = ts.types.map f ∧
      ∀ d, f d = d ∨ f d = { d with fields := d.fields ++ metaFields } := by
  unfold addMetaFields
  split
  · exact ⟨id, by simp, fun _ => .inl rfl⟩
  · refine ⟨_, rfl, fun d => ?_⟩
    split
    · exact .inr rfl
    · exact .inl rfl

theorem Sound.addMetaFields {ts : TypeSystem} (h : ts.Sound) : ts.addMetaFields.Sound := by
  obtain ⟨f, htypes, hf⟩ := ts.exists_types_addMetaFields
  have hname (d : Definition) : (f d).name = d.name := by
    rcases hf d with hfd | hfd <;> rw [hfd]
  have hnamed (d : Definition) (hd : d.isNamed = true) : (f d).isNamed = true := by
    rcases hf d with hfd | hfd <;> rw [hfd]
    · exact hd
    · obtain ⟨hkind, hname, hinterfaces, hmembers, hfields, hvalues, horderly⟩ :=
        Definition.isNamed_iff.1 hd
      obtain ⟨hordered, hinput, hbuiltIn⟩ := Definition.isOrderly_iff.1 horderly
      have hmeta : ∀ f ∈ metaFields, f.isNamed = true ∧ f.isShown = false := by
        with_unfolding_all decide
      refine Definition.isNamed_iff.2 ⟨hkind, hname, hinterfaces, hmembers,
        List.forall_mem_append.2 ⟨hfields, fun f hf => (hmeta f hf).1⟩, hvalues,
        Definition.isOrderly_iff.2 ⟨hordered, fun hk => ?_, hbuiltIn⟩⟩
      refine List.forall_mem_append.2 ⟨hinput hk, fun f hf hshown => ?_⟩
      rw [(hmeta f hf).2] at hshown
      cases hshown
  refine ⟨htypes ▸ h.declarable.map hname fun d _ => hnamed d, by simpa using h.directives, fun op name hroot => ?_⟩
  have hsome : (ts.addMetaFields.type? name).isSome = (ts.type? name).isSome := by
    rw [type?, type?, htypes, List.find?_map, Option.isSome_map]
    simp only [Function.comp_def, hname]
  rw [hsome]
  exact h.rooted op name (by simpa using hroot)

/-! ### Checks -/

theorem isFilled_of_checkDefinition {ts : TypeSystem} {d : Definition}
    (h : ts.checkDefinition d = .ok ()) : d.isFilled = true := by
  obtain ⟨hfields, -, -, hkind, -⟩ := checkDefinition_eq_ok_iff.1 h
  have hany (hne : d.fields ≠ []) : d.fields.any FieldDefinition.isShown = true := by
    obtain ⟨f, hf⟩ := List.exists_mem_of_ne_nil _ hne
    have hshown := (checkFields_eq_ok_iff.1 hfields f hf).1
    exact List.any_eq_true.2 ⟨f, hf, by simp [FieldDefinition.isShown, hshown]⟩
  unfold FitsKind at hkind
  unfold Definition.isFilled
  split
  · next hk => exact hany (by simp_all)
  · next hk => exact hany (by simp_all)
  · next hk => exact hany (by simp_all)
  · rfl

theorem isFilled_of_check {ts : TypeSystem} (h : ts.check = .ok ()) :
    ∀ d ∈ ts.types, d.isFilled = true :=
  fun d hd => isFilled_of_checkDefinition ((check_eq_ok_iff.1 h).1 d hd)

theorem isFilled_addMetaFields {ts : TypeSystem} (h : ∀ d ∈ ts.types, d.isFilled = true) :
    ∀ d ∈ ts.addMetaFields.types, d.isFilled = true := by
  obtain ⟨f, htypes, hf⟩ := ts.exists_types_addMetaFields
  rw [htypes, List.forall_mem_map]
  intro d hd
  rcases hf d with hfd | hfd <;> rw [hfd]
  · exact h d hd
  · have hd := h d hd
    unfold Definition.isFilled at hd ⊢
    rw [List.any_append]
    split <;> simp_all

/-! ### Documents -/

/-- The steps from a document to its type system. -/
theorem exists_of_ofDocument {doc : TypeSystemDocument} {ts : TypeSystem}
    (h : ofDocument doc = .ok ts) :
    ∃ types types' directives ts' ts'',
      doc.definitions.foldlM declareType [] = .ok types ∧
      doc.extensions.foldlM extendType types = .ok types' ∧
      doc.directives.foldlM declareDirective [] = .ok directives ∧
      doc.schemas.length ≤ 1 ∧
      doc.schemas.foldlM declareSchema
        { types := types', directives,
          description := (doc.schemas.head?.map (·.description)).getD "" } = .ok ts' ∧
      doc.schemaExtensions.foldlM declareSchema ts' = .ok ts'' ∧
      ts''.check = .ok () ∧
      ts = (if doc.schemas.isEmpty then ts''.inferRoots else ts'').addMetaFields := by
  obtain ⟨types, htypes, h⟩ := exists_of_bind_eq_ok h
  obtain ⟨types', htypes', h⟩ := exists_of_bind_eq_ok h
  obtain ⟨directives, hdirectives, h⟩ := exists_of_bind_eq_ok h
  split at h
  · cases h
  · next hschemas =>
    obtain ⟨ts', hts', h⟩ := exists_of_bind_eq_ok h
    obtain ⟨ts'', hts'', h⟩ := exists_of_bind_eq_ok h
    obtain ⟨⟨⟩, hcheck, h⟩ := exists_of_bind_eq_ok h
    refine ⟨types, types', directives, ts', ts'', htypes, htypes', hdirectives, ?_, hts', hts'',
      hcheck, (Except.ok.inj h).symm⟩
    rcases hdoc : doc.schemas with _ | ⟨a, _ | ⟨b, rest⟩⟩
    · simp
    · simp
    · exact (hschemas a b rest hdoc).elim

/-- What a document declares, once it is checked: sound if the names in it are names. The roots of the
usual names and the fields of introspection are put in last. -/
theorem exists_checked_of_ofDocument {doc : TypeSystemDocument} {ts : TypeSystem} (hdoc : doc.Named)
    (h : ofDocument doc = .ok ts) :
    ∃ (base : TypeSystem) (types : List Definition), base.Sound ∧ base.check = .ok () ∧
      doc.definitions.foldlM declareType [] = .ok types ∧
      doc.extensions.foldlM extendType types = .ok base.types ∧
      doc.directives.foldlM declareDirective [] = .ok base.directives ∧
      ts = (if doc.schemas.isEmpty then base.inferRoots else base).addMetaFields := by
  obtain ⟨types, types', directives, ts', ts'', htypes, htypes', hdirectives, -, hts', hts'', hcheck, rfl⟩ :=
    exists_of_ofDocument h
  have hdeclared : Declarable types :=
    of_foldlM_eq_ok Declarable htypes .nil fun d hd _ _ ha => ha.declareType (hdoc.definitions d hd)
  have hextended : Declarable types' :=
    of_foldlM_eq_ok Declarable htypes' hdeclared fun d hd _ _ ha =>
      ha.extendType (hdoc.extensions d hd)
  have hnamed : ∀ d ∈ directives, d.isNamed = true :=
    of_foldlM_eq_ok (fun ds => ∀ d ∈ ds, d.isNamed = true) hdirectives (List.forall_mem_nil _)
      fun d hd _ _ hds h => isNamed_of_declareDirective h (hdoc.directives d hd) hds
  -- The declarations of roots keep the types and the directives.
  let motive (ts : TypeSystem) : Prop := ts.Sound ∧ ts.types = types' ∧ ts.directives = directives
  have hstep (sd : SchemaDefinition) (a b : TypeSystem) (ha : motive a)
      (hb : a.declareSchema sd = .ok b) : motive b :=
    ⟨ha.1.declareSchema hb, (types_of_declareSchema hb).1.trans ha.2.1,
      (types_of_declareSchema hb).2.trans ha.2.2⟩
  have hts' : motive ts' := by
    refine of_foldlM_eq_ok motive hts' ⟨⟨hextended, hnamed, ?_⟩, rfl, rfl⟩ fun sd _ => hstep sd
    intro op name hroot
    cases op <;> cases hroot
  obtain ⟨hsound, rfl, rfl⟩ := of_foldlM_eq_ok motive hts'' hts' fun sd _ => hstep sd
  exact ⟨ts'', types, hsound, hcheck, htypes, htypes', hdirectives, rfl⟩

/-- What a document declares is sound if the names in it are names. -/
theorem sound_of_ofDocument {doc : TypeSystemDocument} {ts : TypeSystem} (hdoc : doc.Named)
    (h : ofDocument doc = .ok ts) : ts.Sound := by
  obtain ⟨base, -, hsound, -, -, -, -, rfl⟩ := exists_checked_of_ofDocument hdoc h
  split
  · exact hsound.inferRoots.addMetaFields
  · exact hsound.addMetaFields

/-- What a document declares has the fields that its kind needs. -/
theorem isFilled_of_ofDocument {doc : TypeSystemDocument} {ts : TypeSystem}
    (h : ofDocument doc = .ok ts) : ∀ d ∈ ts.types, d.isFilled = true := by
  obtain ⟨_, _, _, _, ts'', _, _, _, _, _, _, hcheck, rfl⟩ := exists_of_ofDocument h
  have hfilled := isFilled_of_check hcheck
  split <;> exact isFilled_addMetaFields hfilled

end TypeSystem

/-! ### Outlines -/

/-- What a document declares, by name: the roots of its schema declarations, and its types. -/
structure Outline where
  schemas : List (List (OperationType × String))
  schemaExtensions : List (List (OperationType × String))
  definitions : List String
  extensions : List String
deriving DecidableEq

/-- The root of a kind of operation in a list of roots; of several the last counts. -/
def rootOf? (roots : List (OperationType × String)) (op : OperationType) : Option String :=
  (roots.reverse.find? fun r => r.1 = op).map (·.2)

/-- The root of a kind of operation where nothing is extended: the declared one, or the type of the
usual name if roots are not declared. -/
def Outline.root? (o : Outline) (op : OperationType) : Option String :=
  match o.schemas with
  | [] => if op.usualRoot ∈ o.definitions then some op.usualRoot else none
  | roots :: _ => rootOf? roots op

def SchemaDefinition.outline (sd : SchemaDefinition) : List (OperationType × String) :=
  sd.roots.map fun r => (r.operation, r.type)

def TypeSystemDocument.outline (doc : TypeSystemDocument) : Outline where
  schemas := doc.schemas.map SchemaDefinition.outline
  schemaExtensions := doc.schemaExtensions.map SchemaDefinition.outline
  definitions := doc.definitions.map Definition.name
  extensions := doc.extensions.map Definition.name

theorem TypeSystemDocument.outline_append (a b : TypeSystemDocument) :
    (a.append b).outline =
      { schemas := a.outline.schemas ++ b.outline.schemas
        schemaExtensions := a.outline.schemaExtensions ++ b.outline.schemaExtensions
        definitions := a.outline.definitions ++ b.outline.definitions
        extensions := a.outline.extensions ++ b.outline.extensions } := by
  simp [outline, append]

namespace TypeSystem

theorem root?_of_declareRoot {ts ts' : TypeSystem} {rs : List RootDefinition}
    (h : rs.foldlM declareRoot ts = .ok ts') (op : OperationType) :
    ts'.root? op = (rootOf? (rs.map fun r => (r.operation, r.type)) op).or (ts.root? op) := by
  induction rs generalizing ts with
  | nil =>
    rw [← Except.ok.inj h]
    rfl
  | cons r rest ih =>
    rw [List.foldlM_cons] at h
    obtain ⟨mid, hmid, h⟩ := exists_of_bind_eq_ok h
    obtain ⟨-, rfl⟩ := declareRoot_eq_ok hmid
    rw [ih h, root?_setRoot, rootOf?, rootOf?, List.map_cons, List.reverse_cons, List.find?_append]
    cases (rest.map fun r => (r.operation, r.type)).reverse.find? fun r => r.1 = op with
    | some found => rfl
    | none => by_cases hop : r.operation = op <;> simp [hop]

/-- A document that extends nothing gives the type system the roots of its outline. -/
theorem root?_of_ofDocument {doc : TypeSystemDocument} {ts : TypeSystem}
    (hextensions : doc.extensions = []) (hschemas : doc.schemaExtensions = [])
    (h : ofDocument doc = .ok ts) (op : OperationType) : ts.root? op = doc.outline.root? op := by
  obtain ⟨types, types', directives, ts', ts'', htypes, htypes', -, hlength, hts', hts'', -, rfl⟩ :=
    exists_of_ofDocument h
  obtain rfl : ts' = ts'' := by
    rw [hschemas] at hts''
    exact Except.ok.inj hts''
  obtain rfl : types = types' := by
    rw [hextensions] at htypes'
    exact Except.ok.inj htypes'
  obtain rfl : types = doc.definitions := by simpa using eq_append_of_declareType htypes
  rw [root?_addMetaFields, Outline.root?, TypeSystemDocument.outline]
  rcases hdoc : doc.schemas with _ | ⟨sd, _ | ⟨_, _⟩⟩
  · rw [hdoc] at hts'
    obtain rfl := Except.ok.inj hts'
    have hmem : (doc.definitions.find? fun d => d.name = op.usualRoot).isSome = true ↔
        op.usualRoot ∈ doc.definitions.map Definition.name := by
      simp only [List.find?_isSome, decide_eq_true_eq, List.mem_map]
    rw [if_pos (by simp), root?_inferRoots, type?]
    simp only [hmem]
    cases op <;> rfl
  · rw [hdoc, List.foldlM_cons] at hts'
    obtain ⟨mid, hmid, hnil⟩ := exists_of_bind_eq_ok hts'
    obtain rfl := Except.ok.inj hnil
    rw [if_neg (by simp), root?_of_declareRoot (roots_of_declareSchema hmid)]
    cases op <;> exact Option.or_none ..
  · simp [hdoc] at hlength

end TypeSystem

end OperationGraph
