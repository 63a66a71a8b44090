import OperationGraph.Proofs.Schema.Loading
import OperationGraph.Proofs.Schema.Rendering
import OperationGraph.Proofs.Schema.RoundTrip

/-! # Roots of schemas that are written and loaded again

The roots of a schema are declared only if one of them has an unusual name; a reader takes the types of
the usual names as roots where none is declared. So a schema that is loaded from its own text has the
roots it had exactly if they are declared, or if no type has the usual name of a root that is not set
(`rootName_ofText_render_iff`). -/

namespace OperationGraph

/-! ### Loading -/

namespace Schema

theorem exists_of_ofText {text : String} {s : Schema} (h : ofText text = .ok s) :
    ∃ doc ts, TypeSystemDocument.parse { name := "schema.graphql", text } = .ok doc ∧
      TypeSystem.ofDocument (builtinDocument.append doc) = .ok ts ∧ ofTypeSystem ts = s := by
  obtain ⟨ts, hts, rfl⟩ := exists_of_map_eq_ok h
  obtain ⟨doc, hdoc, hts⟩ := exists_of_bind_eq_ok hts
  obtain ⟨doc', hdoc', hnil⟩ := exists_of_bind_eq_ok (eq_ok_of_mapError_eq_ok hdoc)
  obtain ⟨doc'', hparse, rfl⟩ := exists_of_map_eq_ok hdoc'
  obtain rfl := Except.ok.inj hnil
  exact ⟨doc'', ts, hparse, eq_ok_of_mapError_eq_ok hts, rfl⟩

theorem rootName_foldl_addDefinition (ts : TypeSystem) (ds : List Definition) (s : Schema)
    (op : OperationType) : (ds.foldl (addDefinition ts) s).rootName op = s.rootName op := by
  induction ds generalizing s with
  | nil => rfl
  | cons d rest ih =>
    rw [List.foldl_cons, ih]
    unfold addDefinition
    split <;> cases op <;> rfl

theorem rootName_foldl_addDirectiveDefinition (ds : List DirectiveDefinition) (s : Schema)
    (op : OperationType) : (ds.foldl addDirectiveDefinition s).rootName op = s.rootName op := by
  induction ds generalizing s with
  | nil => rfl
  | cons d rest ih =>
    rw [List.foldl_cons, ih]
    unfold addDirectiveDefinition
    split <;> cases op <;> rfl

theorem rootName_ofTypeSystem (ts : TypeSystem) (op : OperationType) :
    (ofTypeSystem ts).rootName op = (ts.root? op).getD "" := by
  rw [ofTypeSystem, rootName_foldl_addDirectiveDefinition, rootName_foldl_addDefinition]
  cases op <;> rfl

theorem named_append {doc : TypeSystemDocument} (h : doc.Named) : (builtinDocument.append doc).Named := by
  have hdefinitions : ∀ d ∈ builtinDocument.definitions, d.isNamed = true := by decide +kernel
  have hdirectives : ∀ d ∈ builtinDocument.directives, d.isNamed = true := by decide +kernel
  exact ⟨List.forall_mem_append.2 ⟨hdefinitions, h.definitions⟩, h.extensions,
    List.forall_mem_append.2 ⟨hdirectives, h.directives⟩⟩

/-- A schema that was loaded comes from a sound type system, whose types have the fields they need. -/
theorem exists_sound_of_ofText {text : String} {s : Schema} (h : ofText text = .ok s) :
    ∃ ts : TypeSystem, ts.Sound ∧ (∀ d ∈ ts.types, d.isFilled = true) ∧ ofTypeSystem ts = s := by
  obtain ⟨doc, ts, hparse, hts, rfl⟩ := exists_of_ofText h
  have hnamed := named_append (TypeSystemDocument.named_of_parse hparse)
  exact ⟨ts, TypeSystem.sound_of_ofDocument hnamed hts, TypeSystem.isFilled_of_ofDocument hts, rfl⟩

/-- A root of the usual name is a type of the schema that was loaded. -/
theorem isSome_lookup_of_rootName {text : String} {s : Schema} (h : ofText text = .ok s)
    {op : OperationType} (hroot : s.rootName op = op.usualRoot) :
    (s.lookup op.usualRoot).isSome := by
  obtain ⟨ts, hts, -, rfl⟩ := exists_sound_of_ofText h
  have hne : op.usualRoot ≠ "" := by cases op <;> decide
  rw [rootName_ofTypeSystem] at hroot
  cases hop : ts.root? op with
  | none => exact absurd (hop ▸ hroot).symm hne
  | some name =>
    rw [hop, Option.getD_some] at hroot
    subst hroot
    obtain ⟨d, hd⟩ := Option.isSome_iff_exists.1 (hts.rooted op _ hop)
    have hknown := hts.declarable.known (List.mem_of_find?_eq_some hd)
    rw [lookup_ofTypeSystem hts.declarable.distinct
      (builtinScalar?_eq_none op.isImpliedType_usualRoot), hd]
    simp [declared?, hknown]

/-! ### Writing -/

/-- The roots of a declaration are those that are set. -/
theorem rootOf?_roots (s : Schema) (op : OperationType) :
    rootOf? (s.roots.map fun r => (r.1, r.2.1)) op =
      if s.rootName op = "" then none else some (s.rootName op) := by
  obtain ⟨_, query, mutation, subscription, _, _⟩ := s
  by_cases hq : query = "" <;> by_cases hm : mutation = "" <;> by_cases hs : subscription = "" <;>
    cases op <;> simp [roots, rootOf?, rootName, hq, hm, hs]

theorem mem_roots {s : Schema} {r : OperationType × String × String} (hr : r ∈ s.roots) :
    r.2.1 = s.rootName r.1 ∧ s.rootName r.1 ≠ "" := by
  obtain ⟨hmem, hne⟩ := List.mem_filter.1 hr
  simp only [List.mem_cons, List.not_mem_nil, or_false] at hmem
  rcases hmem with rfl | rfl | rfl <;> exact ⟨rfl, by simpa [rootName] using hne⟩

theorem usualRoot_mem_names_iff (s : Schema) (op : OperationType) :
    op.usualRoot ∈ (builtinDocument.append s.toDocument).definitions.map Definition.name ↔
      (s.lookup op.usualRoot).isSome := by
  have hfind := s.find?_append_toDocument op.isImpliedType_usualRoot
  rw [← Option.isSome_map (f := s.definition), ← hfind, List.find?_isSome]
  simp

theorem outline_of_schemaDefinition? {s : Schema} {sd : SchemaDefinition}
    (h : s.schemaDefinition? = some sd) : sd.outline = s.roots.map fun r => (r.1, r.2.1) := by
  unfold schemaDefinition? at h
  split at h
  · rw [← Option.some.inj h, SchemaDefinition.outline, List.map_map]
    rfl
  · cases h

/-- The roots that a reader finds in the document of a schema. -/
theorem root?_outline_toDocument (s : Schema) (op : OperationType) :
    ((builtinDocument.append s.toDocument).outline.root? op).getD "" =
      if s.schemaDefinition?.isSome then s.rootName op
      else if (s.lookup op.usualRoot).isSome then op.usualRoot else "" := by
  have hschemas : (builtinDocument.append s.toDocument).outline.schemas =
      s.schemaDefinition?.toList.map SchemaDefinition.outline := rfl
  have hmem : op.usualRoot ∈ (builtinDocument.append s.toDocument).outline.definitions ↔
      (s.lookup op.usualRoot).isSome := s.usualRoot_mem_names_iff op
  rw [Outline.root?, hschemas]
  cases hsd : s.schemaDefinition? with
  | some sd =>
    simp only [Option.toList_some, List.map_cons, outline_of_schemaDefinition? hsd, rootOf?_roots,
      Option.isSome_some, if_true]
    split
    · next hroot => exact hroot.symm
    · rfl
  | none =>
    simp only [Option.toList_none, List.map_nil, hmem, Option.isSome_none, Bool.false_eq_true,
      if_false]
    split <;> rfl

/-- The roots of a schema that was loaded from the text of another one. -/
theorem rootName_of_ofText_render {s s' : Schema}
    (hlegible : s.toDocument.isLegible = true) (h : ofText s.render = .ok s') (op : OperationType) :
    s'.rootName op =
      if s.schemaDefinition?.isSome then s.rootName op
      else if (s.lookup op.usualRoot).isSome then op.usualRoot else "" := by
  obtain ⟨doc, ts, hparse, hts, rfl⟩ := exists_of_ofText h
  obtain ⟨doc', hparse', hdoc⟩ := exists_parse_render hlegible "schema.graphql"
  obtain rfl : doc = doc' := Except.ok.inj (hparse.symm.trans hparse')
  have hsame : (builtinDocument.append doc).outline =
      (builtinDocument.append s.toDocument).outline := by
    rw [TypeSystemDocument.outline_append, TypeSystemDocument.outline_append, hdoc.outline_eq rfl rfl]
  rw [rootName_ofTypeSystem, @TypeSystem.root?_of_ofDocument (builtinDocument.append doc) ts
    hdoc.extensions hdoc.schemaExtensions hts, hsame, root?_outline_toDocument]

/-- Where no declaration of roots is written, a root that is set has the usual name. -/
theorem rootName_eq_of_schemaDefinition? {s : Schema} (h : s.schemaDefinition? = none)
    (op : OperationType) : s.rootName op = "" ∨ s.rootName op = op.usualRoot := by
  by_cases hset : s.rootName op = ""
  · exact .inl hset
  · have hmem : (op, s.rootName op, op.usualRoot) ∈ s.roots := by
      refine List.mem_filter.2 ⟨?_, by simpa using hset⟩
      cases op <;> simp [rootName, OperationType.usualRoot]
    unfold schemaDefinition? at h
    split at h
    · cases h
    · next hany =>
      have hall : ∀ r ∈ s.roots, r.2.1 = r.2.2 := by simpa using hany
      exact .inr (hall _ hmem)

/-- A schema that is loaded from its own text has the roots it had exactly if they are declared, or if
no type has the usual name of a root that is not set. -/
theorem rootName_ofText_render_iff {text : String} {s s' : Schema} (hs : ofText text = .ok s)
    (hlegible : s.toDocument.isLegible = true) (hs' : ofText s.render = .ok s') :
    (∀ op, s'.rootName op = s.rootName op) ↔
      s.schemaDefinition?.isSome = true ∨
        ∀ op : OperationType, s.rootName op = "" → s.lookup op.usualRoot = none := by
  simp only [rootName_of_ofText_render hlegible hs']
  cases hsd : s.schemaDefinition? with
  | some sd => simp
  | none =>
    simp only [Option.isSome_none, Bool.false_eq_true, if_false, false_or]
    refine forall_congr' fun op => ?_
    have hne : op.usualRoot ≠ "" := by cases op <;> decide
    rcases rootName_eq_of_schemaDefinition? hsd op with hroot | hroot
    · cases s.lookup op.usualRoot <;> simp [hroot, hne]
    · simp [hroot, hne, isSome_lookup_of_rootName hs hroot]

/-! ### Texts -/

def reloaded? (text : String) : Option (Schema × Schema) :=
  (ofText text).toOption.bind fun s => (ofText s.render).toOption.map fun s' => (s, s')

theorem ofText_of_reloaded? {text : String} {s s' : Schema} (h : reloaded? text = some (s, s')) :
    ofText text = .ok s ∧ ofText s.render = .ok s' := by
  obtain ⟨t, ht, h⟩ := Option.bind_eq_some_iff.1 h
  obtain ⟨t', ht', heq⟩ := Option.map_eq_some_iff.1 h
  obtain ⟨rfl, rfl⟩ := Prod.mk.inj heq
  exact ⟨eq_ok_of_toOption ht, eq_ok_of_toOption ht'⟩

/-- A schema with a root of an unusual name, beside a type that has the usual one. -/
def unusualText : String :=
  "schema{query:Q}type Q{a:ID}type Query{b:ID}"

theorem rootName_ofText_render_iff_unusual :
    ∃ s s', ofText unusualText = .ok s ∧ s.toDocument.isLegible = true ∧ ofText s.render = .ok s' ∧
      s.query = "Q" ∧ (s.lookup "Query").isSome = true ∧
      ∀ op, s'.rootName op = s.rootName op := by
  have h : (reloaded? unusualText).map (fun p => (p.1.toDocument.isLegible, p.1.query,
      (p.1.lookup "Query").isSome, p.1.schemaDefinition?.isSome)) = some (true, "Q", true, true) := by
    decide +kernel
  obtain ⟨⟨s, s'⟩, hloaded, h⟩ := Option.map_eq_some_iff.1 h
  simp only [Prod.mk.injEq] at h
  obtain ⟨hs, hs'⟩ := ofText_of_reloaded? hloaded
  exact ⟨s, s', hs, h.1, hs', h.2.1, h.2.2.1,
    (rootName_ofText_render_iff hs h.1 hs').2 (.inl h.2.2.2)⟩

/-- A schema whose declaration leaves out a root that has a type of the usual name. -/
def leftOutText : String :=
  "schema { query: Query } type Query { a: Int } type Mutation { b: Int }"

/-- The type becomes a root when the schema is loaded from its own text. -/
theorem mutation_ofText_render_leftOut :
    ∃ s s', ofText leftOutText = .ok s ∧ ofText s.render = .ok s' ∧
      s.mutation = "" ∧ s'.mutation = "Mutation" := by
  have h : (reloaded? leftOutText).map (fun p => (p.1.mutation, p.2.mutation)) =
      some ("", "Mutation") := by
    decide +kernel
  obtain ⟨⟨s, s'⟩, hloaded, h⟩ := Option.map_eq_some_iff.1 h
  simp only [Prod.mk.injEq] at h
  obtain ⟨hs, hs'⟩ := ofText_of_reloaded? hloaded
  exact ⟨s, s', hs, hs', h.1, h.2⟩

end Schema

end OperationGraph
