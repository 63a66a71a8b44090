import OperationGraph.Definition.Prelude
import OperationGraph.Proofs.Schema.Defaults
import OperationGraph.Proofs.Schema.Lookup

/-! # Schemas rebuilt from the documents they are written as

The document of a schema, put behind the built-in definitions, declares every type and every directive
that the schema holds beyond these (`ofTypeSystem_toDocument`). Each element goes through its written
form and back on its own; only the possible types of an interface are computed anew, from the objects
that name it. -/

namespace OperationGraph

/-! ### Elements -/

namespace TypeRef

theorem ofExpr_toExpr_ofExpr (e : TypeExpr) : ofExpr (toExpr (ofExpr e)) = ofExpr e := by
  induction e with
  | named n b p => cases b <;> rfl
  | list e b p ih => cases b <;> simp [ofExpr, toExpr, markNonNull, ih]

end TypeRef

theorem deprecation?_deprecatedDirectives (reason : Option String) :
    deprecation? (Schema.deprecatedDirectives reason) = reason := by
  unfold Schema.deprecatedDirectives
  split <;> simp [deprecation?, Directive.find?, Argument.find?, Literal.raw]

namespace Schema
variable (s : Schema)

theorem ofArgument_argumentDefinition (a : ArgumentDefinition) :
    InputValue.ofArgument (s.argumentDefinition (.ofArgument a)) = .ofArgument a := by
  simp [InputValue.ofArgument, argumentDefinition, TypeRef.ofExpr_toExpr_ofExpr,
    defaultOf_defaultLiteral?, deprecation?_deprecatedDirectives]

theorem ofField_inputFieldDefinition (f : FieldDefinition) :
    InputValue.ofField (s.inputFieldDefinition (.ofField f)) = .ofField f := by
  simp [InputValue.ofField, inputFieldDefinition, TypeRef.ofExpr_toExpr_ofExpr,
    defaultOf_defaultLiteral?, deprecation?_deprecatedDirectives]

theorem ofField_fieldDefinition (f : FieldDefinition) :
    OutputField.ofField (s.fieldDefinition (.ofField f)) = .ofField f := by
  simp [OutputField.ofField, fieldDefinition, TypeRef.ofExpr_toExpr_ofExpr,
    ofArgument_argumentDefinition, deprecation?_deprecatedDirectives]

theorem ofDefinition_enumValueDefinition (v : EnumValueDefinition) :
    EnumValue.ofDefinition (enumValueDefinition (.ofDefinition v)) = .ofDefinition v := by
  simp [EnumValue.ofDefinition, enumValueDefinition, deprecation?_deprecatedDirectives]

theorem ofDefinition_directiveDefinition {d : DirectiveDefinition} (h : d.builtIn = false) :
    DirectiveType.ofDefinition (s.directiveDefinition (.ofDefinition d)) = .ofDefinition d := by
  simp [DirectiveType.ofDefinition, directiveDefinition, ofArgument_argumentDefinition, h]

end Schema

/-! ### Types -/

def Definition.withFields (d : Definition) (extra : List FieldDefinition) : Definition :=
  { d with fields := d.fields ++ extra }

@[simp] theorem Definition.name_withFields (d : Definition) (extra : List FieldDefinition) :
    (d.withFields extra).name = d.name := rfl

@[simp] theorem Definition.kind_withFields (d : Definition) (extra : List FieldDefinition) :
    (d.withFields extra).kind = d.kind := rfl

theorem Schema.map_ofField_fieldDefinition (s : Schema) (fields : List FieldDefinition)
    {extra : List FieldDefinition} (hextra : ∀ f ∈ extra, isMetaName f.name = true) :
    ((((fields.filter fun f => !isMetaName f.name).map OutputField.ofField).map s.fieldDefinition ++
        extra).filter fun f => !isMetaName f.name).map OutputField.ofField =
      (fields.filter fun f => !isMetaName f.name).map OutputField.ofField := by
  have hnone : (extra.filter fun f => !isMetaName f.name) = [] := by
    rw [List.filter_eq_nil_iff]
    intro f hf
    simp [hextra f hf]
  have hall : (((fields.filter fun f => !isMetaName f.name).map OutputField.ofField).map
      s.fieldDefinition).filter (fun f => !isMetaName f.name) =
      ((fields.filter fun f => !isMetaName f.name).map OutputField.ofField).map
        s.fieldDefinition := by
    rw [List.filter_eq_self]
    intro g hg
    simp only [List.map_map, List.mem_map, List.mem_filter, Function.comp_apply] at hg
    obtain ⟨f, ⟨-, hf⟩, rfl⟩ := hg
    exact hf
  rw [List.filter_append, hnone, List.append_nil, hall]
  simp [ofField_fieldDefinition]

/-- A type goes through its written form and back, whatever reserved fields are put in; the objects
that implement it must be the same. -/
theorem NamedType.ofDefinition_definition (s : Schema) {d : Definition} (known : d.kind.isKnown)
    {implementations implementations' : List String}
    (himplementations : distinct implementations' = distinct implementations)
    {extra : List FieldDefinition} (hextra : ∀ f ∈ extra, isMetaName f.name = true)
    (hinput : d.kind = .inputObject → extra = []) :
    ofDefinition implementations' ((s.definition (ofDefinition implementations d)).withFields extra)
      = ofDefinition implementations d := by
  have hfields := s.map_ofField_fieldDefinition d.fields hextra
  cases hk : d.kind with
  | object =>
    simp only [ofDefinition, hk, Schema.definition, Definition.withFields, sortNames_sortNames,
      hfields]
  | interface =>
    simp only [ofDefinition, hk, Schema.definition, Definition.withFields, sortNames_sortNames,
      hfields, himplementations]
  | union =>
    simp only [ofDefinition, hk, Schema.definition, Definition.withFields,
      distinct_sortNames_distinct_sortNames]
  | enum =>
    simp [ofDefinition, hk, Schema.definition, Definition.withFields,
      Schema.ofDefinition_enumValueDefinition]
  | inputObject =>
    have honeOf (b : Bool) : (Directive.find? "oneOf" (if b = true then
        [{ name := "oneOf", pos := default }] else [])).isSome = b := by
      cases b <;> rfl
    simp [ofDefinition, hk, Schema.definition, Definition.withFields, hinput hk, honeOf,
      Schema.ofField_inputFieldDefinition]
  | scalar =>
    simp only [ofDefinition, hk, Schema.definition, Definition.withFields]
    cases specifiedBy? d.directives <;> rfl
  | other n =>
    rw [hk] at known
    cases known

/-! ### Implementations -/

namespace TypeSystem

theorem mem_implementations {ts : TypeSystem} {interface name : String} :
    name ∈ ts.implementations interface ↔
      ∃ d ∈ ts.types, d.kind = .object ∧ interface ∈ d.interfaces ∧ d.name = name := by
  simp only [implementations, List.mem_flatMap, sortedTypes, (sortBy_perm ..).mem_iff]
  refine exists_congr fun d => and_congr_right fun _ => ?_
  by_cases hk : d.kind = .object
  · simp only [hk, if_true, List.mem_map, List.mem_filter, decide_eq_true_eq]
    grind
  · simp [hk]

theorem mem_implementations_iff_type? {ts : TypeSystem} (hnd : (ts.types.map Definition.name).Nodup)
    {interface name : String} : name ∈ ts.implementations interface ↔
      ∃ d, ts.type? name = some d ∧ d.kind = .object ∧ interface ∈ d.interfaces := by
  rw [mem_implementations]
  constructor
  · rintro ⟨d, hd, hk, hi, rfl⟩
    exact ⟨d, find?_key_of_mem hnd hd, hk, hi⟩
  · rintro ⟨d, hd, hk, hi⟩
    exact ⟨d, List.mem_of_find?_eq_some hd, hk, hi, by simpa using List.find?_some hd⟩

theorem sorted_implementations (ts : TypeSystem) (interface : String) :
    Sorted id (ts.implementations interface) := by
  have hname {d : Definition} {name : String} (h : name ∈ if d.kind = .object then
      (d.interfaces.filter (· = interface)).map fun _ => d.name else []) : name = d.name := by
    split at h
    · obtain ⟨-, -, rfl⟩ := List.mem_map.1 h
      rfl
    · cases h
  refine List.pairwise_flatMap.2 ⟨fun d _ => ?_, ?_⟩
  · refine List.pairwise_of_forall_mem_list fun a ha b hb => ?_
    obtain rfl : a = b := (hname ha).trans (hname hb).symm
    exact String.le_refl _
  · refine (sorted_sortBy Definition.name ts.types).imp fun hle a ha b hb => ?_
    exact (hname ha).symm ▸ (hname hb).symm ▸ hle

end TypeSystem

/-! ### What the document declares -/

namespace Schema
variable (s : Schema)

@[simp] theorem name_definition (t : NamedType) : (s.definition t).name = t.name := by
  unfold definition
  cases t.kind <;> rfl

@[simp] theorem kind_definition (t : NamedType) : (s.definition t).kind = t.kind := by
  unfold definition
  cases t.kind <;> rfl

/-- The document declares every type under its name, unless the name is implied. -/
theorem find?_definitions_toDocument {name : String} (h : isImpliedType name = false) :
    s.toDocument.definitions.find? (fun d => d.name = name) = (s.lookup name).map s.definition := by
  simp only [toDocument, List.find?_map, Function.comp_def, name_definition, List.find?_filter,
    lookup]
  congr 2
  funext t
  by_cases ht : t.name = name <;> simp [ht, h]

theorem isImpliedType_of_mem_toDocument {d : Definition} (h : d ∈ s.toDocument.definitions) :
    isImpliedType d.name = false := by
  obtain ⟨t, ht, rfl⟩ := List.mem_map.1 h
  simpa using (List.mem_filter.1 ht).2

theorem nodup_names_toDocument (h : Ordered NamedType.name s.types) :
    (s.toDocument.definitions.map Definition.name).Nodup := by
  have hnames : s.toDocument.definitions.map Definition.name =
      (s.types.filter fun t => !isImpliedType t.name).map NamedType.name := by
    simp [toDocument]
  rw [hnames]
  exact h.nodup_keys.sublist (List.filter_sublist.map _)

theorem nodup_directive_names_toDocument (h : Ordered DirectiveType.name s.directives) :
    (s.toDocument.directives.map DirectiveDefinition.name).Nodup := by
  have hnames : s.toDocument.directives.map DirectiveDefinition.name =
      (s.directives.filter isWritten).map DirectiveType.name := by
    simp [toDocument, directiveDefinition]
  rw [hnames]
  exact h.nodup_keys.sublist (List.filter_sublist.map _)

theorem not_implied_of_mem_toDocument {d : DirectiveDefinition}
    (h : d ∈ s.toDocument.directives) : impliedDirectives.contains d.name = false := by
  obtain ⟨e, he, rfl⟩ := List.mem_map.1 h
  have hwritten : isWritten e = true := (List.mem_filter.1 he).2
  rw [isWritten, Bool.and_eq_true, Bool.not_eq_true', Bool.not_eq_true'] at hwritten
  exact hwritten.2

end Schema

theorem nodup_names_builtinDocument :
    (builtinDocument.definitions.map Definition.name).Nodup := by
  decide

theorem isImpliedType_of_mem_builtinDocument :
    ∀ d ∈ builtinDocument.definitions, isImpliedType d.name = true := by
  with_unfolding_all decide

theorem nodup_directive_names_builtinDocument :
    (builtinDocument.directives.map DirectiveDefinition.name).Nodup := by
  decide

theorem implied_of_mem_builtinDocument :
    ∀ d ∈ builtinDocument.directives, impliedDirectives.contains d.name = true := by
  decide

/-! ### Type systems assembled anew -/

namespace TypeSystem

/-- No two types share a name, and the implied types are the built-in ones. -/
structure HoldsBuiltins (ts : TypeSystem) : Prop where
  distinct : (ts.types.map Definition.name).Nodup
  builtin : ∀ name, isImpliedType name = true →
    ts.type? name = builtinDocument.definitions.find? fun d => d.name = name

/-- The types and directives are the built-in ones and those of a document, in any order. Reserved
fields may stand behind those of every type that is no input object. -/
structure AssembledFrom (ts : TypeSystem) (doc : TypeSystemDocument) : Prop where
  types : ∃ extra : Definition → List FieldDefinition,
    (∀ d, ∀ f ∈ extra d, isMetaName f.name = true) ∧
    (∀ d, d.kind = .inputObject → extra d = []) ∧
    ts.types.Perm ((builtinDocument.append doc).definitions.map fun d => d.withFields (extra d))
  directives : ts.directives.Perm (builtinDocument.append doc).directives

end TypeSystem

theorem TypeSystem.type?_of_perm {ts : TypeSystem} {ds : List Definition}
    (hnd : (ds.map Definition.name).Nodup) {extra : Definition → List FieldDefinition}
    (h : ts.types.Perm (ds.map fun d => d.withFields (extra d))) (name : String) :
    ts.type? name = (ds.find? fun d => d.name = name).map fun d => d.withFields (extra d) := by
  have hnames : ((ds.map fun d => d.withFields (extra d)).map Definition.name).Nodup := by
    simpa [Definition.withFields, Function.comp_def] using hnd
  rw [type?, find?_key_of_perm hnames h, List.find?_map]
  rfl

namespace Schema

/-- The built-in definitions and those of a schema that is written have names of their own. -/
theorem nodup_names_append_toDocument {s : Schema} (h : Ordered NamedType.name s.types) :
    ((builtinDocument.append s.toDocument).definitions.map Definition.name).Nodup :=
  nodup_keys_append nodup_names_builtinDocument (s.nodup_names_toDocument h)
    isImpliedType_of_mem_builtinDocument fun _ => s.isImpliedType_of_mem_toDocument

theorem nodup_directive_names_append_toDocument {s : Schema}
    (h : Ordered DirectiveType.name s.directives) :
    ((builtinDocument.append s.toDocument).directives.map DirectiveDefinition.name).Nodup :=
  nodup_keys_append nodup_directive_names_builtinDocument (s.nodup_directive_names_toDocument h)
    implied_of_mem_builtinDocument fun _ => s.not_implied_of_mem_toDocument

theorem find?_append_toDocument_of_implied (s : Schema) {name : String}
    (h : isImpliedType name = true) :
    (builtinDocument.append s.toDocument).definitions.find? (fun d => d.name = name) =
      builtinDocument.definitions.find? fun d => d.name = name := by
  have hnone : s.toDocument.definitions.find? (fun d => d.name = name) = none :=
    find?_key_eq_none_of_test (fun k => !isImpliedType k)
      (fun d hd => by simp [s.isImpliedType_of_mem_toDocument hd]) (by simp [h])
  rw [TypeSystemDocument.append, List.find?_append, hnone, Option.or_none]

theorem find?_append_toDocument (s : Schema) {name : String} (h : isImpliedType name = false) :
    (builtinDocument.append s.toDocument).definitions.find? (fun d => d.name = name) =
      (s.lookup name).map s.definition := by
  have hnone : builtinDocument.definitions.find? (fun d => d.name = name) = none :=
    find?_key_eq_none_of_test isImpliedType isImpliedType_of_mem_builtinDocument h
  rw [TypeSystemDocument.append, List.find?_append, hnone, Option.none_or,
    s.find?_definitions_toDocument h]

theorem builtinScalar?_eq_none {name : String} (h : isImpliedType name = false) :
    builtinScalar? name = none := by
  rw [isImpliedType, Bool.or_eq_false_iff] at h
  simpa using h.1

/-- An object names the same interfaces when it was written and assembled anew. -/
theorem mem_interfaces_definition (s : Schema) {d : Definition} (hk : d.kind = .object)
    (implementations : List String) (extra : List FieldDefinition) {interface : String} :
    interface ∈ ((s.definition (.ofDefinition implementations d)).withFields extra).interfaces ↔
      interface ∈ d.interfaces := by
  simp [Definition.withFields, definition, NamedType.ofDefinition, hk, sortNames,
    (sortBy_perm ..).mem_iff]

section
variable {ts ts' : TypeSystem} {extra : Definition → List FieldDefinition}
  (h : ts.HoldsBuiltins)
  (h' : ts'.types.Perm ((builtinDocument.append (ofTypeSystem ts).toDocument).definitions.map
    fun d => d.withFields (extra d)))

include h' in
theorem nodup_names_assembled : (ts'.types.map Definition.name).Nodup := by
  have hnd := nodup_names_append_toDocument (ordered_types_ofTypeSystem ts)
  refine (h'.map Definition.name).nodup_iff.2 ?_
  simpa [Definition.withFields, Function.comp_def] using hnd

include h h'

theorem type?_assembled_of_implied {name : String} (himplied : isImpliedType name = true) :
    ts'.type? name = (ts.type? name).map fun d => d.withFields (extra d) := by
  have hnd := nodup_names_append_toDocument (ordered_types_ofTypeSystem ts)
  rw [TypeSystem.type?_of_perm hnd h', find?_append_toDocument_of_implied _ himplied,
    h.builtin name himplied]

theorem type?_assembled {name : String} (himplied : isImpliedType name = false) :
    ts'.type? name = (((ts.type? name).bind (declared? ts)).map (ofTypeSystem ts).definition).map
      fun d => d.withFields (extra d) := by
  have hnd := nodup_names_append_toDocument (ordered_types_ofTypeSystem ts)
  rw [TypeSystem.type?_of_perm hnd h', find?_append_toDocument _ himplied,
    lookup_ofTypeSystem h.distinct (builtinScalar?_eq_none himplied)]

/-- The same objects implement an interface in the type system that is assembled anew. -/
theorem distinct_implementations_assembled (interface : String) :
    distinct (ts'.implementations interface) = distinct (ts.implementations interface) := by
  refine (ts'.sorted_implementations interface).distinct_eq (ts.sorted_implementations interface) ?_
  intro name
  rw [TypeSystem.mem_implementations_iff_type? (nodup_names_assembled h'),
    TypeSystem.mem_implementations_iff_type? h.distinct]
  cases himplied : isImpliedType name with
  | true =>
    rw [type?_assembled_of_implied h h' himplied]
    cases ts.type? name <;> simp [Definition.withFields]
  | false =>
    rw [type?_assembled h h' himplied]
    cases ts.type? name with
    | none => simp
    | some d =>
      by_cases hk : d.kind = .object
      · simp [declared?, Kind.isKnown, hk, mem_interfaces_definition _ hk]
      · rw [Option.bind_some, declared?]
        split <;> simp [hk]

/-- A type that is not implied is declared as it was. -/
theorem lookup_assembled (hmeta : ∀ d, ∀ f ∈ extra d, isMetaName f.name = true)
    (hinput : ∀ d, d.kind = .inputObject → extra d = []) {name : String}
    (himplied : isImpliedType name = false) :
    (ofTypeSystem ts').lookup name = (ofTypeSystem ts).lookup name := by
  have hscalar := builtinScalar?_eq_none himplied
  rw [lookup_ofTypeSystem h.distinct hscalar,
    lookup_ofTypeSystem (nodup_names_assembled h') hscalar, type?_assembled h h' himplied]
  cases hd : ts.type? name with
  | none => rfl
  | some d =>
    obtain rfl : d.name = name := by simpa using List.find?_some hd
    by_cases known : d.kind.isKnown = true
    · simp only [Option.bind_some, Option.map_some, declared?, known, if_true,
        Definition.kind_withFields, kind_definition, NamedType.kind_ofDefinition,
        Definition.name_withFields, name_definition, NamedType.name_ofDefinition]
      refine congrArg some (NamedType.ofDefinition_definition _ known
        (distinct_implementations_assembled h h' d.name) (hmeta _) ?_)
      intro hk
      exact hinput _ (by simp [hk])
    · simp [declared?, known]

end

/-- A directive that is written is declared as it was. -/
theorem directive?_assembled {ts ts' : TypeSystem}
    (h' : ts'.directives.Perm (builtinDocument.append (ofTypeSystem ts).toDocument).directives)
    {d : DirectiveType} (hd : d ∈ (ofTypeSystem ts).directives) (hwritten : isWritten d = true) :
    (ofTypeSystem ts').directive? d.name = some d := by
  have hnd := nodup_directive_names_append_toDocument (ordered_directives_ofTypeSystem ts)
  have hmem : (ofTypeSystem ts).directiveDefinition d ∈
      (builtinDocument.append (ofTypeSystem ts).toDocument).directives :=
    List.mem_append_right _ (List.mem_map_of_mem (List.mem_filter.2 ⟨hd, hwritten⟩))
  have hfound : ts'.directive? d.name = some ((ofTypeSystem ts).directiveDefinition d) := by
    rw [TypeSystem.directive?, find?_key_of_perm hnd h']
    exact find?_key_of_mem hnd hmem
  have hold : (ofTypeSystem ts).directive? d.name = some d :=
    find?_key_of_mem (ordered_directives_ofTypeSystem ts).nodup_keys hd
  simp only [isWritten, Bool.and_eq_true, Bool.not_eq_true'] at hwritten
  rw [directive?_ofTypeSystem, directive?_empty hwritten.2, Option.none_or] at hold ⊢
  obtain ⟨e, -, rfl⟩ := Option.map_eq_some_iff.1 hold
  rw [hfound, Option.map_some, ofDefinition_directiveDefinition _ hwritten.1]

/-- A type system assembled from the document of a schema declares what the schema holds: every type
that is not implied, and every directive that is written. -/
theorem ofTypeSystem_toDocument {ts ts' : TypeSystem} (h : ts.HoldsBuiltins)
    (h' : ts'.AssembledFrom (ofTypeSystem ts).toDocument) :
    (∀ name, isImpliedType name = false →
      (ofTypeSystem ts').lookup name = (ofTypeSystem ts).lookup name) ∧
    ∀ d ∈ (ofTypeSystem ts).directives, isWritten d = true →
      (ofTypeSystem ts').directive? d.name = some d := by
  obtain ⟨⟨extra, hmeta, hinput, htypes⟩, hdirectives⟩ := h'
  constructor
  · intro name himplied
    exact lookup_assembled h htypes hmeta hinput himplied
  · intro d hd hwritten
    exact directive?_assembled hdirectives hd hwritten

end Schema

/-! ### A schema of pets -/

namespace Pets

def cost : DirectiveDefinition where
  name := "cost"
  description := "What a field costs."
  arguments := [{
    name := "weight"
    type := .named "Int" true default
    default := some (.int "1")
    pos := default }]
  locations := ["FIELD_DEFINITION"]
  repeatable := true
  pos := default

/-- Pets with an interface, an input object and a deprecated field. -/
def definitions : List Definition :=
  [{ kind := .interface
     name := "Pet"
     description := "What has a name."
     fields := [{ name := "name", type := .named "String" true default, pos := default }]
     pos := default },
   { kind := .object
     name := "Dog"
     interfaces := ["Pet"]
     fields := [{ name := "name", type := .named "String" true default, pos := default }]
     pos := default },
   { kind := .object
     name := "Cat"
     interfaces := ["Pet"]
     fields := [{ name := "name", type := .named "String" true default, pos := default }]
     pos := default },
   { kind := .inputObject
     name := "Page"
     directives := [{ name := "oneOf", pos := default }]
     fields := [{
       name := "sizes"
       type := .list (.named "Int" true default) false default
       default := some (.list [.int "010", .int "20"])
       pos := default }]
     pos := default },
   { kind := .object
     name := "Query"
     fields := [{
       name := "pets"
       arguments := [{ name := "page", type := .named "Page" false default, pos := default }]
       type := .list (.named "Pet" true default) true default
       directives := [{ name := "deprecated", pos := default }]
       pos := default }]
     pos := default }]

/-- The definitions behind the built-in ones. -/
def declared : TypeSystem where
  types := builtinDocument.definitions ++ definitions
  directives := builtinDocument.directives ++ [cost]
  query := some "Query"

def introspection (d : Definition) : List FieldDefinition :=
  if d.kind = .object ∧ d.name = "Query" then TypeSystem.metaFields else []

/-- The document of their schema behind the built-in definitions, with the fields of introspection. -/
def assembled : TypeSystem where
  types :=
    (builtinDocument.append (Schema.ofTypeSystem declared).toDocument).definitions.map fun d =>
      d.withFields (introspection d)
  directives := (builtinDocument.append (Schema.ofTypeSystem declared).toDocument).directives
  query := some "Query"

theorem holdsBuiltins_declared : declared.HoldsBuiltins := by
  have hnot : ∀ d ∈ definitions, isImpliedType d.name = false := by with_unfolding_all decide
  refine ⟨nodup_keys_append nodup_names_builtinDocument (by with_unfolding_all decide)
    isImpliedType_of_mem_builtinDocument hnot, fun name himplied => ?_⟩
  have hnone : definitions.find? (fun d => d.name = name) = none :=
    find?_key_eq_none_of_test (fun k => !isImpliedType k) (fun d hd => by simp [hnot d hd])
      (by simp [himplied])
  rw [TypeSystem.type?, declared, List.find?_append, hnone, Option.or_none]

theorem assembledFrom_assembled :
    assembled.AssembledFrom (Schema.ofTypeSystem declared).toDocument := by
  refine ⟨⟨introspection, fun d f hf => ?_, fun d hk => ?_, List.Perm.refl _⟩, List.Perm.refl _⟩
  · have hmeta : ∀ f ∈ TypeSystem.metaFields, isMetaName f.name = true := by with_unfolding_all decide
    unfold introspection at hf
    split at hf
    · exact hmeta f hf
    · cases hf
  · simp [introspection, hk]

end Pets

theorem Schema.ofTypeSystem_toDocument_pets :
    Pets.declared.HoldsBuiltins ∧
    Pets.assembled.AssembledFrom (ofTypeSystem Pets.declared).toDocument ∧
    (ofTypeSystem Pets.assembled).lookup "Pet" = (ofTypeSystem Pets.declared).lookup "Pet" ∧
    ((ofTypeSystem Pets.declared).lookup "Pet").map NamedType.possibleTypes = some ["Cat", "Dog"] ∧
    (ofTypeSystem Pets.assembled).directive? "cost" = some (.ofDefinition Pets.cost) := by
  have hbuiltins := Pets.holdsBuiltins_declared
  have hassembled := Pets.assembledFrom_assembled
  obtain ⟨htypes, hdirectives⟩ := ofTypeSystem_toDocument hbuiltins hassembled
  have hcost : (ofTypeSystem Pets.declared).directive? "cost" = some (.ofDefinition Pets.cost) := by
    rw [directive?_ofTypeSystem, directive?_empty (by with_unfolding_all decide)]
    rfl
  refine ⟨hbuiltins, hassembled, htypes "Pet" (by with_unfolding_all decide), by decide +kernel, ?_⟩
  exact hdirectives _ (List.mem_of_find?_eq_some hcost) (by with_unfolding_all decide)

end OperationGraph
