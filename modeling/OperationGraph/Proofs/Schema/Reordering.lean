import Mathlib.Data.List.Forall2
import OperationGraph.Graph.Analyze
import OperationGraph.Proofs.Schema.Loading
import OperationGraph.Proofs.Schema.RoundTrip

/-! # Schemas and the order of declarations

A schema does not show in which order types and directives are enumerated, nor in which order a type names
its interfaces or a union its members (`Schema.ofTypeSystem_reordered`). Types are sorted before anything
is made of them, so two enumerations are gone through side by side; the names that a definition lists are
sorted where they are taken over; and a directive is put in its place by name. -/

namespace OperationGraph

/-! ### Sorted lists -/

section
variable {α : Type} {key : α → String}

theorem sortBy_eq_of_perm {xs ys : List α} (hnd : (xs.map key).Nodup) (h : ys.Perm xs) :
    sortBy key ys = sortBy key xs := by
  have hnd' : (ys.map key).Nodup := (h.map key).nodup_iff.2 hnd
  apply (ordered_sortBy hnd').ext (ordered_sortBy hnd)
  intro a
  rw [(sortBy_perm key ys).mem_iff, (sortBy_perm key xs).mem_iff, h.mem_iff]

/-- Names that repeat are sorted into one list too. -/
theorem sortNames_eq_of_perm {names names' : List String} (h : names'.Perm names) :
    sortNames names' = sortNames names := by
  have hperm : (sortNames names').Perm (sortNames names) :=
    ((sortBy_perm id names').trans h).trans (sortBy_perm id names).symm
  exact hperm.eq_of_pairwise (fun _ _ _ _ hab hba => String.le_antisymm hab hba)
    (sorted_sortBy id names') (sorted_sortBy id names)

variable {R : α → α → Prop} (hkey : ∀ a b, R a b → key b = key a)
include hkey

theorem forall₂_insertOrdered {a b : α} (hab : R a b) {xs ys : List α} (h : List.Forall₂ R xs ys) :
    List.Forall₂ R (insertOrdered key a xs) (insertOrdered key b ys) := by
  induction h with
  | nil => exact .cons hab .nil
  | cons hxy hrest ih =>
    rw [insertOrdered, insertOrdered, hkey _ _ hab, hkey _ _ hxy]
    split
    · exact .cons hxy ih
    · exact .cons hab (.cons hxy hrest)

/-- Lists whose elements agree pairwise, keys included, agree after sorting. -/
theorem forall₂_sortBy {xs ys : List α} (h : List.Forall₂ R xs ys) :
    List.Forall₂ R (sortBy key xs) (sortBy key ys) := by
  induction h with
  | nil => exact .nil
  | cons hab _ ih => exact forall₂_insertOrdered hkey hab ih

end

/-! ### Type systems in another order -/

/-- The same definition, up to the order of the interfaces and of the members that it names. -/
structure Definition.Reordered (d d' : Definition) : Prop where
  interfaces : d'.interfaces.Perm d.interfaces
  members : d'.members.Perm d.members
  rest : d' = { d with interfaces := d'.interfaces, members := d'.members }

namespace TypeSystem

/-- No two types and no two directives share a name. -/
structure Keyed (ts : TypeSystem) : Prop where
  types : (ts.types.map Definition.name).Nodup
  directives : (ts.directives.map DirectiveDefinition.name).Nodup

/-- The same type system, up to the order in which types and directives are enumerated and to the order
of names inside the definitions. -/
structure Reordered (ts ts' : TypeSystem) : Prop where
  types : ∃ types, ts'.types.Perm types ∧ List.Forall₂ Definition.Reordered ts.types types
  directives : ts'.directives.Perm ts.directives
  rest : ts' = { ts with types := ts'.types, directives := ts'.directives }

theorem nodup_names_of_declareDirective {ds ds' : List DirectiveDefinition} {d : DirectiveDefinition}
    (h : declareDirective ds d = .ok ds') (hds : (ds.map DirectiveDefinition.name).Nodup) :
    (ds'.map DirectiveDefinition.name).Nodup := by
  unfold declareDirective at h
  split at h
  · split at h
    · -- the directive takes the place of the one with its name
      have hnames : ds'.map DirectiveDefinition.name = ds.map DirectiveDefinition.name := by
        rw [← Except.ok.inj h, List.map_map]
        apply List.map_congr_left
        intro e _
        by_cases he : e.name = d.name <;> simp [he]
      rwa [hnames]
    · cases h
  · next hnew =>
    rw [← Except.ok.inj h, List.map_append]
    refine hds.append (List.nodup_singleton _) ?_
    intro name hname hd
    obtain ⟨e, he, rfl⟩ := List.mem_map.1 hname
    exact hnew (List.any_eq_true.2 ⟨e, he, by simpa using hd⟩)

/-- What a document declares is enumerated without repetition. -/
theorem keyed_of_ofDocument {doc : TypeSystemDocument} {ts : TypeSystem} (hdoc : doc.Named)
    (h : ofDocument doc = .ok ts) : ts.Keyed := by
  refine ⟨(sound_of_ofDocument hdoc h).declarable.distinct, ?_⟩
  obtain ⟨base, -, -, -, -, -, hdirectives, rfl⟩ := exists_checked_of_ofDocument hdoc h
  have hnodup : (base.directives.map DirectiveDefinition.name).Nodup :=
    of_foldlM_eq_ok (fun ds => (ds.map DirectiveDefinition.name).Nodup) hdirectives List.nodup_nil
      fun _ _ _ _ hds hd => nodup_names_of_declareDirective hd hds
  rw [directives_addMetaFields]
  split <;> exact hnodup

end TypeSystem

namespace Definition.Reordered
variable {d d' : Definition} (h : d.Reordered d')
include h

theorem name_eq : d'.name = d.name := by
  rw [h.rest]

theorem kind_eq : d'.kind = d.kind := by
  rw [h.rest]

/-- A definition declares the same type in whatever order it names others. -/
theorem ofDefinition_eq (implementations : List String) :
    NamedType.ofDefinition implementations d' = NamedType.ofDefinition implementations d := by
  have hinterfaces := sortNames_eq_of_perm h.interfaces
  have hmembers := sortNames_eq_of_perm h.members
  rw [h.rest]
  cases hk : d.kind <;> simp [NamedType.ofDefinition, hk, hinterfaces, hmembers]

/-- An object stands among the implementations of an interface as often as it names it. -/
theorem implementing_eq (interface : String) :
    (if d'.kind = .object then (d'.interfaces.filter (· = interface)).map fun _ => d'.name else []) =
      if d.kind = .object then (d.interfaces.filter (· = interface)).map fun _ => d.name else [] := by
  rw [h.kind_eq, h.name_eq, List.map_const', List.map_const',
    (h.interfaces.filter (· = interface)).length_eq]

theorem addDefinition_eq {ts ts' : TypeSystem}
    (himplementations : ∀ interface, ts'.implementations interface = ts.implementations interface)
    (s : Schema) : Schema.addDefinition ts' s d' = Schema.addDefinition ts s d := by
  unfold Schema.addDefinition
  rw [h.kind_eq, h.name_eq, himplementations, h.ofDefinition_eq]

end Definition.Reordered

namespace Definition
variable {ds ds' : List Definition} (h : List.Forall₂ Reordered ds ds')
include h

theorem map_name_of_reordered : ds'.map name = ds.map name := by
  induction h with
  | nil => rfl
  | cons hd _ ih => rw [List.map_cons, List.map_cons, hd.name_eq, ih]

theorem implementing_of_reordered (interface : String) :
    (ds'.flatMap fun d => if d.kind = .object then
      (d.interfaces.filter (· = interface)).map fun _ => d.name else []) =
    ds.flatMap fun d => if d.kind = .object then
      (d.interfaces.filter (· = interface)).map fun _ => d.name else [] := by
  induction h with
  | nil => rfl
  | cons hd _ ih => rw [List.flatMap_cons, List.flatMap_cons, hd.implementing_eq, ih]

/-- Definitions that are gone through side by side make one schema, if the same objects implement each
interface. -/
theorem foldl_addDefinition_of_reordered {ts ts' : TypeSystem}
    (himplementations : ∀ interface, ts'.implementations interface = ts.implementations interface)
    (s : Schema) :
    ds'.foldl (Schema.addDefinition ts') s = ds.foldl (Schema.addDefinition ts) s := by
  induction h generalizing s with
  | nil => rfl
  | cons hd _ ih =>
    rw [List.foldl_cons, List.foldl_cons, hd.addDefinition_eq himplementations, ih]

end Definition

namespace TypeSystem.Reordered
variable {ts ts' : TypeSystem} (hkeyed : ts.Keyed) (h : ts.Reordered ts')
include hkeyed h

/-- Sorted by name, the types of both enumerations stand side by side. -/
theorem forall₂_sortedTypes :
    List.Forall₂ Definition.Reordered ts.sortedTypes ts'.sortedTypes := by
  obtain ⟨types, hperm, hside⟩ := h.types
  have hnd : (types.map Definition.name).Nodup := by
    rw [Definition.map_name_of_reordered hside]
    exact hkeyed.types
  have hsorted : ts'.sortedTypes = sortBy Definition.name types := sortBy_eq_of_perm hnd hperm
  rw [hsorted]
  exact forall₂_sortBy (fun _ _ hd => hd.name_eq) hside

theorem implementations_eq (interface : String) :
    ts'.implementations interface = ts.implementations interface :=
  Definition.implementing_of_reordered (forall₂_sortedTypes hkeyed h) interface

theorem directive?_eq (name : String) : ts'.directive? name = ts.directive? name :=
  find?_key_of_perm hkeyed.directives h.directives name

end TypeSystem.Reordered

namespace Schema

/-- Adding directives changes nothing else. -/
theorem foldl_addDirectiveDefinition_eq (ds : List DirectiveDefinition) (s : Schema) :
    ds.foldl addDirectiveDefinition s =
      { s with directives := (ds.foldl addDirectiveDefinition s).directives } := by
  induction ds generalizing s with
  | nil => rfl
  | cons d rest ih =>
    rw [List.foldl_cons, ih, addDirectiveDefinition]
    split <;> rfl

/-- The order of declarations makes no difference to a schema. -/
theorem ofTypeSystem_eq_of_reordered {ts ts' : TypeSystem} (hkeyed : ts.Keyed)
    (h : ts.Reordered ts') : ofTypeSystem ts' = ofTypeSystem ts := by
  have hdescription : ts'.description = ts.description := by rw [h.rest]
  have hquery : ts'.query = ts.query := by rw [h.rest]
  have hmutation : ts'.mutation = ts.mutation := by rw [h.rest]
  have hsubscription : ts'.subscription = ts.subscription := by rw [h.rest]
  have htypes := Definition.foldl_addDefinition_of_reordered (h.forall₂_sortedTypes hkeyed)
    (h.implementations_eq hkeyed)
  have hdirectives : (ofTypeSystem ts').directives = (ofTypeSystem ts).directives := by
    apply (ordered_directives_ofTypeSystem ts').ext_find? (ordered_directives_ofTypeSystem ts)
    intro name
    have hfind := directive?_ofTypeSystem ts' name
    rw [hdescription, h.directive?_eq hkeyed, ← directive?_ofTypeSystem ts] at hfind
    exact hfind
  simp only [ofTypeSystem, hdescription, hquery, hmutation, hsubscription, htypes] at hdirectives ⊢
  rw [foldl_addDirectiveDefinition_eq ts'.directives, foldl_addDirectiveDefinition_eq ts.directives,
    hdirectives]

theorem ordered_definitions_toDocument {s : Schema} (h : Ordered NamedType.name s.types) :
    Ordered Definition.name s.toDocument.definitions := by
  apply List.pairwise_map.2
  refine (h.sublist List.filter_sublist).imp fun {t u} hlt => ?_
  rw [name_definition, name_definition]
  exact hlt

theorem ordered_directives_toDocument {s : Schema} (h : Ordered DirectiveType.name s.directives) :
    Ordered DirectiveDefinition.name s.toDocument.directives :=
  List.pairwise_map.2 (h.sublist List.filter_sublist)

/-- Type systems that enumerate the same types and directives in different orders, and name interfaces
and members in different orders, have one schema; no name is repeated in what a document declares
(`TypeSystem.keyed_of_ofDocument`). So the schema is written as one document, whose definitions and
directives are in the order of their names, and every operation has the same graph or the same error. -/
theorem ofTypeSystem_reordered {ts ts' : TypeSystem} (hkeyed : ts.Keyed) (h : ts.Reordered ts') :
    ofTypeSystem ts' = ofTypeSystem ts ∧
      (ofTypeSystem ts').toDocument = (ofTypeSystem ts).toDocument ∧
      Ordered Definition.name (ofTypeSystem ts).toDocument.definitions ∧
      Ordered DirectiveDefinition.name (ofTypeSystem ts).toDocument.directives ∧
      ∀ doc operationName given, analyze (ofTypeSystem ts') doc operationName given =
        analyze (ofTypeSystem ts) doc operationName given := by
  have hschema := ofTypeSystem_eq_of_reordered hkeyed h
  refine ⟨hschema, congrArg toDocument hschema,
    ordered_definitions_toDocument (ordered_types_ofTypeSystem ts),
    ordered_directives_toDocument (ordered_directives_ofTypeSystem ts), ?_⟩
  intro doc operationName given
  rw [hschema]

end Schema

namespace Pets

def interfaceOf (name : String) : Definition where
  kind := .interface
  name
  fields := [{ name := "name", type := .named "String" true default, pos := default }]
  pos := default

def objectOf (name : String) (interfaces : List String) : Definition :=
  { interfaceOf name with kind := .object, interfaces }

def unionOf (name : String) (members : List String) : Definition where
  kind := .union
  name
  members
  pos := default

/-- Interfaces, objects and a union in some order. -/
def listed : TypeSystem where
  types := [objectOf "Dog" ["Animal", "Tagged"], interfaceOf "Animal", objectOf "Cat" ["Animal"],
    unionOf "Either" ["Dog", "Cat"], interfaceOf "Tagged"]
  directives := [cost, { cost with name := "age" }]

def relisted : TypeSystem where
  types := [interfaceOf "Tagged", unionOf "Either" ["Cat", "Dog"], objectOf "Cat" ["Animal"],
    interfaceOf "Animal", objectOf "Dog" ["Tagged", "Animal"]]
  directives := [{ cost with name := "age" }, cost]

theorem keyed_listed : listed.Keyed := ⟨by decide, by decide⟩

theorem reordered_listed : listed.Reordered relisted := by
  refine ⟨⟨relisted.types.reverse, (List.reverse_perm _).symm, ?_⟩, List.Perm.swap .., rfl⟩
  have hsame (d : Definition) : d.Reordered d := ⟨.refl _, .refl _, rfl⟩
  refine .cons ⟨List.Perm.swap .., .refl _, rfl⟩ (.cons (hsame _) (.cons (hsame _) (.cons ?_
    (.cons (hsame _) .nil))))
  exact ⟨.refl _, List.Perm.swap .., rfl⟩

end Pets

/-- In both orders the possible types are those of the sorted names. -/
theorem Schema.ofTypeSystem_reordered_listed :
    Pets.listed.Keyed ∧ Pets.listed.Reordered Pets.relisted ∧
      ofTypeSystem Pets.relisted = ofTypeSystem Pets.listed ∧
      ((ofTypeSystem Pets.relisted).lookup "Animal").map NamedType.possibleTypes =
        some ["Cat", "Dog"] ∧
      ((ofTypeSystem Pets.relisted).lookup "Either").map NamedType.possibleTypes =
        some ["Cat", "Dog"] := by
  obtain ⟨hschema, -⟩ := ofTypeSystem_reordered Pets.keyed_listed Pets.reordered_listed
  refine ⟨Pets.keyed_listed, Pets.reordered_listed, hschema, ?_⟩
  rw [hschema]
  decide

end OperationGraph
