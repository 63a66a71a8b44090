import OperationGraph.Proofs.Definition.Lexemes
import OperationGraph.Proofs.Text.Ordered
import OperationGraph.Schema.Build

/-! # What the schema of a type system holds

The type of a name in the schema is the one that the definition of that name declares, unless the name
is that of a built-in scalar; the directive of a name is the first one declared. Both are kept in the
order of their names. -/

namespace OperationGraph

namespace NamedType

@[simp] theorem name_ofDefinition (implementations : List String) (d : Definition) :
    (ofDefinition implementations d).name = d.name := by
  unfold ofDefinition
  cases d.kind <;> rfl

@[simp] theorem kind_ofDefinition (implementations : List String) (d : Definition) :
    (ofDefinition implementations d).kind = d.kind := by
  unfold ofDefinition
  cases d.kind <;> rfl

end NamedType

namespace Schema

theorem name_of_builtinScalar? {name : String} {b : NamedType} (h : builtinScalar? name = some b) :
    b.name = name := by
  simpa using List.find?_some h

/-! ### Types -/

theorem lookup_addType (s : Schema) (t : NamedType) (name : String) :
    (s.addType t).lookup name = if t.name = name then some t else s.lookup name :=
  find?_putOrdered t s.types name

theorem lookup_foldl_addType {ts : List NamedType} (hnd : (ts.map NamedType.name).Nodup) (s : Schema)
    (name : String) :
    (ts.foldl addType s).lookup name = (ts.find? fun t => t.name = name).or (s.lookup name) := by
  induction ts generalizing s with
  | nil => rfl
  | cons t rest ih =>
    obtain ⟨ht, hnd⟩ := List.nodup_cons.1 hnd
    rw [List.foldl_cons, ih hnd, lookup_addType]
    by_cases hname : t.name = name
    · have hnone : rest.find? (fun t => t.name = name) = none := by
        rw [find?_key_eq_none_iff]
        exact hname ▸ ht
      simp [hname, hnone]
    · simp [hname]

theorem types_foldl_addDirective (ds : List DirectiveType) (s : Schema) :
    (ds.foldl addDirective s).types = s.types := by
  induction ds generalizing s with
  | nil => rfl
  | cons d rest ih => exact ih _

theorem types_foldl_addDirectiveDefinition (ds : List DirectiveDefinition) (s : Schema) :
    (ds.foldl addDirectiveDefinition s).types = s.types := by
  induction ds generalizing s with
  | nil => rfl
  | cons d rest ih =>
    rw [List.foldl_cons, ih, addDirectiveDefinition]
    split <;> rfl

theorem lookup_empty (description name : String) :
    (Schema.empty description).lookup name = builtinScalar? name := by
  rw [lookup, Schema.empty, types_foldl_addDirective]
  exact (lookup_foldl_addType (by decide) _ name).trans (Option.or_none ..)

def declared? (ts : TypeSystem) (d : Definition) : Option NamedType :=
  if d.kind.isKnown then some (NamedType.ofDefinition (ts.implementations d.name) d) else none

/-- The type that a definition adds to a schema: a scalar with the name of a built-in one is that one. -/
def added? (ts : TypeSystem) (d : Definition) : Option NamedType :=
  match builtinScalar? d.name, d.kind with
  | some b, .scalar => some b
  | _, _ => declared? ts d

theorem added?_of_builtinScalar?_eq_none {ts : TypeSystem} {d : Definition}
    (h : builtinScalar? d.name = none) : added? ts d = declared? ts d := by
  simp [added?, h]

theorem name_of_added? {ts : TypeSystem} {d : Definition} {t : NamedType} (h : added? ts d = some t) :
    t.name = d.name := by
  unfold added? at h
  split at h
  · next b hb _ => exact Option.some.inj h ▸ name_of_builtinScalar? hb
  · obtain ⟨-, ht⟩ := Option.ite_none_right_eq_some.1 h
    rw [← Option.some.inj ht, NamedType.name_ofDefinition]

theorem addDefinition_eq_added? (ts : TypeSystem) (s : Schema) (d : Definition) :
    addDefinition ts s d = ((added? ts d).map s.addType).getD s := by
  unfold addDefinition added? declared?
  cases builtinScalar? d.name <;> cases d.kind <;> rfl

theorem lookup_addDefinition (ts : TypeSystem) (s : Schema) (d : Definition) (name : String) :
    (addDefinition ts s d).lookup name =
      if d.name = name then (added? ts d).or (s.lookup name) else s.lookup name := by
  rw [addDefinition_eq_added?]
  cases ht : added? ts d with
  | none => simp
  | some t => simp [lookup_addType, name_of_added? ht]

theorem lookup_foldl_addDefinition (ts : TypeSystem) {ds : List Definition}
    (hnd : (ds.map Definition.name).Nodup) (name : String) (s : Schema) :
    (ds.foldl (addDefinition ts) s).lookup name =
      ((ds.find? fun d => d.name = name).bind (added? ts)).or (s.lookup name) := by
  induction ds generalizing s with
  | nil => rfl
  | cons d rest ih =>
    obtain ⟨hd, hnd⟩ := List.nodup_cons.1 hnd
    rw [List.foldl_cons, ih hnd, lookup_addDefinition]
    by_cases hname : d.name = name
    · have hnone : rest.find? (fun d => d.name = name) = none := by
        rw [find?_key_eq_none_iff]
        exact hname ▸ hd
      simp [hname, hnone]
    · simp [hname]

/-- The type of a name is what the definition of the name adds, or else a built-in scalar. -/
theorem lookup_ofTypeSystem_eq_or {ts : TypeSystem} (hnd : (ts.types.map Definition.name).Nodup)
    (name : String) :
    (ofTypeSystem ts).lookup name =
      ((ts.type? name).bind (added? ts)).or (builtinScalar? name) := by
  have hsorted : (ts.sortedTypes.map Definition.name).Nodup := (ordered_sortBy hnd).nodup_keys
  rw [lookup, ofTypeSystem, types_foldl_addDirectiveDefinition]
  refine (lookup_foldl_addDefinition ts hsorted name _).trans ?_
  rw [TypeSystem.sortedTypes, find?_sortBy hnd]
  exact congrArg _ (lookup_empty ts.description name)

/-- The type of a name that is no built-in scalar is what the definition of the name declares. -/
theorem lookup_ofTypeSystem {ts : TypeSystem} (hnd : (ts.types.map Definition.name).Nodup)
    {name : String} (h : builtinScalar? name = none) :
    (ofTypeSystem ts).lookup name = (ts.type? name).bind (declared? ts) := by
  rw [lookup_ofTypeSystem_eq_or hnd, h, Option.or_none]
  cases hd : ts.type? name with
  | none => rfl
  | some d =>
    have hname : d.name = name := by simpa using List.find?_some hd
    exact added?_of_builtinScalar?_eq_none (hname ▸ h)

/-- A built-in scalar stays as it is if no other kind of type has its name. -/
theorem lookup_ofTypeSystem_of_builtinScalar? {ts : TypeSystem} {name : String} {b : NamedType}
    (h : builtinScalar? name = some b) (hscalar : ∀ d ∈ ts.types, d.name = name → d.kind = .scalar) :
    (ofTypeSystem ts).lookup name = some b := by
  rw [lookup, ofTypeSystem, types_foldl_addDirectiveDefinition]
  refine List.foldlRecOn (motive := fun s => s.lookup name = some b) ts.sortedTypes
    (addDefinition ts) ?_ ?_
  · exact (lookup_empty ts.description name).trans h
  · intro s hs d hd
    have hmem : d ∈ ts.types := (sortBy_perm Definition.name ts.types).mem_iff.1 hd
    rw [lookup_addDefinition]
    by_cases hname : d.name = name
    · simp [added?, hscalar d hmem hname, hname, h]
    · rw [if_neg hname]
      exact hs

theorem ordered_addDefinition (ts : TypeSystem) {s : Schema} (d : Definition)
    (h : Ordered NamedType.name s.types) : Ordered NamedType.name (addDefinition ts s d).types := by
  unfold addDefinition
  split
  · exact ordered_putOrdered _ h
  · exact h
  · exact ordered_putOrdered _ h

/-- The types of a schema are in the order of their names. -/
theorem ordered_types_ofTypeSystem (ts : TypeSystem) :
    Ordered NamedType.name (ofTypeSystem ts).types := by
  have hempty : Ordered NamedType.name (Schema.empty ts.description).types := by
    rw [Schema.empty, types_foldl_addDirective]
    refine List.foldlRecOn (motive := fun s => Ordered NamedType.name s.types) builtinScalars
      addType ?_ ?_
    · exact Ordered.nil
    · exact fun s h t _ => ordered_putOrdered t h
  rw [ofTypeSystem, types_foldl_addDirectiveDefinition]
  refine List.foldlRecOn (motive := fun s => Ordered NamedType.name s.types) ts.sortedTypes
    (addDefinition ts) ?_ ?_
  · exact hempty
  · exact fun s h d _ => ordered_addDefinition ts d h

theorem mem_types_iff_lookup {s : Schema} (h : Ordered NamedType.name s.types) {t : NamedType} :
    t ∈ s.types ↔ s.lookup t.name = some t :=
  mem_iff_find?_key h.nodup_keys

/-! ### Directives -/

def directive? (s : Schema) (name : String) : Option DirectiveType :=
  s.directives.find? (·.name = name)

theorem directive?_addDirective (s : Schema) (d : DirectiveType) (name : String) :
    (s.addDirective d).directive? name = if d.name = name then some d else s.directive? name :=
  find?_putOrdered d s.directives name

theorem directive?_addDirectiveDefinition (s : Schema) (d : DirectiveDefinition) (name : String) :
    (addDirectiveDefinition s d).directive? name =
      (s.directive? name).or (if d.name = name then some (.ofDefinition d) else none) := by
  have hany : s.directives.any (·.name = d.name) = (s.directive? d.name).isSome := by
    rw [directive?, Bool.eq_iff_iff]
    simp
  rw [addDirectiveDefinition, hany]
  cases hd : s.directive? d.name with
  | some e =>
    by_cases hname : d.name = name
    · subst hname
      simp [hd]
    · simp [hname]
  | none =>
    rw [if_neg (by simp), directive?_addDirective]
    by_cases hname : d.name = name
    · subst hname
      simp [hd, DirectiveType.ofDefinition]
    · simp [hname, DirectiveType.ofDefinition]

theorem ordered_addDirectiveDefinition {s : Schema} (d : DirectiveDefinition)
    (h : Ordered DirectiveType.name s.directives) :
    Ordered DirectiveType.name (addDirectiveDefinition s d).directives := by
  rw [addDirectiveDefinition]
  split
  · exact h
  · exact ordered_putOrdered _ h

theorem directive?_foldl_addDirectiveDefinition (ds : List DirectiveDefinition) (s : Schema)
    (name : String) : (ds.foldl addDirectiveDefinition s).directive? name =
      (s.directive? name).or
        ((ds.find? fun d => d.name = name).map DirectiveType.ofDefinition) := by
  induction ds generalizing s with
  | nil => simp
  | cons d rest ih =>
    rw [List.foldl_cons, ih, directive?_addDirectiveDefinition, Option.or_assoc]
    congr 1
    by_cases hname : d.name = name <;> simp [hname]

theorem directives_foldl_addDefinition (ts : TypeSystem) (ds : List Definition) (s : Schema) :
    (ds.foldl (addDefinition ts) s).directives = s.directives := by
  induction ds generalizing s with
  | nil => rfl
  | cons d rest ih =>
    rw [List.foldl_cons, ih]
    unfold addDefinition
    split <;> rfl

theorem directives_foldl_addType (ts : List NamedType) (s : Schema) :
    (ts.foldl addType s).directives = s.directives := by
  induction ts generalizing s with
  | nil => rfl
  | cons t rest ih => exact ih _

/-- The directive of a name is built in, or else the first one declared. -/
theorem directive?_ofTypeSystem (ts : TypeSystem) (name : String) :
    (ofTypeSystem ts).directive? name =
      ((Schema.empty ts.description).directive? name).or
        ((ts.directive? name).map DirectiveType.ofDefinition) := by
  rw [ofTypeSystem, directive?_foldl_addDirectiveDefinition, directive?,
    directives_foldl_addDefinition]
  rfl

theorem directive?_empty {name : String} (h : impliedDirectives.contains name = false)
    (description : String) : (Schema.empty description).directive? name = none := by
  have hne : "include" ≠ name ∧ "skip" ≠ name := by
    constructor <;> rintro rfl <;> simp [impliedDirectives] at h
  simp only [Schema.empty, builtinDirectives, List.foldl_cons, List.foldl_nil,
    directive?_addDirective, conditionDirective, hne, if_false]
  rw [directive?, directives_foldl_addType]
  rfl

/-- The directives of a schema are in the order of their names. -/
theorem ordered_directives_ofTypeSystem (ts : TypeSystem) :
    Ordered DirectiveType.name (ofTypeSystem ts).directives := by
  rw [ofTypeSystem]
  refine List.foldlRecOn (motive := fun s => Ordered DirectiveType.name s.directives) ts.directives
    addDirectiveDefinition ?_ ?_
  · rw [directives_foldl_addDefinition]
    change Ordered DirectiveType.name (Schema.empty ts.description).directives
    refine List.foldlRecOn (motive := fun s => Ordered DirectiveType.name s.directives)
      builtinDirectives addDirective ?_ ?_
    · rw [directives_foldl_addType]
      exact Ordered.nil
    · exact fun s h d _ => ordered_putOrdered d h
  · exact fun s h d _ => ordered_addDirectiveDefinition d h

end Schema

end OperationGraph
