import OperationGraph.Definition.Prelude
import OperationGraph.Proofs.Definition.Checks
import OperationGraph.Proofs.Definition.Recall
import OperationGraph.Schema.TypeRef

/-! # Checks of declarations that were written anew

A declaration renews another one if its names and types are the same and its directives are built-in
ones. A type system that has a renewed type for every type of another one, or at least a type of the same
kind, passes the checks that the other one passes (`checkDefinition_of_renews`). -/

namespace OperationGraph

/-! ### Types in their notation -/

namespace TypeRef

theorem baseName_ofExpr (e : TypeExpr) : (ofExpr e).baseName = e.baseName := by
  induction e with
  | named n b p => cases b <;> rfl
  | list e b p ih => cases b <;> exact ih

theorem isNonNull_ofExpr (e : TypeExpr) : (ofExpr e).isNonNull = e.nonNull := by
  cases e with
  | named n b p => cases b <;> rfl
  | list e b p => cases b <;> rfl

theorem exists_of_ofExpr_eq_named {e : TypeExpr} {n : String} {b : Bool} {p : Position}
    (h : ofExpr e = ofExpr (.named n b p)) : ∃ p', e = .named n b p' := by
  cases e with
  | named m c q => cases b <;> cases c <;> simp_all [ofExpr]
  | list e c q => cases b <;> cases c <;> simp [ofExpr] at h

theorem exists_of_ofExpr_eq_list {e f : TypeExpr} {b : Bool} {p : Position}
    (h : ofExpr e = ofExpr (.list f b p)) : ∃ f' p', e = .list f' b p' ∧ ofExpr f' = ofExpr f := by
  cases e with
  | named m c q => cases b <;> cases c <;> simp [ofExpr] at h
  | list e c q => cases b <;> cases c <;> simp_all [ofExpr]

end TypeRef

theorem baseName_eq_of_ofExpr {e e' : TypeExpr} (h : TypeRef.ofExpr e' = TypeRef.ofExpr e) :
    e'.baseName = e.baseName := by
  rw [← TypeRef.baseName_ofExpr, h, TypeRef.baseName_ofExpr]

namespace TypeSystem

theorem isCompatible_of_ofExpr {e e' f f' : TypeExpr} (he : TypeRef.ofExpr e' = TypeRef.ofExpr e)
    (hf : TypeRef.ofExpr f' = TypeRef.ofExpr f) (h : isCompatible e f = true) :
    isCompatible e' f' = true := by
  induction e generalizing e' f f' with
  | named n b p =>
    cases f with
    | named m c q =>
      obtain ⟨p', rfl⟩ := TypeRef.exists_of_ofExpr_eq_named he
      obtain ⟨q', rfl⟩ := TypeRef.exists_of_ofExpr_eq_named hf
      exact h
    | list f c q => cases h
  | list e b p ih =>
    cases f with
    | named m c q => cases h
    | list f c q =>
      obtain ⟨e₁, p', rfl, he₁⟩ := TypeRef.exists_of_ofExpr_eq_list he
      obtain ⟨f₁, q', rfl, hf₁⟩ := TypeRef.exists_of_ofExpr_eq_list hf
      rw [isCompatible, Bool.and_eq_true] at h ⊢
      exact ⟨ih he₁ hf₁ h.1, h.2⟩

/-- A type that stands in for another one does so wherever no substitute is lost. -/
theorem isCovariant_of_ofExpr {ts ts' : TypeSystem}
    (hts : ∀ name, ∀ m ∈ ts.substitutes name, m ∈ ts'.substitutes name) {e e' f f' : TypeExpr}
    (he : TypeRef.ofExpr e' = TypeRef.ofExpr e) (hf : TypeRef.ofExpr f' = TypeRef.ofExpr f)
    (h : ts.isCovariant e f = true) : ts'.isCovariant e' f' = true := by
  induction e generalizing e' f f' with
  | named n b p =>
    cases f with
    | named m c q =>
      obtain ⟨p', rfl⟩ := TypeRef.exists_of_ofExpr_eq_named he
      obtain ⟨q', rfl⟩ := TypeRef.exists_of_ofExpr_eq_named hf
      simp only [isCovariant, Bool.and_eq_true, Bool.or_eq_true, List.contains_iff_mem] at h ⊢
      exact ⟨h.1, h.2.imp_right (hts n m)⟩
    | list f c q => cases h
  | list e b p ih =>
    cases f with
    | named m c q => cases h
    | list f c q =>
      obtain ⟨e₁, p', rfl, he₁⟩ := TypeRef.exists_of_ofExpr_eq_list he
      obtain ⟨f₁, q', rfl, hf₁⟩ := TypeRef.exists_of_ofExpr_eq_list hf
      rw [isCovariant, Bool.and_eq_true] at h ⊢
      exact ⟨h.1, ih he₁ hf₁ h.2⟩

/-! ### Built-in directives -/

def builtin : TypeSystem where
  types := builtinDocument.definitions
  directives := builtinDocument.directives

/-- The built-in directives are declared as they are. -/
def KeepsDirectives (ts : TypeSystem) : Prop :=
  ∀ name decl, builtin.directive? name = some decl → ts.directive? name = some decl

/-- A use of built-in directives is right wherever these are kept, but not in their own declaration. -/
theorem checkDirectives_of_builtin {ts : TypeSystem} (hts : ts.KeepsDirectives) {location : String}
    {within : Option String} {ds : List Directive}
    (hwithin : ∀ name ∈ within, builtin.directive? name = none ∨ ds = []) (h : builtin.checkDirectives location none ds = .ok ()) :
    ts.checkDirectives location within ds = .ok () := by
  simp only [checkDirectives, checkAll_eq_ok_iff, checkDirective_eq_ok_iff] at h ⊢
  intro d hd
  obtain ⟨hname, -, decl, hdecl, hlocation, hgiven⟩ := h d hd
  refine ⟨hname, fun hself => ?_, decl, hts _ _ hdecl, hlocation, hgiven⟩
  rcases hwithin _ hself with hnone | rfl
  · rw [hnone] at hdecl
    cases hdecl
  · cases hd

end TypeSystem

/-! ### Renewed declarations -/

structure ArgumentDefinition.Renews (a a' : ArgumentDefinition) : Prop where
  name : a'.name = a.name
  type : TypeRef.ofExpr a'.type = TypeRef.ofExpr a.type
  directives : TypeSystem.builtin.checkDirectives "ARGUMENT_DEFINITION" none a'.directives = .ok ()

/-- A field with the name, the type and the arguments of another one. -/
structure FieldDefinition.Renews (f f' : FieldDefinition) : Prop where
  name : f'.name = f.name
  type : TypeRef.ofExpr f'.type = TypeRef.ofExpr f.type
  arguments : f.arguments.Forall₂ ArgumentDefinition.Renews f'.arguments
  directives : ∀ kind, TypeSystem.builtin.checkDirectives (TypeSystem.fieldLocation kind) none
    f'.directives = .ok ()

/-- A value of an enumeration with the name of another one. -/
structure EnumValueDefinition.Renews (v v' : EnumValueDefinition) : Prop where
  name : v'.name = v.name
  directives : TypeSystem.builtin.checkDirectives "ENUM_VALUE" none v'.directives = .ok ()

namespace Definition

/-- The fields that count for the kind of a type. -/
def ownFields (d : Definition) : List FieldDefinition :=
  match d.kind with
  | .object | .interface | .inputObject => d.fields
  | _ => []

def ownValues (d : Definition) : List EnumValueDefinition := if d.kind = .enum then d.values else []

theorem ownFields_eq (d : Definition) : d.ownFields = d.fields ∨ d.ownFields = [] := by
  unfold ownFields
  split <;> simp

/-- A type with the name, the kind and the parts of another one. -/
structure Renews (d d' : Definition) : Prop where
  kind : d'.kind = d.kind
  interfaces : ∀ i, i ∈ d'.interfaces ↔ i ∈ d.interfaces
  /-- Only objects and interfaces name interfaces. -/
  fielded : d.interfaces = [] ∨ d.kind = .object ∨ d.kind = .interface
  members : ∀ m ∈ d'.members, m ∈ d.members
  allMembers : d.kind = .union → ∀ m ∈ d.members, m ∈ d'.members
  fields : d.ownFields.Forall₂ FieldDefinition.Renews d'.fields
  values : d.ownValues.Forall₂ EnumValueDefinition.Renews d'.values
  directives : TypeSystem.builtin.checkDirectives d'.kind.text none d'.directives = .ok ()
  shown : d'.builtIn = false → "__".isPrefixOf d'.name = false

/-- What other types see of a type: its kind and what it stands in for, and all of an interface. -/
structure StandsFor (d d' : Definition) : Prop where
  kind : d'.kind = d.kind
  interfaces : ∀ i ∈ d.interfaces, i ∈ d'.interfaces
  members : d.kind = .union → ∀ m ∈ d.members, m ∈ d'.members
  renewed : d.kind = .interface → d.Renews d'

theorem Renews.standsFor {d d' : Definition} (h : d.Renews d') : d.StandsFor d' :=
  ⟨h.kind, fun i => (h.interfaces i).2, h.allMembers, fun _ => h⟩

theorem Renews.names_fields {d d' : Definition} (h : d.Renews d') :
    d'.fields.map FieldDefinition.name = d.ownFields.map FieldDefinition.name :=
  map_eq_of_forall₂ _ _ h.fields fun _ _ _ hf => hf.name

end Definition

namespace TypeSystem

/-- Every type of a type system has one that stands for it, and the built-in directives are kept. -/
structure Renews (ts ts' : TypeSystem) : Prop where
  distinct : (ts.types.map Definition.name).Nodup
  types : ∀ name d, ts.type? name = some d → ∃ d', ts'.type? name = some d' ∧ d.StandsFor d'
  directives : ts'.KeepsDirectives

section
variable {ts ts' : TypeSystem} (h : ts.Renews ts')
include h

/-! ### Kinds and substitutes -/

theorem Renews.exists_kind {e e' : TypeExpr} (he : TypeRef.ofExpr e' = TypeRef.ofExpr e) {d : Definition}
    (hd : ts.type? e.baseName = some d) :
    ∃ d', ts'.type? e'.baseName = some d' ∧ d'.kind = d.kind := by
  obtain ⟨d', hd', hstands⟩ := h.types _ d hd
  exact ⟨d', baseName_eq_of_ofExpr he ▸ hd', hstands.kind⟩

theorem Renews.mem_substitutes (name : String) :
    ∀ m ∈ ts.substitutes name, m ∈ ts'.substitutes name := by
  intro m hm
  obtain ⟨d, hd, hm⟩ := List.mem_flatMap.1 hm
  obtain ⟨d', hd', hstands⟩ := h.types _ d (find?_key_of_mem h.distinct hd)
  have hname : d'.name = d.name := by simpa using List.find?_some hd'
  refine List.mem_flatMap.2 ⟨d', List.mem_of_find?_eq_some hd', ?_⟩
  have hinterfaces (hi : name ∈ d.interfaces) : name ∈ d'.interfaces := hstands.interfaces name hi
  have hkind : d'.kind = d.kind := hstands.kind
  cases hk : d.kind with
  | union =>
    simp only [hkind, hname, hk] at hm ⊢
    split at hm
    · next hself =>
      rw [if_pos hself]
      exact hstands.members hk m hm
    · cases hm
  | object | inputObject =>
    simp only [hkind, hname, hk, List.contains_iff_mem] at hm ⊢
    refine List.mem_append.2 ((List.mem_append.1 hm).imp_left fun hm => ?_)
    split at hm
    · next hi => rwa [if_pos (hinterfaces hi)]
    · cases hm
  | interface =>
    simp only [hkind, hname, hk, List.contains_iff_mem] at hm ⊢
    split at hm
    · next hi => rwa [if_pos (hinterfaces hi)]
    · cases hm
  | scalar | enum | other n => simp [hk] at hm

theorem Renews.kindAllowed {allowed : Kind → Bool} {f f' : FieldDefinition} (hf : f.Renews f')
    (hd : (ts.type? f.type.baseName).isSome = true) (hallowed : ts.kindAllowed allowed f = true) :
    ts'.kindAllowed allowed f' = true := by
  obtain ⟨d, hd⟩ := Option.isSome_iff_exists.1 hd
  obtain ⟨d', hd', hkind⟩ := h.exists_kind hf.type hd
  simp only [TypeSystem.kindAllowed, hd, hd', hkind] at hallowed ⊢
  exact hallowed

/-! ### Arguments and fields -/

theorem checkArguments_of_renews {within : Option String} {args args' : List ArgumentDefinition}
    (hwithin : ∀ name ∈ within, builtin.directive? name = none ∨ ∀ a ∈ args', a.directives = [])
    (hargs : args.Forall₂ ArgumentDefinition.Renews args')
    (hok : ts.checkArguments within args = .ok ()) : ts'.checkArguments within args' = .ok () := by
  rw [checkArguments_eq_ok_iff] at hok ⊢
  intro a' ha'
  obtain ⟨a, ha, hrenews⟩ := exists_of_mem_forall₂ hargs ha'
  obtain ⟨hname, ⟨d, hd, hinput⟩, -⟩ := hok a ha
  obtain ⟨d', hd', hkind⟩ := h.exists_kind hrenews.type hd
  refine ⟨hrenews.name ▸ hname, ⟨d', hd', hkind ▸ hinput⟩, ?_⟩
  exact checkDirectives_of_builtin h.directives
    (fun name hname => (hwithin name hname).imp_right fun hnil => hnil a' ha') hrenews.directives

theorem checkFields_of_renews {d d' : Definition} (hd : d.Renews d') (hok : ts.checkFields d = .ok ()) :
    ts'.checkFields d' = .ok () := by
  rw [checkFields_eq_ok_iff] at hok ⊢
  intro f' hf'
  obtain ⟨f, hf, hrenews⟩ := exists_of_mem_forall₂ hd.fields hf'
  have hmem : f ∈ d.fields := by
    rcases d.ownFields_eq with hown | hown <;> simp_all
  obtain ⟨hname, htype, hargs, -⟩ := hok f hmem
  obtain ⟨t, ht⟩ := Option.isSome_iff_exists.1 htype
  obtain ⟨t', ht', -⟩ := h.exists_kind hrenews.type ht
  refine ⟨hrenews.name ▸ hname, by rw [ht']; rfl, ?_, ?_⟩
  · exact checkArguments_of_renews h (by simp) hrenews.arguments hargs
  · exact checkDirectives_of_builtin h.directives (by simp) (hrenews.directives _)

theorem checkMembers_of_renews {d d' : Definition} (hd : d.Renews d')
    (hok : ts.checkMembers d = .ok ()) : ts'.checkMembers d' = .ok () := by
  rw [checkMembers_eq_ok_iff] at hok ⊢
  intro m hm
  obtain ⟨t, ht, hkind⟩ := hok m (hd.members m hm)
  obtain ⟨t', ht', hstands⟩ := h.types m t ht
  exact ⟨t', ht', hstands.kind.trans hkind⟩

/-! ### Interfaces -/

/-- The arguments that a field has beyond those of an interface may be left out. -/
def extrasOptional (r f : FieldDefinition) : Bool :=
  f.arguments.all fun b => r.arguments.any (·.name = b.name) || !isRequired b

theorem checkImplementedField_of_renews {d d' i i' : Definition} {r r' : FieldDefinition}
    (hd : d.fields.Forall₂ FieldDefinition.Renews d'.fields) (hr : r.Renews r')
    (hok : ts.checkImplementedField d i r = .ok ())
    (hextra : ∀ f ∈ d'.fields.find? (·.name = r'.name), extrasOptional r' f = true) :
    ts'.checkImplementedField d' i' r' = .ok () := by
  obtain ⟨f, hf, hcovariant, hargs, -⟩ := checkImplementedField_eq_ok_iff.1 hok
  obtain ⟨f', hf', hrenews⟩ := exists_find?_of_forall₂ hd (fun _ _ h => h.name) hf
  rw [← hr.name] at hf'
  refine checkImplementedField_eq_ok_iff.2 ⟨f', hf', ?_, fun a' ha' => ?_, ?_⟩
  · exact isCovariant_of_ofExpr h.mem_substitutes hr.type hrenews.type hcovariant
  · obtain ⟨a, ha, harg⟩ := exists_of_mem_forall₂ hr.arguments ha'
    obtain ⟨b, hb, hcompatible⟩ := hargs a ha
    obtain ⟨b', hb', hrenewed⟩ := exists_find?_of_forall₂ hrenews.arguments (fun _ _ h => h.name) hb
    rw [← harg.name] at hb'
    exact ⟨b', hb', isCompatible_of_ofExpr harg.type hrenewed.type hcompatible⟩
  · exact List.all_eq_true.1 (hextra f' hf')

theorem checkImplements_of_renews {d d' : Definition} (hd : d.Renews d') {name : String}
    (hname : name ∈ d.interfaces) (hok : ts.checkImplements d name = .ok ())
    (hextra : ∀ i ∈ ts'.type? name, ∀ r ∈ i.fields, ∀ f ∈ d'.fields.find? (·.name = r.name),
      extrasOptional r f = true) : ts'.checkImplements d' name = .ok () := by
  obtain ⟨i, hi, hkind, hfields, hinterfaces⟩ := checkImplements_eq_ok_iff.1 hok
  obtain ⟨i', hi', hstands⟩ := h.types name i hi
  have hrenews : i.Renews i' := hstands.renewed hkind
  have hown : d.ownFields = d.fields := by
    rcases hd.fielded with hnone | hk | hk
    · rw [hnone] at hname
      cases hname
    · simp [Definition.ownFields, hk]
    · simp [Definition.ownFields, hk]
  refine checkImplements_eq_ok_iff.2 ⟨i', hi', hrenews.kind.trans hkind, fun r' hr' => ?_, fun j hj => ?_⟩
  · obtain ⟨r, hr, hfield⟩ := exists_of_mem_forall₂ hrenews.fields hr'
    have hmem : r ∈ i.fields := by simpa [Definition.ownFields, hkind] using hr
    exact checkImplementedField_of_renews h (hown ▸ hd.fields) hfield (hfields r hmem)
      (hextra i' hi' r' hr')
  · exact (hd.interfaces j).2 (hinterfaces j ((hrenews.interfaces j).1 hj))

/-! ### Types -/

theorem fitsKind_of_renews {d d' : Definition} (hd : d.Renews d') (hfields : ts.checkFields d = .ok ())
    (hok : ts.FitsKind d) : ts'.FitsKind d' := by
  have hfielded (allowed : Kind → Bool) (hown : d.ownFields = d.fields)
      (hfits : d.fields ≠ [] ∧ ∀ f ∈ d.fields, ts.kindAllowed allowed f = true) :
      d'.fields ≠ [] ∧ ∀ f ∈ d'.fields, ts'.kindAllowed allowed f = true := by
    have hall : d.fields.Forall₂ FieldDefinition.Renews d'.fields := hown ▸ hd.fields
    refine ⟨fun hnil => hfits.1 (List.forall₂_nil_right_iff.1 (hnil ▸ hall)), fun f' hf' => ?_⟩
    obtain ⟨f, hf, hrenews⟩ := exists_of_mem_forall₂ hall hf'
    exact h.kindAllowed hrenews (checkFields_eq_ok_iff.1 hfields f hf).2.1 (hfits.2 f hf)
  unfold FitsKind at hok ⊢
  rw [hd.kind]
  cases hk : d.kind with
  | object | interface =>
    simp only [hk] at hok
    exact hfielded Kind.isOutput (by simp [Definition.ownFields, hk]) hok
  | inputObject =>
    simp only [hk] at hok
    exact hfielded Kind.isInput (by simp [Definition.ownFields, hk]) hok
  | enum =>
    simp only [hk] at hok
    have hall : d.values.Forall₂ EnumValueDefinition.Renews d'.values := by
      simpa [Definition.ownValues, hk] using hd.values
    refine ⟨fun hnil => hok.1 (List.forall₂_nil_right_iff.1 (hnil ▸ hall)), fun v' hv' => ?_⟩
    obtain ⟨v, hv, hrenews⟩ := exists_of_mem_forall₂ hall hv'
    exact ⟨hrenews.name ▸ (hok.2 v hv).1,
      checkDirectives_of_builtin h.directives (by simp) hrenews.directives⟩
  | scalar | union | other n => trivial

/-- A type that renews another one is right if the other one is, and if what its fields take beyond those
of its interfaces may be left out. -/
theorem checkDefinition_of_renews {d d' : Definition} (hd : d.Renews d')
    (hok : ts.checkDefinition d = .ok ())
    (hextra : ∀ name ∈ d'.interfaces, ∀ i ∈ ts'.type? name, ∀ r ∈ i.fields,
      ∀ f ∈ d'.fields.find? (·.name = r.name), extrasOptional r f = true) :
    ts'.checkDefinition d' = .ok () := by
  obtain ⟨hfields, hmembers, himplements, hkind, hdistinct, -⟩ := checkDefinition_eq_ok_iff.1 hok
  refine checkDefinition_eq_ok_iff.2 ⟨checkFields_of_renews h hd hfields, checkMembers_of_renews h hd hmembers,
    fun name hname => ?_, fitsKind_of_renews h hd hfields hkind, ?_, hd.shown, ?_⟩
  · have hmem := (hd.interfaces name).1 hname
    exact checkImplements_of_renews h hd hmem (himplements name hmem) (hextra name hname)
  · rw [hd.names_fields]
    rcases d.ownFields_eq with hown | hown <;> simp [hown, hdistinct]
  · exact checkDirectives_of_builtin h.directives (by simp) hd.directives

end

end TypeSystem

end OperationGraph
