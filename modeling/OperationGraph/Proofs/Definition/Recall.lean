import OperationGraph.Proofs.Definition.Lexemes
import OperationGraph.Proofs.Schema.Loading

/-! # What is read back of a document

A document that is read from the text of another one has other places, and its literals may be of other
kinds: a number without a point is an integer, and a name may be one of the words that stand for truth
values and null (`Literal.reread`). A description is known to be the same only if it is settled. -/

namespace OperationGraph

/-! ### Literals -/

namespace Literal

def ofWord (w : String) : Literal :=
  if w = "true" then .boolean true
  else if w = "false" then .boolean false
  else if w = "null" then .null
  else .enum w

mutual

def reread : Literal → Literal
  | .int r | .float r => if Scan.numeralKind r.toList = .int then .int r else .float r
  | .string s | .block s => .string s
  | .enum n => ofWord n
  | .list items => .list (rereadItems items)
  | .object fields => .object (rereadFields fields)
  | l => l

def rereadItems : List Literal → List Literal
  | [] => []
  | l :: rest => l.reread :: rereadItems rest

def rereadFields : List (String × Literal) → List (String × Literal)
  | [] => []
  | (k, l) :: rest => (k, l.reread) :: rereadFields rest

end

theorem rereadItems_eq (items : List Literal) : rereadItems items = items.map reread := by
  induction items with
  | nil => rfl
  | cons l rest ih => rw [rereadItems, List.map_cons, ih]

theorem rereadFields_eq (fields : List (String × Literal)) :
    rereadFields fields = fields.map fun f => (f.1, f.2.reread) := by
  induction fields with
  | nil => rfl
  | cons f rest ih => rw [rereadFields, List.map_cons, ih]

end Literal

/-! ### Parts of declarations -/

/-- An argument that is read where another one was written. -/
structure Argument.Recalls (a a' : Argument) : Prop where
  name : a'.name = a.name
  value : a'.value = a.value.reread

/-- A directive that is read where another one was written. -/
structure Directive.Recalls (d d' : Directive) : Prop where
  name : d'.name = d.name
  arguments : d.arguments.Forall₂ Argument.Recalls d'.arguments

/-- A description that is read where another one was written. -/
def RecallsDescription (s s' : String) : Prop := isSettledDescription s = true → s' = s

/-- An argument that is taken, read where another one was written. -/
structure ArgumentDefinition.Recalls (a a' : ArgumentDefinition) : Prop where
  name : a'.name = a.name
  description : RecallsDescription a.description a'.description
  type : TypeRef.ofExpr a'.type = TypeRef.ofExpr a.type
  default : a'.default = a.default.map Literal.reread
  directives : a.directives.Forall₂ Directive.Recalls a'.directives

/-- A field that is read where another one was written. -/
structure FieldDefinition.Recalls (f f' : FieldDefinition) : Prop where
  name : f'.name = f.name
  description : RecallsDescription f.description f'.description
  arguments : f.arguments.Forall₂ ArgumentDefinition.Recalls f'.arguments
  type : TypeRef.ofExpr f'.type = TypeRef.ofExpr f.type
  default : f'.default = f.default.map Literal.reread
  directives : f.directives.Forall₂ Directive.Recalls f'.directives

/-- A value of an enumeration that is read where another one was written. -/
structure EnumValueDefinition.Recalls (v v' : EnumValueDefinition) : Prop where
  name : v'.name = v.name
  description : RecallsDescription v.description v'.description
  directives : v.directives.Forall₂ Directive.Recalls v'.directives

/-! ### Declarations -/

/-- A named type that is read where another one was written; it has only the fields that were shown. -/
structure Definition.Recalls (d d' : Definition) : Prop where
  kind : d'.kind = d.kind
  name : d'.name = d.name
  description : RecallsDescription d.description d'.description
  interfaces : d'.interfaces = d.interfaces
  directives : d.directives.Forall₂ Directive.Recalls d'.directives
  members : d'.members = d.members
  fields : d.shownFields.Forall₂ FieldDefinition.Recalls d'.fields
  values : d.values.Forall₂ EnumValueDefinition.Recalls d'.values
  builtIn : d'.builtIn = false

/-- A declared directive that is read where another one was written. -/
structure DirectiveDefinition.Recalls (d d' : DirectiveDefinition) : Prop where
  name : d'.name = d.name
  description : RecallsDescription d.description d'.description
  arguments : d.arguments.Forall₂ ArgumentDefinition.Recalls d'.arguments
  locations : d'.locations = d.locations
  repeatable : d'.repeatable = d.repeatable
  builtIn : d'.builtIn = false

/-- A declaration of root types that is read where another one was written. -/
structure SchemaDefinition.Recalls (s s' : SchemaDefinition) : Prop where
  directives : s'.directives = []
  outline : s'.outline = s.outline

/-- A document that is read where another one was written. -/
structure TypeSystemDocument.Recalls (doc doc' : TypeSystemDocument) : Prop where
  schemas : doc.schemas.Forall₂ SchemaDefinition.Recalls doc'.schemas
  schemaExtensions : doc'.schemaExtensions = []
  directives : doc.directives.Forall₂ DirectiveDefinition.Recalls doc'.directives
  definitions : doc.definitions.Forall₂ Definition.Recalls doc'.definitions
  extensions : doc'.extensions = []

/-- Elements that are read where others were written agree on what reading keeps. -/
theorem map_eq_of_forall₂ {α β γ : Type} {R : α → β → Prop} {as : List α} {bs : List β} (f : α → γ)
    (g : β → γ) (h : as.Forall₂ R bs) (hR : ∀ a ∈ as, ∀ b, R a b → g b = f a) : bs.map g = as.map f := by
  induction h with
  | nil => rfl
  | @cons a b _ _ hab _ ih =>
    rw [List.map_cons, List.map_cons, hR a List.mem_cons_self b hab,
      ih fun a ha => hR a (List.mem_cons_of_mem _ ha)]

theorem exists_of_mem_forall₂ {α β : Type} {R : α → β → Prop} {as : List α} {bs : List β}
    (h : as.Forall₂ R bs) {b : β} (hb : b ∈ bs) : ∃ a ∈ as, R a b := by
  induction h with
  | nil => cases hb
  | cons hab _ ih =>
    rcases List.mem_cons.1 hb with rfl | hb
    · exact ⟨_, List.mem_cons_self, hab⟩
    · obtain ⟨a, ha, hR⟩ := ih hb
      exact ⟨a, List.mem_cons_of_mem _ ha, hR⟩

/-- What is found by name among elements is found in another shape among those that are read for them. -/
theorem rel_find?_of_forall₂ {α β : Type} {R : α → β → Prop} {as : List α} {bs : List β} {key : α → String}
    {key' : β → String} (h : as.Forall₂ R bs) (hkey : ∀ a b, R a b → key' b = key a) (name : String) :
    Option.Rel R (as.find? fun a => key a = name) (bs.find? fun b => key' b = name) := by
  induction h with
  | nil => exact .none
  | @cons a b _ _ hab _ ih =>
    by_cases hname : key a = name
    · have hname' : key' b = name := (hkey a b hab).trans hname
      simpa [hname, hname'] using Option.Rel.some hab
    · have hname' : key' b ≠ name := hkey a b hab ▸ hname
      simpa [hname, hname'] using ih

theorem exists_of_rel_some {α β : Type} {R : α → β → Prop} {a : α} {b? : Option β} (h : Option.Rel R (some a) b?) :
    ∃ b, b? = some b ∧ R a b := by
  cases h with
  | some hab => exact ⟨_, rfl, hab⟩

theorem exists_of_rel_some_right {α β : Type} {R : α → β → Prop} {a? : Option α} {b : β}
    (h : Option.Rel R a? (some b)) : ∃ a, a? = some a ∧ R a b := by
  cases h with
  | some hab => exact ⟨_, rfl, hab⟩

theorem exists_find?_of_forall₂ {α β : Type} {R : α → β → Prop} {as : List α} {bs : List β}
    {key : α → String} {key' : β → String} (h : as.Forall₂ R bs) (hkey : ∀ a b, R a b → key' b = key a)
    {name : String} {a : α} (ha : as.find? (fun a => key a = name) = some a) :
    ∃ b, bs.find? (fun b => key' b = name) = some b ∧ R a b := by
  have hrel := rel_find?_of_forall₂ h hkey name
  rw [ha] at hrel
  exact exists_of_rel_some hrel

/-- Options that are related agree on what the relation keeps. -/
theorem map_eq_of_rel {α β γ : Type} {R : α → β → Prop} {a? : Option α} {b? : Option β} (f : α → γ) (g : β → γ)
    (h : Option.Rel R a? b?) (hR : ∀ a ∈ a?, ∀ b, R a b → g b = f a) : b?.map g = a?.map f := by
  cases h with
  | none => rfl
  | some hab => exact congrArg some (hR _ rfl _ hab)

theorem TypeSystemDocument.Recalls.outline_eq {doc doc' : TypeSystemDocument} (h : doc.Recalls doc')
    (hextensions : doc.extensions = []) (hschemas : doc.schemaExtensions = []) :
    doc'.outline = doc.outline := by
  simp only [outline, h.schemaExtensions, h.extensions, hextensions, hschemas,
    map_eq_of_forall₂ _ _ h.schemas fun _ _ _ hs => hs.outline,
    map_eq_of_forall₂ _ _ h.definitions fun _ _ _ hd => hd.name]

end OperationGraph
