import OperationGraph.Definition.Printer
import OperationGraph.Proofs.Token.Settled

/-! # The lexemes of type-system documents

Every part of a document has its lexemes, in the order in which it is written and read. A part is legible
if its texts do not leave their place: names are names, numbers are numbers, quoted texts can be read back
and descriptions stay inside their quotes. -/

namespace OperationGraph

def Kind.isKnown : Kind → Bool
  | .other _ => false
  | _ => true

/-! ### Values and types -/

def Scan.isNameText (s : String) : Bool := Scan.isName s.toList

def bangLexemes (nonNull : Bool) : List Lexeme := if nonNull then [.sign .bang] else []

namespace TypeExpr

def lexemes : TypeExpr → List Lexeme
  | named n b _ => .word n :: bangLexemes b
  | list e b _ => .sign .bracketL :: (e.lexemes ++ .sign .bracketR :: bangLexemes b)

def isLegible : TypeExpr → Bool
  | named n _ _ => Scan.isNameText n
  | list e _ _ => e.isLegible

end TypeExpr

namespace Literal

mutual

def lexemes : Literal → List Lexeme
  | .variable n => [.sign .dollar, .word n]
  | .int r | .float r => [⟨Scan.numeralKind r.toList, r⟩]
  | .string s | .block s => [⟨.string, s⟩]
  | .boolean b => [.word (if b then "true" else "false")]
  | .null => [.word "null"]
  | .enum n => [.word n]
  | .list items => .sign .bracketL :: (itemLexemes items ++ [.sign .bracketR])
  | .object fields => .sign .braceL :: (fieldLexemes fields ++ [.sign .braceR])

def itemLexemes : List Literal → List Lexeme
  | [] => []
  | l :: rest => l.lexemes ++ itemLexemes rest

def fieldLexemes : List (String × Literal) → List Lexeme
  | [] => []
  | (k, l) :: rest => .word k :: .sign .colon :: (l.lexemes ++ fieldLexemes rest)

end

mutual

def isLegible : Literal → Bool
  | .variable _ => false
  | .int r | .float r => Scan.isNumeral r.toList
  | .string s | .block s => s.toList.all Scan.isQuotable
  | .boolean _ | .null => true
  | .enum n => Scan.isNameText n
  | .list items => itemsLegible items
  | .object fields => fieldsLegible fields

def itemsLegible : List Literal → Bool
  | [] => true
  | l :: rest => l.isLegible && itemsLegible rest

def fieldsLegible : List (String × Literal) → Bool
  | [] => true
  | (k, l) :: rest => Scan.isNameText k && l.isLegible && fieldsLegible rest

end

theorem itemLexemes_eq (items : List Literal) : itemLexemes items = items.flatMap lexemes := by
  induction items with
  | nil => rfl
  | cons l rest ih => rw [itemLexemes, List.flatMap_cons, ih]

theorem fieldLexemes_eq (fields : List (String × Literal)) :
    fieldLexemes fields = fields.flatMap fun f => .word f.1 :: .sign .colon :: f.2.lexemes := by
  induction fields with
  | nil => rfl
  | cons f rest ih => simp [fieldLexemes, ih]

theorem itemsLegible_iff {items : List Literal} :
    itemsLegible items = true ↔ ∀ l ∈ items, l.isLegible = true := by
  induction items with
  | nil => simp [itemsLegible]
  | cons l rest ih => simp [itemsLegible, ih]

theorem fieldsLegible_iff {fields : List (String × Literal)} :
    fieldsLegible fields = true ↔
      ∀ f ∈ fields, Scan.isNameText f.1 = true ∧ f.2.isLegible = true := by
  induction fields with
  | nil => simp [fieldsLegible]
  | cons f rest ih => simp [fieldsLegible, ih, and_assoc]

theorem itemTexts_eq (items : List Literal) : itemTexts items = items.map notationText := by
  induction items with
  | nil => rfl
  | cons l rest ih => rw [itemTexts, List.map_cons, ih]

theorem fieldTexts_eq (fields : List (String × Literal)) :
    fieldTexts fields = fields.map fun f => f.1 ++ ":" ++ f.2.notationText := by
  induction fields with
  | nil => rfl
  | cons f rest ih => simp [fieldTexts, ih]

/-- Induction on literals: what holds of all items or fields holds of the list or object. -/
theorem induction_on {motive : Literal → Prop} (l : Literal)
    (atom : ∀ l, (∀ items, l ≠ .list items) → (∀ fields, l ≠ .object fields) → motive l)
    (list : ∀ items, (∀ l ∈ items, motive l) → motive (.list items))
    (object : ∀ fields, (∀ f ∈ fields, motive f.2) → motive (.object fields)) : motive l := by
  refine (Literal.notationText.mutual_induct motive (fun fields => ∀ f ∈ fields, motive f.2)
    (fun items => ∀ l ∈ items, motive l) ?_ ?_ ?_ ?_ ?_ ?_ ?_ ?_ ?_ list object ?_ ?_ ?_ ?_).1 l
  case refine_10 => simp
  case refine_12 => simp
  case refine_11 => simp +contextual
  case refine_13 => simp +contextual
  all_goals intros; exact atom _ nofun nofun

end Literal

/-! ### Groups -/

/-- The lexemes of parts between two signs; nothing if there are none. -/
def enclosed (openKind close : TokenKind) (parts : List (List Lexeme)) : List Lexeme :=
  if parts.isEmpty then [] else .sign openKind :: (parts.flatten ++ [.sign close])

def joined (separator : List Lexeme) : List (List Lexeme) → List Lexeme
  | [] => []
  | l :: rest => l ++ rest.flatMap (separator ++ ·)

theorem enclosed_map {α : Type} {f : α → List Lexeme} {xs : List α} (hne : xs ≠ [])
    (openKind close : TokenKind) :
    enclosed openKind close (xs.map f) = .sign openKind :: (xs.flatMap f ++ [.sign close]) := by
  simp [enclosed, hne, List.flatMap_def]

theorem joined_nil {α : Type} (f : α → List Lexeme) (xs : List α) :
    joined [] (xs.map f) = xs.flatMap f := by
  cases xs with
  | nil => rfl
  | cons a rest => simp [joined, List.flatMap_map]

/-- Whether a description is read back as it is written. -/
def isSettledDescription (s : String) : Bool :=
  s = "" || BlockText.isSettled (Text.splitAt '\n' s.toList)

/-- A description, unless it is empty; one that is not settled leaves its value open. -/
def descriptionLexemes (s : String) : List Lexeme :=
  if s = "" then [] else [⟨.blockString, if isSettledDescription s then s else ""⟩]

def isLegibleDescription (s : String) : Bool :=
  (Text.split '\n' s).all fun line => Scan.staysInside line.toList

def defaultLexemes : Option Literal → List Lexeme
  | some l => .sign .equals :: l.lexemes
  | none => []

/-! ### Directives and fields -/

namespace Argument

def lexemes (a : Argument) : List Lexeme := .word a.name :: .sign .colon :: a.value.lexemes

def isLegible (a : Argument) : Bool := Scan.isNameText a.name && a.value.isLegible

end Argument

namespace Directive

def lexemes (d : Directive) : List Lexeme :=
  .word d.name :: enclosed .parenL .parenR (d.arguments.map Argument.lexemes)

def listLexemes (ds : List Directive) : List Lexeme := ds.flatMap fun d => .sign .at_ :: d.lexemes

def isLegible (d : Directive) : Bool := Scan.isNameText d.name && d.arguments.all Argument.isLegible

end Directive

namespace ArgumentDefinition

def lexemes (a : ArgumentDefinition) : List Lexeme :=
  descriptionLexemes a.description ++ .word a.name :: .sign .colon ::
    (a.type.lexemes ++ (defaultLexemes a.default ++ Directive.listLexemes a.directives))

def isLegible (a : ArgumentDefinition) : Bool :=
  isLegibleDescription a.description && Scan.isNameText a.name && a.type.isLegible
    && a.default.all Literal.isLegible && a.directives.all Directive.isLegible

end ArgumentDefinition

namespace FieldDefinition

def lexemes (f : FieldDefinition) : List Lexeme :=
  descriptionLexemes f.description ++ .word f.name ::
    (enclosed .parenL .parenR (f.arguments.map ArgumentDefinition.lexemes) ++ .sign .colon ::
      (f.type.lexemes ++ (defaultLexemes f.default ++ Directive.listLexemes f.directives)))

def isLegible (f : FieldDefinition) : Bool :=
  isLegibleDescription f.description && Scan.isNameText f.name
    && f.arguments.all ArgumentDefinition.isLegible && f.type.isLegible
    && f.default.all Literal.isLegible && f.directives.all Directive.isLegible

def isShown (f : FieldDefinition) : Bool := !"__".isPrefixOf f.name

end FieldDefinition

namespace EnumValueDefinition

def lexemes (v : EnumValueDefinition) : List Lexeme :=
  descriptionLexemes v.description ++ .word v.name :: Directive.listLexemes v.directives

def isLegible (v : EnumValueDefinition) : Bool :=
  isLegibleDescription v.description && Scan.isNameText v.name && v.directives.all Directive.isLegible

end EnumValueDefinition

/-! ### Declarations -/

/-- Names with a sign between them, after a lexeme; nothing if there are none. -/
def listing (lead : Lexeme) (separator : TokenKind) (names : List String) : List Lexeme :=
  if names.isEmpty then [] else lead :: joined [.sign separator] (names.map fun n => [.word n])

namespace Definition

def shownFields (d : Definition) : List FieldDefinition := d.fields.filter FieldDefinition.isShown

def lexemes (d : Definition) : List Lexeme :=
  descriptionLexemes d.description ++ .word ((Page.keyword? d.kind).getD "") :: .word d.name ::
    (listing (.word "implements") .amp d.interfaces ++
    (Directive.listLexemes d.directives ++
    (listing (.sign .equals) .pipe d.members ++
    (enclosed .braceL .braceR (d.shownFields.map FieldDefinition.lexemes) ++
      enclosed .braceL .braceR (d.values.map EnumValueDefinition.lexemes)))))

/-- Whether a type has only the parts that are written for its kind; an object or an interface has a
field that is written out. -/
def fitsKind (d : Definition) : Bool :=
  match d.kind with
  | .scalar => d.interfaces.isEmpty && d.members.isEmpty && d.fields.isEmpty && d.values.isEmpty
  | .object | .interface =>
    d.members.isEmpty && d.values.isEmpty && !d.shownFields.isEmpty
      && d.fields.all fun f => f.default.isNone
  | .union => d.interfaces.isEmpty && d.fields.isEmpty && d.values.isEmpty
  | .enum => d.interfaces.isEmpty && d.members.isEmpty && d.fields.isEmpty
  | .inputObject =>
    d.interfaces.isEmpty && d.members.isEmpty && d.values.isEmpty
      && (d.fields.isEmpty || !d.shownFields.isEmpty) && d.fields.all fun f => f.arguments.isEmpty
  | .other _ => false

theorem shownFields_ne_nil (d : Definition) (h : d.fitsKind = true) (hne : d.fields ≠ []) :
    d.shownFields ≠ [] := by
  unfold fitsKind at h
  cases hkind : d.kind <;> simp_all

theorem exists_keyword (d : Definition) (h : d.fitsKind = true) :
    ∃ w, Page.keyword? d.kind = some w := by
  unfold fitsKind at h
  cases hkind : d.kind <;> simp_all [Page.keyword?]

def isLegible (d : Definition) : Bool :=
  d.fitsKind && isLegibleDescription d.description && Scan.isNameText d.name
    && d.interfaces.all Scan.isNameText && d.directives.all Directive.isLegible
    && d.members.all Scan.isNameText && d.fields.all FieldDefinition.isLegible
    && d.values.all EnumValueDefinition.isLegible

end Definition

namespace DirectiveDefinition

def lexemes (d : DirectiveDefinition) : List Lexeme :=
  descriptionLexemes d.description ++ .word "directive" :: .sign .at_ :: .word d.name ::
    (enclosed .parenL .parenR (d.arguments.map ArgumentDefinition.lexemes) ++
    ((if d.repeatable then [.word "repeatable"] else []) ++
      listing (.word "on") .pipe d.locations))

def isLegible (d : DirectiveDefinition) : Bool :=
  isLegibleDescription d.description && Scan.isNameText d.name
    && d.arguments.all ArgumentDefinition.isLegible && !d.locations.isEmpty
    && d.locations.all directiveLocations.contains

end DirectiveDefinition

namespace SchemaDefinition

def lexemes (s : SchemaDefinition) : List Lexeme :=
  .word "schema" :: enclosed .braceL .braceR
    (s.roots.map fun r => [.word r.operation.text, .sign .colon, .word r.type])

def isLegible (s : SchemaDefinition) : Bool :=
  !s.roots.isEmpty && s.roots.all fun r => Scan.isNameText r.type

end SchemaDefinition

namespace TypeSystemDocument

def lexemes (doc : TypeSystemDocument) : List Lexeme :=
  doc.schemas.flatMap SchemaDefinition.lexemes ++
    (doc.directives.flatMap DirectiveDefinition.lexemes ++ doc.definitions.flatMap Definition.lexemes)

def isLegible (doc : TypeSystemDocument) : Bool :=
  doc.schemas.all SchemaDefinition.isLegible && doc.directives.all DirectiveDefinition.isLegible
    && doc.definitions.all Definition.isLegible

end TypeSystemDocument

end OperationGraph
