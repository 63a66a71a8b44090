import OperationGraph.Proofs.Definition.Lexemes

/-! # Documents that are spelled alike

Only the notation of a literal is written, and fields of reserved names are not written at all. So a document
has the text of its spelled form, in which every default is a name with the notation of the default and only
the fields that are shown are left (`TypeSystemDocument.text_spelled`). -/

namespace OperationGraph

/-! ### Spelled forms -/

def Literal.spelled (l : Literal) : Literal := .enum l.notationText

def ArgumentDefinition.spelled (a : ArgumentDefinition) : ArgumentDefinition :=
  { a with default := a.default.map Literal.spelled }

def FieldDefinition.spelled (f : FieldDefinition) : FieldDefinition :=
  { f with
    arguments := f.arguments.map ArgumentDefinition.spelled
    default := f.default.map Literal.spelled }

/-- A named type with the fields that are shown, spelled. -/
def Definition.spelled (d : Definition) : Definition :=
  { d with fields := d.shownFields.map FieldDefinition.spelled }

def DirectiveDefinition.spelled (d : DirectiveDefinition) : DirectiveDefinition :=
  { d with arguments := d.arguments.map ArgumentDefinition.spelled }

def TypeSystemDocument.spelled (doc : TypeSystemDocument) : TypeSystemDocument :=
  { doc with
    directives := doc.directives.map DirectiveDefinition.spelled
    definitions := doc.definitions.map Definition.spelled }

/-! ### Their pages -/

namespace Page

theorem eachBetween_map {α β : Type} (write between : β → Page → Page) (f : α → β) (xs : List α) (p : Page) :
    eachBetween write between (xs.map f) p =
      eachBetween (fun a => write (f a)) (fun a => between (f a)) xs p := by
  fun_induction eachBetween (fun a => write (f a)) (fun a => between (f a)) xs p with
  | case1 p => rfl
  | case2 a p => rfl
  | case3 a rest p hne ih =>
    obtain ⟨b, rest, rfl⟩ := List.exists_cons_of_ne_nil hne
    exact ih

theorem defaultValue_spelled (v : Option Literal) :
    defaultValue (v.map Literal.spelled) = defaultValue v := by
  funext p
  cases v <;> rfl

theorem argument_spelled (a : ArgumentDefinition) : argument a.spelled = argument a := by
  funext p
  simp only [argument, ArgumentDefinition.spelled, defaultValue_spelled]
  rfl

theorem arguments_spelled (args : List ArgumentDefinition) :
    arguments (args.map ArgumentDefinition.spelled) = arguments args := by
  funext p
  simp only [arguments, List.isEmpty_map, eachBetween_map, argument_spelled]
  rfl

theorem field_spelled (f : FieldDefinition) : field f.spelled = field f := by
  funext p
  simp only [field, FieldDefinition.spelled, arguments_spelled, defaultValue_spelled]

/-- Fields that are not shown leave the page as it is. -/
theorem each_field_shown (fs : List FieldDefinition) (p : Page) :
    each field (fs.filter FieldDefinition.isShown) p = each field fs p := by
  induction fs generalizing p with
  | nil => rfl
  | cons f rest ih =>
    by_cases hshown : f.isShown = true
    · rw [List.filter_cons_of_pos hshown]
      exact ih (field f p)
    · have hsame : field f p = p := if_pos (by simpa [FieldDefinition.isShown] using hshown)
      rw [List.filter_cons_of_neg hshown, ih]
      exact congrArg (each field rest) hsame.symm

theorem each_field_spelled (fs : List FieldDefinition) (p : Page) :
    each field (fs.map FieldDefinition.spelled) p = each field fs p := by
  simp only [each, List.foldl_map, field_spelled]

theorem definition_spelled {d : Definition} (h : d.fields ≠ [] → d.shownFields ≠ []) :
    definition d.spelled = definition d := by
  have hempty : d.spelled.fields.isEmpty = d.fields.isEmpty := by
    by_cases hnil : d.fields = []
    · simp [Definition.spelled, Definition.shownFields, hnil]
    · rw [Definition.spelled, List.isEmpty_map, List.isEmpty_eq_false_iff.2 (h hnil),
        List.isEmpty_eq_false_iff.2 hnil]
  have hfields (p : Page) : each field d.spelled.fields p = each field d.fields p :=
    (each_field_spelled _ p).trans (each_field_shown d.fields p)
  have hblock (p : Page) : block field d.spelled.fields p = block field d.fields p := by
    simp only [block, hempty, hfields]
  funext p
  simp only [definition, hblock]
  rfl

theorem directiveDefinition_spelled (d : DirectiveDefinition) :
    directiveDefinition d.spelled = directiveDefinition d := by
  funext p
  simp only [directiveDefinition, DirectiveDefinition.spelled, List.isEmpty_map, arguments_spelled]

end Page

/-- A document is written as its spelled form, unless a type has only fields that are not shown. -/
theorem TypeSystemDocument.text_spelled {doc : TypeSystemDocument}
    (h : ∀ d ∈ doc.definitions, d.fields ≠ [] → d.shownFields ≠ []) : doc.spelled.text = doc.text := by
  have hdirectives (p : Page) :
      p.each Page.directiveDefinition doc.spelled.directives = p.each Page.directiveDefinition doc.directives := by
    simp only [spelled, Page.each, List.foldl_map, Page.directiveDefinition_spelled]
  have hdefinitions (p : Page) :
      p.each Page.definition doc.spelled.definitions = p.each Page.definition doc.definitions := by
    simp only [spelled, Page.each, List.foldl_map]
    refine List.foldl_ext _ _ p fun q d hd => ?_
    rw [Page.definition_spelled (h d hd)]
  simp only [text, hdirectives, hdefinitions]
  rfl

end OperationGraph
