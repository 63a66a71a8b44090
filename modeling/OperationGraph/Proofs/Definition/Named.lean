import OperationGraph.Definition.Parser
import OperationGraph.Definition.Prelude
import OperationGraph.Proofs.Definition.Lexemes
import OperationGraph.Proofs.Success

/-! # Names in documents

The names in a document that is read from a text are names: they begin with a letter or an underscore
and go on with letters, digits and underscores. Its types are of the six kinds that have a word of
their own, only objects and interfaces name interfaces, and no type is marked as built in. -/

namespace OperationGraph

/-! ### Tokens -/

/-- A token whose value is a name if it is of that kind. -/
def Token.IsNamed (t : Token) : Prop := t.kind = .name → Scan.isNameText t.value = true

namespace Scan

/-- A step of the scan that gives no name but a real one. -/
def Step.IsNamed : Step → Prop
  | .token t _ _ => t.IsNamed
  | .comment _ _ => True
  | .last t => t.IsNamed

theorem isNamed_invalid (source : String) (fault : LexicalFault) (cur : Cursor) :
    (invalid source fault cur).IsNamed := nofun

theorem isNamed_plainStep (source : String) (cur : Cursor) (c : Char) (rest : List Char) :
    (plainStep source cur c rest).IsNamed := by
  unfold plainStep
  split
  · next hstart =>
    intro _
    simp [isNameText, isName, hstart, List.all_takeWhile]
  · split
    · split
      · next isFloat _ _ _ _ =>
        intro hname
        cases isFloat <;> cases hname
      · exact isNamed_invalid _ _ _
    · repeat' split
      all_goals exact isNamed_invalid _ _ _

theorem isNamed_step (source : String) (cur : Cursor) (cs : List Char) :
    (step source cur cs).IsNamed := by
  unfold step
  split
  · exact nofun
  · exact nofun
  · split
    · exact nofun
    · exact isNamed_invalid _ _ _
  · split
    · exact nofun
    · exact isNamed_invalid _ _ _
  · split
    · next c rest _ _ _ kind hkind =>
      intro hname
      unfold TokenKind.ofPunctuation? at hkind
      split at hkind
      all_goals cases hkind
      all_goals cases hname
    · split
      · trivial
      · exact isNamed_plainStep _ _ _ _

theorem isNamed_of_mem_run {source : String} {fuel : Nat} {cur : Cursor} {cs : List Char} {t : Token}
    (h : t ∈ run source fuel cur cs) : t.IsNamed := by
  induction fuel generalizing cur cs with
  | zero =>
    rw [List.mem_singleton.1 h]
    exact nofun
  | succ fuel ih =>
    have hstep := isNamed_step source (skipBlanks cur cs).1 (skipBlanks cur cs).2
    rw [run] at h
    cases hs : step source (skipBlanks cur cs).1 (skipBlanks cur cs).2 with
    | token t' cur' rest =>
      simp only [hs] at h hstep
      rcases List.mem_cons.1 h with rfl | h
      · exact hstep
      · exact ih h
    | comment cur' rest =>
      simp only [hs] at h
      exact ih h
    | last t' =>
      simp only [hs] at h hstep
      exact List.mem_singleton.1 h ▸ hstep

end Scan

namespace Reader

/-! ### Readers -/

/-- What a reader gives whenever it succeeds on tokens whose names are names, as are those it leaves. -/
def Yields {α : Type} (x : Reader α) (P : α → Prop) : Prop :=
  ∀ ts a rest, (∀ t ∈ ts, t.IsNamed) → x ts = .ok (a, rest) → (∀ t ∈ rest, t.IsNamed) ∧ P a

section
variable {α β : Type} {x : Reader α} {f : α → Reader β} {P : β → Prop} {Q : α → Prop}

theorem yields_pure {b : β} (h : P b) : (pure b : Reader β).Yields P := by
  intro ts c rest hts hc
  cases hc
  exact ⟨hts, h⟩

theorem Yields.bind (hx : x.Yields Q) (h : ∀ a, Q a → (f a).Yields P) : (x >>= f).Yields P := by
  intro ts b rest hts hb
  obtain ⟨a, mid, ha, hb⟩ := exists_of_bind_eq_ok hb
  obtain ⟨hmid, hQ⟩ := hx ts a mid hts ha
  exact h a hQ mid b rest hmid hb

theorem Yields.mono (hx : x.Yields Q) {R : α → Prop} (h : ∀ a, Q a → R a) : x.Yields R :=
  fun ts a rest hts ha => ⟨(hx ts a rest hts ha).1, h a (hx ts a rest hts ha).2⟩

theorem yields_fail (t : Token) (fault : SyntaxFault) : (fail t fault : Reader β).Yields P := by
  intro ts c rest _ hc
  cases hc

theorem yields_peek : peek.Yields Token.IsNamed := by
  intro ts t rest hts ht
  cases ts with
  | nil =>
    cases ht
    exact ⟨hts, nofun⟩
  | cons t' ts =>
    cases ht
    exact ⟨hts, hts _ List.mem_cons_self⟩

theorem yields_unexpected : (unexpected : Reader β).Yields P :=
  yields_peek.bind fun t _ => yields_fail t _

theorem yields_skipOne : skipOne.Yields fun _ => True := by
  intro ts u rest hts hu
  cases hu
  exact ⟨fun t ht => hts t (List.mem_of_mem_tail ht), trivial⟩

theorem yields_bound : bound.Yields fun _ => True := by
  intro ts n rest hts hn
  cases hn
  exact ⟨hts, trivial⟩

end

theorem yields_skip (kind : TokenKind) : (skip kind).Yields fun _ => True := by
  refine yields_peek.bind fun t _ => ?_
  split
  · exact yields_skipOne.bind fun _ _ => yields_pure trivial
  · exact yields_pure trivial

theorem yields_expect (kind : TokenKind) : (expect kind).Yields fun t => t.kind = kind ∧ t.IsNamed := by
  refine yields_peek.bind fun t ht => ?_
  split
  · next hkind => exact yields_skipOne.bind fun _ _ => yields_pure ⟨hkind, ht⟩
  · exact yields_fail _ _

theorem yields_name : name.Yields fun n => Scan.isNameText n = true :=
  (yields_expect .name).bind fun _ ht => yields_pure (ht.2 ht.1)

theorem yields_variableName : variableName.Yields fun n => Scan.isNameText n = true :=
  (yields_expect .dollar).bind fun _ _ => yields_name

theorem yields_expectWord (w : String) : (expectWord w).Yields fun _ => True := by
  refine yields_peek.bind fun t _ => ?_
  split
  · exact yields_skipOne
  · exact yields_fail _ _

section
variable {α : Type} {item : Reader α} {P : α → Prop}

theorem yields_itemsUntil (h : item.Yields P) (close : TokenKind) (fuel : Nat) :
    (itemsUntil close item fuel).Yields fun as => ∀ a ∈ as, P a := by
  induction fuel with
  | zero => exact yields_unexpected
  | succ fuel ih =>
    refine (yields_skip close).bind fun done _ => ?_
    split
    · exact yields_pure (by simp)
    · refine h.bind fun a ha => ih.bind fun as has => yields_pure ?_
      simpa using ⟨ha, has⟩

theorem yields_many (h : item.Yields P) (openKind close : TokenKind) :
    (many openKind close item).Yields fun as => ∀ a ∈ as, P a := by
  refine (yields_skip openKind).bind fun found _ => ?_
  split
  · exact yields_bound.bind fun n _ => yields_itemsUntil h close n
  · exact yields_pure (by simp)

theorem yields_some (h : item.Yields P) (openKind close : TokenKind) :
    (some openKind close item).Yields fun as => ∀ a ∈ as, P a := by
  refine (yields_skip openKind).bind fun found _ => ?_
  split
  · refine yields_peek.bind fun t _ => ?_
    split
    · exact yields_fail _ _
    · exact yields_bound.bind fun n _ => yields_itemsUntil h close n
  · exact yields_pure (by simp)

theorem yields_each (h : item.Yields P) (lead : TokenKind) (fuel : Nat) :
    (each lead item fuel).Yields fun as => ∀ a ∈ as, P a := by
  induction fuel with
  | zero => exact yields_pure (by simp)
  | succ fuel ih =>
    refine (yields_skip lead).bind fun found _ => ?_
    split
    · refine h.bind fun a ha => ih.bind fun as has => yields_pure ?_
      simpa using ⟨ha, has⟩
    · exact yields_pure (by simp)

/-- At least one item is read. -/
theorem yields_separated (h : item.Yields P) (separator : TokenKind) :
    (separated separator item).Yields fun as => as ≠ [] ∧ ∀ a ∈ as, P a := by
  refine (yields_skip separator).bind fun _ _ => h.bind fun a ha => yields_bound.bind fun n _ => ?_
  refine (yields_each h separator n).bind fun as has => yields_pure ⟨List.cons_ne_nil a as, ?_⟩
  simpa using ⟨ha, has⟩

end

theorem yields_typeAt (fuel : Nat) : (typeAt fuel).Yields fun t => t.isLegible = true := by
  induction fuel with
  | zero => exact yields_unexpected
  | succ fuel ih =>
    refine (yields_skip .bracketL).bind fun found _ => ?_
    split
    · refine yields_peek.bind fun _ _ => ih.bind fun e he => (yields_expect _).bind fun _ _ => ?_
      exact (yields_skip .bang).bind fun b _ => yields_pure he
    · refine yields_peek.bind fun _ _ => yields_name.bind fun n hn => ?_
      exact (yields_skip .bang).bind fun b _ => yields_pure hn

theorem yields_type : type.Yields fun t => t.isLegible = true :=
  yields_bound.bind fun n _ => yields_typeAt n

theorem yields_valueAt (constant : Bool) (fuel : Nat) :
    (valueAt constant fuel).Yields fun _ => True := by
  induction fuel with
  | zero => exact yields_unexpected
  | succ fuel ih =>
    refine yields_peek.bind fun t _ => ?_
    split
    · exact (yields_many ih _ _).bind fun _ _ => yields_pure trivial
    · refine (yields_many (P := fun _ => True) ?_ _ _).bind fun _ _ => yields_pure trivial
      exact yields_name.bind fun _ _ => (yields_expect _).bind fun _ _ => ih.bind fun _ _ =>
        yields_pure trivial
    · split
      · exact yields_unexpected
      · exact yields_variableName.bind fun _ _ => yields_pure trivial
    all_goals first
      | exact yields_unexpected
      | exact yields_skipOne.bind fun _ _ => yields_pure trivial

theorem yields_value (constant : Bool) : (value constant).Yields fun _ => True :=
  yields_bound.bind fun n _ => yields_valueAt constant n

theorem yields_arguments (constant : Bool) : (arguments constant).Yields fun _ => True := by
  refine (yields_some (P := fun _ => True) ?_ _ _).mono fun _ _ => trivial
  exact yields_peek.bind fun _ _ => yields_name.bind fun _ _ => (yields_expect _).bind fun _ _ =>
    (yields_value constant).bind fun _ _ => yields_pure trivial

theorem yields_directives (constant : Bool) : (directives constant).Yields fun _ => True := by
  refine yields_bound.bind fun n _ => ?_
  refine (yields_each (P := fun _ => True) ?_ _ n).mono fun _ _ => trivial
  exact yields_peek.bind fun _ _ => yields_name.bind fun _ _ => (yields_arguments constant).bind
    fun _ _ => yields_pure trivial

theorem yields_defaultValue : defaultValue.Yields fun _ => True := by
  refine (yields_skip .equals).bind fun found _ => ?_
  split
  · exact (yields_value true).bind fun _ _ => yields_pure trivial
  · exact yields_pure trivial

end Reader

/-! ### Declarations -/

def ArgumentDefinition.isNamed (a : ArgumentDefinition) : Bool :=
  Scan.isNameText a.name && a.type.isLegible

def FieldDefinition.isNamed (f : FieldDefinition) : Bool :=
  Scan.isNameText f.name && f.arguments.all ArgumentDefinition.isNamed && f.type.isLegible

/-- Whether a type names interfaces only if its kind has them, takes arguments for a field that is shown
only if it is no input object, and is marked as built in only if a built-in type has its name. -/
def Definition.isOrderly (d : Definition) : Bool :=
  (d.interfaces.isEmpty || d.kind = .object || d.kind = .interface)
    && (d.kind ≠ .inputObject || d.fields.all fun f => !f.isShown || f.arguments.isEmpty)
    && (!d.builtIn || builtinDocument.definitions.any (·.name = d.name))

theorem Definition.isOrderly_iff {d : Definition} :
    d.isOrderly = true ↔ (d.interfaces = [] ∨ d.kind = .object ∨ d.kind = .interface) ∧
      (d.kind = .inputObject → ∀ f ∈ d.fields, f.isShown = true → f.arguments = []) ∧
      (d.builtIn = true → ∃ b ∈ builtinDocument.definitions, b.name = d.name) := by
  cases hb : d.builtIn <;> simp [isOrderly, hb, or_assoc, and_assoc, imp_iff_not_or]

/-- Whether a named type is of a known kind and orderly, and the names in it are names. -/
def Definition.isNamed (d : Definition) : Bool :=
  d.kind.isKnown && Scan.isNameText d.name && d.interfaces.all Scan.isNameText && d.members.all Scan.isNameText
    && d.fields.all FieldDefinition.isNamed && (d.values.all fun v => Scan.isNameText v.name) && d.isOrderly

theorem Definition.isNamed_iff {d : Definition} :
    d.isNamed = true ↔ d.kind.isKnown = true ∧ Scan.isNameText d.name = true ∧
      (∀ n ∈ d.interfaces, Scan.isNameText n = true) ∧ (∀ n ∈ d.members, Scan.isNameText n = true) ∧
      (∀ f ∈ d.fields, f.isNamed = true) ∧ (∀ v ∈ d.values, Scan.isNameText v.name = true) ∧
      d.isOrderly = true := by
  simp [isNamed, and_assoc]

/-- Whether a type has a field that is written out, if its kind needs fields. -/
def Definition.isFilled (d : Definition) : Bool :=
  match d.kind with
  | .object | .interface | .inputObject => d.fields.any FieldDefinition.isShown
  | _ => true

def DirectiveDefinition.isNamed (d : DirectiveDefinition) : Bool :=
  Scan.isNameText d.name && d.arguments.all ArgumentDefinition.isNamed && !d.locations.isEmpty
    && d.locations.all directiveLocations.contains

namespace Reader

theorem yields_description : description.Yields fun _ => True := by
  refine yields_peek.bind fun t _ => ?_
  split
  · exact yields_skipOne.bind fun _ _ => yields_pure trivial
  · exact yields_pure trivial

theorem yields_argumentDefinition :
    argumentDefinition.Yields fun a => a.isNamed = true := by
  refine yields_peek.bind fun _ _ => yields_description.bind fun _ _ => yields_name.bind fun n hn => ?_
  refine (yields_expect _).bind fun _ _ => yields_type.bind fun t ht => ?_
  refine yields_defaultValue.bind fun _ _ => (yields_directives _).bind fun _ _ => yields_pure ?_
  simp [ArgumentDefinition.isNamed, hn, ht]

theorem yields_argumentDefinitions :
    argumentDefinitions.Yields fun as => ∀ a ∈ as, a.isNamed = true :=
  yields_some yields_argumentDefinition _ _

theorem yields_fieldDefinitions :
    fieldDefinitions.Yields fun fs => ∀ f ∈ fs, f.isNamed = true := by
  refine yields_some ?_ _ _
  refine yields_peek.bind fun _ _ => yields_description.bind fun _ _ => yields_name.bind fun n hn => ?_
  refine yields_argumentDefinitions.bind fun as has => (yields_expect _).bind fun _ _ => ?_
  refine yields_type.bind fun t ht => (yields_directives _).bind fun _ _ => yields_pure ?_
  simpa [FieldDefinition.isNamed, hn, ht] using has

theorem yields_inputFieldDefinitions :
    inputFieldDefinitions.Yields fun fs => ∀ f ∈ fs, f.isNamed = true ∧ f.arguments = [] := by
  refine yields_some (yields_argumentDefinition.bind fun a ha => yields_pure ⟨?_, rfl⟩) _ _
  simpa [FieldDefinition.isNamed, ArgumentDefinition.isNamed] using ha

theorem yields_enumValueDefinitions :
    enumValueDefinitions.Yields fun vs => ∀ v ∈ vs, Scan.isNameText v.name = true := by
  refine yields_some ?_ _ _
  refine yields_peek.bind fun _ _ => yields_description.bind fun _ _ => yields_name.bind fun n hn => ?_
  exact (yields_directives _).bind fun _ _ => yields_pure hn

theorem yields_interfaces : interfaces.Yields fun ns => ∀ n ∈ ns, Scan.isNameText n = true := by
  refine yields_peek.bind fun t _ => ?_
  split
  · exact yields_skipOne.bind fun _ _ => (yields_separated yields_name _).mono fun _ h => h.2
  · exact yields_pure (by simp)

theorem yields_unionMembers :
    unionMembers.Yields fun ns => ∀ n ∈ ns, Scan.isNameText n = true := by
  refine (yields_skip .equals).bind fun found _ => ?_
  split
  · exact (yields_separated yields_name _).mono fun _ h => h.2
  · exact yields_pure (by simp)

theorem yields_afterInterfaces {d : Definition} (h : d.isNamed = true)
    (hk : d.kind = .object ∨ d.kind = .interface) {interfaces : List String}
    (hinterfaces : ∀ n ∈ interfaces, Scan.isNameText n = true) : (do
      let directives ← directives true
      return { d with interfaces, directives, fields := ← fieldDefinitions } :
      Reader Definition).Yields fun e => e.isNamed = true := by
  obtain ⟨hkind, hname, -, hmembers, -, hvalues, horderly⟩ := Definition.isNamed_iff.1 h
  refine (yields_directives _).bind fun _ _ => yields_fieldDefinitions.bind fun fs hfs => yields_pure ?_
  refine Definition.isNamed_iff.2 ⟨hkind, hname, hinterfaces, hmembers, hfs, hvalues, ?_⟩
  refine Definition.isOrderly_iff.2 ⟨.inr hk, fun hinput => ?_, (Definition.isOrderly_iff.1 horderly).2.2⟩
  rcases hk with hk | hk <;> exact absurd (hk.symm.trans hinput) (by decide)

/-- What follows the name of a type adds names only. -/
theorem yields_definitionBody (extension : Bool) {d : Definition} (h : d.isNamed = true) :
    (definitionBody extension d).Yields fun e => e.isNamed = true := by
  obtain ⟨kind, _, _, _, _, _, _, _, _, _⟩ := d
  obtain ⟨hkind, hname, hinterfaces, hmembers, hfields, hvalues, horderly⟩ := Definition.isNamed_iff.1 h
  cases kind with
  | scalar => exact (yields_directives _).bind fun _ _ => yields_pure h
  | object => exact yields_interfaces.bind fun is his => yields_afterInterfaces h (.inl rfl) his
  | interface =>
    cases extension with
    | true => exact (yields_pure (b := []) (List.forall_mem_nil _)).bind fun is his =>
        yields_afterInterfaces h (.inr rfl) his
    | false => exact yields_interfaces.bind fun is his => yields_afterInterfaces h (.inr rfl) his
  | union =>
    refine (yields_directives _).bind fun _ _ => yields_unionMembers.bind fun ms hms => yields_pure ?_
    exact Definition.isNamed_iff.2 ⟨hkind, hname, hinterfaces, hms, hfields, hvalues, horderly⟩
  | enum =>
    refine (yields_directives _).bind fun _ _ => ?_
    refine yields_enumValueDefinitions.bind fun vs hvs => yields_pure ?_
    exact Definition.isNamed_iff.2 ⟨hkind, hname, hinterfaces, hmembers, hfields, hvs, horderly⟩
  | inputObject =>
    refine (yields_directives _).bind fun _ _ => ?_
    refine yields_inputFieldDefinitions.bind fun fs hfs => yields_pure ?_
    obtain ⟨hinput, -, hbuiltIn⟩ := Definition.isOrderly_iff.1 horderly
    exact Definition.isNamed_iff.2 ⟨hkind, hname, hinterfaces, hmembers, fun f hf => (hfs f hf).1, hvalues,
      Definition.isOrderly_iff.2 ⟨hinput, fun _ f hf _ => (hfs f hf).2, hbuiltIn⟩⟩
  | other n => exact yields_pure h

theorem isKnown_of_kindOfWord? {word : String} {kind : Kind}
    (h : kindOfWord? word = Option.some kind) : kind.isKnown = true := by
  unfold kindOfWord? at h
  repeat' split at h
  all_goals cases h
  all_goals rfl

theorem yields_definition {kind : Kind} (hkind : kind.isKnown = true) (description : String) :
    (definition false kind description).Yields fun d => d.isNamed = true := by
  refine yields_skipOne.bind fun _ _ => yields_peek.bind fun _ _ => yields_name.bind fun n hn => ?_
  exact yields_definitionBody false (by simp [Definition.isNamed, Definition.isOrderly, hkind, hn])

theorem yields_extension (word : String) {kind : Kind} (hkind : kind.isKnown = true) :
    (extension false word kind).Yields fun d => d.isNamed = true := by
  refine (yields_expectWord _).bind fun _ _ => yields_peek.bind fun _ _ => ?_
  refine yields_name.bind fun n hn => ?_
  refine (yields_definitionBody true
    (by simp [Definition.isNamed, Definition.isOrderly, hkind, hn])).bind fun d hd => ?_
  split
  · exact yields_pure hd
  · exact yields_unexpected

theorem yields_operationType : operationType.Yields fun _ => True := by
  refine yields_peek.bind fun t _ => ?_
  split
  · exact yields_fail _ _
  · split
    · exact yields_skipOne.bind fun _ _ => yields_pure trivial
    · exact yields_fail _ _

theorem yields_roots : roots.Yields fun _ => True := by
  refine (yields_some (P := fun _ => True) ?_ _ _).mono fun _ _ => trivial
  refine yields_peek.bind fun _ _ => yields_operationType.bind fun _ _ => ?_
  exact (yields_expect _).bind fun _ _ => yields_name.bind fun _ _ => yields_pure trivial

theorem yields_schemaDefinition (description : String) :
    (schemaDefinition description).Yields fun _ => True := by
  refine yields_skipOne.bind fun _ _ => yields_peek.bind fun _ _ => ?_
  exact (yields_directives _).bind fun _ _ => yields_roots.bind fun _ _ => yields_pure trivial

theorem yields_schemaExtension : schemaExtension.Yields fun _ => True := by
  refine (yields_expectWord _).bind fun _ _ => yields_peek.bind fun _ _ => ?_
  refine (yields_directives _).bind fun _ _ => yields_roots.bind fun _ _ => ?_
  split
  · exact yields_unexpected
  · exact yields_pure trivial

theorem yields_directiveLocation :
    directiveLocation.Yields fun l => directiveLocations.contains l = true := by
  refine (yields_expect _).bind fun t _ => ?_
  split
  · next hknown => exact yields_pure hknown
  · exact yields_fail _ _

theorem yields_directiveDefinition (builtIn : Bool) (description : String) :
    (directiveDefinition builtIn description).Yields fun d => d.isNamed = true := by
  refine yields_skipOne.bind fun _ _ => (yields_expect _).bind fun _ _ => yields_peek.bind fun _ _ => ?_
  refine yields_name.bind fun n hn => yields_argumentDefinitions.bind fun as has => ?_
  have hrest (repeatable : Bool) (pos : Position) : (do
      expectWord "on"
      return { name := n, description, arguments := as,
               locations := ← separated .pipe directiveLocation,
               repeatable, pos, builtIn } : Reader DirectiveDefinition).Yields
      fun d => d.isNamed = true := by
    refine (yields_expectWord _).bind fun _ _ => ?_
    refine (yields_separated yields_directiveLocation _).bind fun ls hls => yields_pure ?_
    simp_all [DirectiveDefinition.isNamed]
  refine yields_peek.bind fun t _ => ?_
  split
  · exact yields_skipOne.bind fun _ _ => hrest true _
  · exact hrest false _

end Reader

namespace TypeSystemDocument

/-- What a document declares and extends has names only. -/
structure Named (doc : TypeSystemDocument) : Prop where
  definitions : ∀ d ∈ doc.definitions, d.isNamed = true
  extensions : ∀ d ∈ doc.extensions, d.isNamed = true
  directives : ∀ d ∈ doc.directives, d.isNamed = true

end TypeSystemDocument

namespace Reader

theorem yields_extended {doc : TypeSystemDocument} (h : doc.Named) :
    (extended false doc).Yields TypeSystemDocument.Named := by
  refine yields_peek.bind fun t _ => ?_
  split
  · exact yields_schemaExtension.bind fun _ _ =>
      yields_pure ⟨h.definitions, h.extensions, h.directives⟩
  · split
    · next kind hword =>
      refine (yields_extension _ (isKnown_of_kindOfWord? hword)).bind fun d hd => yields_pure ?_
      exact ⟨h.definitions, List.forall_mem_append.2 ⟨h.extensions, List.forall_mem_singleton.2 hd⟩, h.directives⟩
    · exact yields_unexpected

theorem yields_declared {doc : TypeSystemDocument} (h : doc.Named) :
    (declared false doc).Yields TypeSystemDocument.Named := by
  refine yields_peek.bind fun before _ => yields_description.bind fun description _ => ?_
  refine yields_peek.bind fun t _ => ?_
  split
  · exact yields_unexpected
  split
  · exact (yields_schemaDefinition _).bind fun _ _ =>
      yields_pure ⟨h.definitions, h.extensions, h.directives⟩
  split
  · refine (yields_directiveDefinition false _).bind fun d hd => yields_pure ?_
    exact ⟨h.definitions, h.extensions, List.forall_mem_append.2 ⟨h.directives, List.forall_mem_singleton.2 hd⟩⟩
  split
  · split
    · exact yields_fail before _
    · exact yields_skipOne.bind fun _ _ => yields_extended h
  split
  · next kind hword =>
    refine (yields_definition (isKnown_of_kindOfWord? hword) _).bind fun d hd => yields_pure ?_
    exact ⟨List.forall_mem_append.2 ⟨h.definitions, List.forall_mem_singleton.2 hd⟩, h.extensions, h.directives⟩
  · exact yields_unexpected

theorem yields_typeSystemAt (fuel : Nat) {doc : TypeSystemDocument} (h : doc.Named) :
    (typeSystemAt false fuel doc).Yields TypeSystemDocument.Named := by
  induction fuel generalizing doc with
  | zero => exact yields_unexpected
  | succ fuel ih =>
    refine yields_peek.bind fun t _ => ?_
    split
    · exact yields_pure h
    · exact (yields_declared h).bind fun doc' hdoc => ih hdoc

end Reader

/-- A document that was read has names only. -/
theorem TypeSystemDocument.named_of_parse {name text : String} {doc : TypeSystemDocument}
    (h : parse { name, text } = .ok doc) : doc.Named := by
  obtain ⟨⟨doc', rest⟩, hrun, rfl⟩ := exists_of_map_eq_ok h
  refine (Reader.yields_typeSystemAt _ ⟨by simp, by simp, by simp⟩ _ _ _ ?_ hrun).2
  exact fun t ht => Scan.isNamed_of_mem_run ht

end OperationGraph
