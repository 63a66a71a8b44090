import OperationGraph.Definition.Parser
import OperationGraph.Proofs.Document.Reading

/-! # Reading declarations

A reader of declarations takes the lexemes of a legible document and gives a document that recalls it. -/

namespace OperationGraph.Reader

/-! ### What may follow -/

/-- The kinds of tokens that may follow an element of a list or a declaration. -/
def followKinds : List TokenKind := [.name, .blockString, .endOfInput, .parenR, .braceR]

/-- A token that may follow an element of a list or a declaration. -/
def Follows (l : Lexeme) : Prop := l.kind ∈ followKinds

instance (l : Lexeme) : Decidable (Follows l) := inferInstanceAs (Decidable (l.kind ∈ followKinds))

section
variable {l : Lexeme} {next : Lexeme → Prop}

theorem Follows.noneOf (h : Follows l) {kinds : List TokenKind} (hkinds : ∀ k ∈ kinds, k ∉ followKinds) :
    noneOf kinds l :=
  fun hl => hkinds _ hl h

theorem noneOf_sign {kinds : List TokenKind} {kind : TokenKind} (h : kind ∉ kinds) (v : String) :
    noneOf kinds ⟨kind, v⟩ := h

theorem headD_append (ls ks : List Lexeme) (l : Lexeme) :
    (ls ++ ks).headD l = ls.headD (ks.headD l) := by
  cases ls <;> rfl

theorem headD_defaultLexemes (v : Option Literal) (h : next (.sign .equals)) (hl : next l) :
    next ((defaultLexemes v).headD l) := by
  cases v with
  | none => exact hl
  | some v => exact h

theorem headD_listLexemes (ds : List Directive) (h : next (.sign .at_)) (hl : next l) :
    next ((Directive.listLexemes ds).headD l) := by
  cases ds with
  | nil => exact hl
  | cons d ds => exact h

theorem headD_enclosed {openKind : TokenKind} (close : TokenKind) (parts : List (List Lexeme))
    (h : next (.sign openKind)) (hl : next l) : next ((enclosed openKind close parts).headD l) := by
  cases parts with
  | nil => exact hl
  | cons part parts => exact h

theorem headD_listing {lead : Lexeme} (separator : TokenKind) (names : List String) (h : next lead)
    (hl : next l) : next ((listing lead separator names).headD l) := by
  cases names with
  | nil => exact hl
  | cons n names => exact h

end

/-! ### Parts of declarations -/

theorem takes_description (s : String) :
    description.Takes (descriptionLexemes s) (noneOf [.string, .blockString]) (RecallsDescription s) := by
  unfold descriptionLexemes
  split
  · next hempty =>
    refine Takes.peek fun t l hl ht => ?_
    have hkind : t.kind = l.kind := ht.1
    rw [if_neg (by simpa [noneOf, hkind] using hl)]
    exact takes_pure fun _ => hempty.symm
  · next hempty =>
    refine Takes.peek fun t l hl ht => ?_
    have hkind : t.kind = .blockString := ht.1
    rw [if_pos (by simp [hkind])]
    refine ((takes_skipOne _).cons fun _ _ => takes_pure ?_).mono (fun _ _ => trivial) fun _ h => h
    intro hsettled
    simpa [hsettled, hempty] using ht.2

theorem takes_argumentDefinition {a : ArgumentDefinition} (h : a.isLegible = true) :
    argumentDefinition.Takes a.lexemes Follows a.Recalls := by
  simp only [ArgumentDefinition.isLegible, Bool.and_eq_true] at h
  obtain ⟨⟨-, hdefault⟩, hdirectives⟩ := h
  refine Takes.peek fun t _ _ _ => ?_
  refine (takes_description a.description).bind (fun _ hdescription => ?_)
    fun _ _ => noneOf_sign (by decide) _
  refine (takes_name a.name).cons fun _ hname => (takes_expect (.sign .colon)).cons fun _ _ => ?_
  refine (takes_type a.type).bind (fun _ htype => ?_) fun l hl => ?_
  · refine (takes_defaultValue hdefault).bind (fun _ hvalue => ?_) fun l hl => ?_
    · exact ((takes_directives hdirectives).mono (fun l hl => hl.noneOf (by decide))
        fun _ h => h).bind_pure fun _ hds => ⟨hname, hdescription, htype, hvalue, hds⟩
    · exact headD_listLexemes _ (noneOf_sign (by decide) _) (hl.noneOf (by decide))
  · rw [headD_append]
    exact headD_defaultLexemes _ (noneOf_sign (by decide) _)
      (headD_listLexemes _ (noneOf_sign (by decide) _) (hl.noneOf (by decide)))

/-- What begins with a description or a name may follow another such element. -/
theorem exists_head?_described (s n : String) (ks : List Lexeme) {close : TokenKind}
    (hname : close ≠ .name) (hblock : close ≠ .blockString) :
    ∃ l ∈ (descriptionLexemes s ++ .word n :: ks).head?, Follows l ∧ l.kind ≠ close := by
  unfold descriptionLexemes
  split
  · exact ⟨_, rfl, List.mem_cons_self, hname.symm⟩
  · exact ⟨_, rfl, List.mem_cons_of_mem _ List.mem_cons_self, hblock.symm⟩

theorem takes_argumentDefinitions {args : List ArgumentDefinition}
    (h : args.all ArgumentDefinition.isLegible = true) :
    argumentDefinitions.Takes (enclosed .parenL .parenR (args.map ArgumentDefinition.lexemes))
      (noneOf [.parenL]) (args.Forall₂ ArgumentDefinition.Recalls) := by
  refine takes_some (fun a ha => ?_) (fun a _ => ?_) (?_ : Follows _)
  · exact takes_argumentDefinition (List.all_eq_true.1 h a ha)
  · exact exists_head?_described _ _ _ (by decide) (by decide)
  · decide

theorem takes_fieldDefinitions {fs : List FieldDefinition}
    (h : ∀ f ∈ fs, f.isLegible = true ∧ f.default = none) :
    fieldDefinitions.Takes (enclosed .braceL .braceR (fs.map FieldDefinition.lexemes))
      (noneOf [.braceL]) (fs.Forall₂ FieldDefinition.Recalls) := by
  refine takes_some (fun f hf => ?_) (fun f _ => ?_) (?_ : Follows _)
  · obtain ⟨hlegible, hdefault⟩ := h f hf
    simp only [FieldDefinition.isLegible, Bool.and_eq_true] at hlegible
    obtain ⟨⟨⟨⟨-, hargs⟩, -⟩, -⟩, hdirectives⟩ := hlegible
    rw [FieldDefinition.lexemes, hdefault]
    refine Takes.peek fun t _ _ _ => ?_
    refine (takes_description f.description).bind (fun _ hdescription => ?_)
      fun _ _ => noneOf_sign (by decide) _
    refine (takes_name f.name).cons fun _ hname => ?_
    refine (takes_argumentDefinitions hargs).bind (fun _ has => ?_) fun _ _ => noneOf_sign (by decide) _
    refine (takes_expect (.sign .colon)).cons fun _ _ => ?_
    refine (takes_type f.type).bind (fun _ htype => ?_) fun l hl => ?_
    · exact ((takes_directives hdirectives).mono (fun l hl => hl.noneOf (by decide))
        fun _ h => h).bind_pure fun _ hds =>
          ⟨hname, hdescription, has, htype, by rw [hdefault]; rfl, hds⟩
    · exact headD_listLexemes _ (noneOf_sign (by decide) _) (hl.noneOf (by decide))
  · exact exists_head?_described _ _ _ (by decide) (by decide)
  · decide

theorem takes_inputFieldDefinitions {fs : List FieldDefinition}
    (h : ∀ f ∈ fs, f.isLegible = true ∧ f.arguments = []) :
    inputFieldDefinitions.Takes (enclosed .braceL .braceR (fs.map FieldDefinition.lexemes))
      (noneOf [.braceL]) (fs.Forall₂ FieldDefinition.Recalls) := by
  refine takes_some (fun f hf => ?_) (fun f _ => ?_) (?_ : Follows _)
  · obtain ⟨hlegible, hargs⟩ := h f hf
    -- A field without arguments is written as an argument of its name.
    have hargument := takes_argumentDefinition (a := { f with }) (by
      simpa [FieldDefinition.isLegible, ArgumentDefinition.isLegible, hargs] using hlegible)
    have hlexemes : f.lexemes = ArgumentDefinition.lexemes { f with } := by
      simp [FieldDefinition.lexemes, ArgumentDefinition.lexemes, hargs, enclosed]
    rw [hlexemes]
    refine hargument.bind_pure fun a ha => ?_
    exact ⟨ha.name, ha.description, by rw [hargs]; exact .nil, ha.type, ha.default, ha.directives⟩
  · exact exists_head?_described _ _ _ (by decide) (by decide)
  · decide

theorem takes_enumValueDefinitions {vs : List EnumValueDefinition}
    (h : vs.all EnumValueDefinition.isLegible = true) :
    enumValueDefinitions.Takes (enclosed .braceL .braceR (vs.map EnumValueDefinition.lexemes))
      (noneOf [.braceL]) (vs.Forall₂ EnumValueDefinition.Recalls) := by
  refine takes_some (fun v hv => ?_) (fun v _ => ?_) (?_ : Follows _)
  · have hlegible := List.all_eq_true.1 h v hv
    simp only [EnumValueDefinition.isLegible, Bool.and_eq_true] at hlegible
    refine Takes.peek fun t _ _ _ => ?_
    refine (takes_description v.description).bind (fun _ hdescription => ?_)
      fun _ _ => noneOf_sign (by decide) _
    refine (takes_name v.name).cons fun _ hname => ?_
    exact ((takes_directives hlegible.2).mono (fun l hl => hl.noneOf (by decide))
      fun _ h => h).bind_pure fun _ hds => ⟨hname, hdescription, hds⟩
  · exact exists_head?_described _ _ _ (by decide) (by decide)
  · decide

/-- Names with a separator between them. -/
theorem takes_names {item : Reader String} {names : List String} (hne : names ≠ [])
    (hitem : ∀ n ∈ names, item.Takes [.word n] anything (· = n)) {separator : TokenKind}
    (hseparator : separator ≠ .name) :
    (separated separator item).Takes (joined [.sign separator] (names.map fun n => [.word n]))
      (noneOf [separator]) (· = names) := by
  refine (takes_separated (R := fun n n' => n' = n) hne hitem (fun n _ => ⟨_, rfl, hseparator.symm⟩)
    (anything_of _)).mono (fun l hl => ?_) fun ns hns => ?_
  · exact ⟨trivial, by simpa [noneOf] using hl⟩
  · simpa using eq_map_of_forall₂ (r := id) hns

/-- No token that begins or continues a list of interfaces; the word that begins it is known by its value
alone, and the value of a block string is not known here. -/
def EndsInterfaces (l : Lexeme) : Prop := l.value ≠ "implements" ∧ noneOf [.amp, .blockString] l

theorem takes_interfaces (names : List String) :
    interfaces.Takes (listing (.word "implements") .amp names) EndsInterfaces (· = names) := by
  cases names with
  | nil =>
    refine Takes.peek fun t l hl ht => ?_
    have hvalue : t.value ≠ "implements" := by
      rw [value_of_shows ht fun hk => hl.2 (List.mem_cons_of_mem _ (List.mem_singleton.2 hk))]
      exact hl.1
    rw [if_neg hvalue]
    exact takes_pure rfl
  | cons n names =>
    refine Takes.peek fun t l hl ht => ?_
    rw [if_pos (of_shows_word ht).2]
    refine (takes_skipOne _).cons fun _ _ => ?_
    refine (takes_names (List.cons_ne_nil n names) (fun n _ => takes_name n) (by decide)).mono
      (fun l hl => ?_) fun _ h => h
    exact fun hk => hl.2 (List.mem_cons.2 (.inl (List.mem_singleton.1 hk)))

theorem takes_unionMembers (names : List String) :
    unionMembers.Takes (listing (.sign .equals) .pipe names) (noneOf [.equals, .pipe])
      (· = names) := by
  cases names with
  | nil =>
    exact Takes.skip_none (takes_pure rfl) fun l hl hk => hl (List.mem_cons.2 (.inl hk))
  | cons n names =>
    refine Takes.skip ((takes_names (List.cons_ne_nil n names) (fun n _ => takes_name n) (by decide)).mono
      (fun l hl => ?_) fun _ h => h)
    exact fun hk => hl (List.mem_cons_of_mem _ hk)

/-! ### Types -/

theorem listing_nil (lead : Lexeme) (separator : TokenKind) : listing lead separator [] = [] := rfl

theorem enclosed_nil (openKind close : TokenKind) : enclosed openKind close [] = [] := rfl

theorem headD_enclosed_of_ne {openKind : TokenKind} (close : TokenKind) {parts : List (List Lexeme)}
    (h : parts ≠ []) (l : Lexeme) : (enclosed openKind close parts).headD l = .sign openKind := by
  cases parts with
  | nil => exact absurd rfl h
  | cons part parts => rfl

/-- The parts of an object or an interface. -/
theorem takes_objectParts {β : Type} {f : List String → List Directive → List FieldDefinition → β}
    {P : β → Prop} {names : List String} {ds : List Directive} {fs : List FieldDefinition}
    (hds : ds.all Directive.isLegible = true) (hne : fs ≠ [])
    (hfs : ∀ f ∈ fs, f.isLegible = true ∧ f.default = none)
    (hP : ∀ ds' fs', ds.Forall₂ Directive.Recalls ds' → fs.Forall₂ FieldDefinition.Recalls fs' →
      P (f names ds' fs')) :
    (do
      let ns ← interfaces
      let ds ← directives true
      let fs ← fieldDefinitions
      return f ns ds fs : Reader β).Takes
      (listing (.word "implements") .amp names ++ (Directive.listLexemes ds ++
        enclosed .braceL .braceR (fs.map FieldDefinition.lexemes))) Follows P := by
  have hparts : fs.map FieldDefinition.lexemes ≠ [] := by simpa using hne
  refine (takes_interfaces names).bind (fun _ hns => ?_) fun l hl => ?_
  · refine (takes_directives hds).bind (fun ds' hds' => ?_) fun l hl => ?_
    · exact ((takes_fieldDefinitions hfs).mono (fun l hl => hl.noneOf (by decide))
        fun _ h => h).bind_pure fun fs' hfs' => hns ▸ hP ds' fs' hds' hfs'
    · rw [headD_enclosed_of_ne _ hparts]
      exact noneOf_sign (by decide) _
  · rw [headD_append, headD_enclosed_of_ne _ hparts]
    refine headD_listLexemes ds ?_ ?_ <;> exact ⟨nofun, noneOf_sign (by decide) _⟩

/-- The parts of a type that is no object: directives, and one more part after them. -/
theorem takes_directivesThen {α β : Type} {x : Reader α} {f : List Directive → α → β} {P : β → Prop}
    {R : α → Prop} {ds : List Directive} {ls : List Lexeme} {kinds : List TokenKind}
    (hds : ds.all Directive.isLegible = true) (hx : x.Takes ls (noneOf kinds) R)
    (hkinds : ∀ k ∈ kinds, k ∉ followKinds)
    (hls : ∀ l, Follows l → noneOf [.at_, .parenL] (ls.headD l))
    (hP : ∀ ds' a, ds.Forall₂ Directive.Recalls ds' → R a → P (f ds' a)) :
    (do
      let ds ← directives true
      let a ← x
      return f ds a : Reader β).Takes (Directive.listLexemes ds ++ ls) Follows P :=
  (takes_directives hds).bind
    (fun ds' hds' => (hx.mono (fun _ hl => hl.noneOf hkinds) fun _ h => h).bind_pure
      fun a ha => hP ds' a hds' ha) hls

/-- A type before its body is read. -/
structure Headed (d e : Definition) : Prop where
  kind : e.kind = d.kind
  name : e.name = d.name
  description : RecallsDescription d.description e.description
  interfaces : e.interfaces = []
  directives : e.directives = []
  members : e.members = []
  fields : e.fields = []
  values : e.values = []
  builtIn : e.builtIn = false

theorem takes_definitionBody {d e : Definition} (h : d.isLegible = true) (he : Headed d e) :
    (definitionBody false e).Takes (listing (.word "implements") .amp d.interfaces ++
      (Directive.listLexemes d.directives ++ (listing (.sign .equals) .pipe d.members ++
      (enclosed .braceL .braceR (d.shownFields.map FieldDefinition.lexemes) ++
        enclosed .braceL .braceR (d.values.map EnumValueDefinition.lexemes))))) Follows
      d.Recalls := by
  simp only [Definition.isLegible, Bool.and_eq_true] at h
  obtain ⟨⟨⟨⟨⟨⟨⟨hfits, -⟩, -⟩, -⟩, hdirectives⟩, -⟩, hfields⟩, hvalues⟩ := h
  obtain ⟨hkind, hname, hdescription, hi₀, hd₀, hm₀, hf₀, hv₀, hbuiltIn⟩ := he
  have hshown : ∀ f ∈ d.shownFields, f ∈ d.fields := fun f hf => (List.mem_filter.1 hf).1
  have hlegible : ∀ f ∈ d.shownFields, f.isLegible = true := fun f hf =>
    List.all_eq_true.1 hfields f (hshown f hf)
  have hempty (hnil : d.fields = []) : d.shownFields = [] := by simp [Definition.shownFields, hnil]
  unfold Definition.fitsKind at hfits
  unfold definitionBody
  rw [hkind]
  cases hk : d.kind with
  | scalar =>
    simp only [hk, Bool.and_eq_true, List.isEmpty_iff] at hfits
    obtain ⟨⟨⟨hi, hm⟩, hf⟩, hv⟩ := hfits
    rw [hi, hm, hempty hf, hv]
    simp only [listing_nil, enclosed_nil, List.map_nil, List.nil_append, List.append_nil]
    refine ((takes_directives hdirectives).mono (fun l hl => hl.noneOf (by decide))
      fun _ h => h).bind_pure fun ds hds => ?_
    exact ⟨hk.symm, hname, hdescription, by rw [hi₀, hi], hds, by rw [hm₀, hm], by rw [hf₀, hempty hf]; exact .nil,
      by rw [hv₀, hv]; exact .nil, hbuiltIn⟩
  | object | interface =>
    simp only [hk, Bool.and_eq_true, List.isEmpty_iff, Bool.not_eq_true', List.isEmpty_eq_false_iff,
      List.all_eq_true, Option.isNone_iff_eq_none] at hfits
    obtain ⟨⟨⟨hm, hv⟩, hne⟩, hdefault⟩ := hfits
    rw [hm, hv]
    simp only [listing_nil, enclosed_nil, List.map_nil, List.nil_append, List.append_nil]
    refine takes_objectParts hdirectives hne
      (fun f hf => ⟨hlegible f hf, hdefault f (hshown f hf)⟩) fun ds fs hds hfs => ?_
    exact ⟨hk.symm, hname, hdescription, rfl, hds, by rw [hm₀, hm], hfs, by rw [hv₀, hv]; exact .nil, hbuiltIn⟩
  | union =>
    simp only [hk, Bool.and_eq_true, List.isEmpty_iff] at hfits
    obtain ⟨⟨hi, hf⟩, hv⟩ := hfits
    rw [hi, hempty hf, hv]
    simp only [listing_nil, enclosed_nil, List.map_nil, List.nil_append, List.append_nil]
    refine takes_directivesThen hdirectives (takes_unionMembers d.members) (by decide)
      (fun l hl => headD_listing _ _ (noneOf_sign (by decide) _) (hl.noneOf (by decide)))
      fun ds ms hds hms => ?_
    exact ⟨hk.symm, hname, hdescription, by rw [hi₀, hi], hds, hms, by rw [hf₀, hempty hf]; exact .nil,
      by rw [hv₀, hv]; exact .nil, hbuiltIn⟩
  | enum =>
    simp only [hk, Bool.and_eq_true, List.isEmpty_iff] at hfits
    obtain ⟨⟨hi, hm⟩, hf⟩ := hfits
    rw [hi, hm, hempty hf]
    simp only [listing_nil, enclosed_nil, List.map_nil, List.nil_append]
    refine takes_directivesThen hdirectives (takes_enumValueDefinitions hvalues) (by decide)
      (fun l hl => headD_enclosed _ _ (noneOf_sign (by decide) _) (hl.noneOf (by decide)))
      fun ds vs hds hvs => ?_
    exact ⟨hk.symm, hname, hdescription, by rw [hi₀, hi], hds, by rw [hm₀, hm],
      by rw [hf₀, hempty hf]; exact .nil, hvs, hbuiltIn⟩
  | inputObject =>
    simp only [hk, Bool.and_eq_true, List.isEmpty_iff, List.all_eq_true] at hfits
    obtain ⟨⟨⟨⟨hi, hm⟩, hv⟩, -⟩, hargs⟩ := hfits
    rw [hi, hm, hv]
    simp only [listing_nil, enclosed_nil, List.map_nil, List.nil_append, List.append_nil]
    refine takes_directivesThen hdirectives
      (takes_inputFieldDefinitions fun f hf => ⟨hlegible f hf, hargs f (hshown f hf)⟩) (by decide)
      (fun l hl => headD_enclosed _ _ (noneOf_sign (by decide) _) (hl.noneOf (by decide)))
      fun ds fs hds hfs => ?_
    exact ⟨hk.symm, hname, hdescription, by rw [hi₀, hi], hds, by rw [hm₀, hm], hfs,
      by rw [hv₀, hv]; exact .nil, hbuiltIn⟩
  | other n => simp [hk] at hfits

theorem takes_definition {d : Definition} (h : d.isLegible = true) {description : String}
    (hdescription : RecallsDescription d.description description) (w : String) :
    (definition false d.kind description).Takes (.word w :: .word d.name ::
      (listing (.word "implements") .amp d.interfaces ++
      (Directive.listLexemes d.directives ++ (listing (.sign .equals) .pipe d.members ++
      (enclosed .braceL .braceR (d.shownFields.map FieldDefinition.lexemes) ++
        enclosed .braceL .braceR (d.values.map EnumValueDefinition.lexemes)))))) Follows
      d.Recalls := by
  refine (takes_skipOne _).cons fun _ _ => Takes.peek fun t _ _ _ => ?_
  refine (takes_name d.name).cons fun n hn => ?_
  exact takes_definitionBody h ⟨rfl, hn, hdescription, rfl, rfl, rfl, rfl, rfl, rfl⟩

/-! ### Roots and directives -/

theorem takes_operationType (op : OperationType) :
    operationType.Takes [.word op.text] anything (· = op) := by
  refine Takes.peek fun t _ _ ht => ?_
  obtain ⟨hkind, hvalue⟩ := of_shows_word ht
  have hop : OperationType.ofText? op.text = Option.some op := by cases op <;> decide
  rw [hkind, hvalue, hop]
  exact (takes_skipOne _).cons fun _ _ => takes_pure rfl

theorem takes_schemaDefinition {s : SchemaDefinition} (h : s.isLegible = true) (description : String) :
    (schemaDefinition description).Takes s.lexemes Follows s.Recalls := by
  simp only [SchemaDefinition.isLegible, Bool.and_eq_true, Bool.not_eq_true',
    List.isEmpty_eq_false_iff] at h
  have hroots : roots.Takes (enclosed .braceL .braceR
      (s.roots.map fun r => [.word r.operation.text, .sign .colon, .word r.type])) (noneOf [.braceL])
      (s.roots.Forall₂ fun r r' => (r'.operation, r'.type) = (r.operation, r.type)) := by
    refine takes_some (fun r _ => ?_) (fun r _ => ⟨_, rfl, anything_of _, nofun⟩) (anything_of _)
    refine Takes.peek fun t _ _ _ => (takes_operationType r.operation).cons fun op hop => ?_
    refine (takes_expect (.sign .colon)).cons fun _ _ => (takes_name r.type).bind_pure fun n hn => ?_
    rw [hop, hn]
  have hparts : s.roots.map (fun r => [Lexeme.word r.operation.text, .sign .colon, .word r.type]) ≠ [] := by
    simpa using h.1
  refine (takes_skipOne _).cons fun _ _ => Takes.peek fun t _ _ _ => ?_
  have hnone : (directives true).Takes [] (noneOf [.at_, .parenL])
      (List.Forall₂ Directive.Recalls []) :=
    takes_directives (show ([] : List Directive).all Directive.isLegible = true from rfl)
  rw [← List.nil_append (enclosed _ _ _)]
  refine hnone.bind (fun ds hds => ?_) fun l _ => ?_
  · refine (hroots.mono (fun l hl => hl.noneOf (by decide)) fun _ h => h).bind_pure fun rs hrs => ?_
    exact ⟨List.forall₂_nil_left_iff.1 hds, map_eq_of_forall₂ _ _ hrs fun _ _ _ h => h⟩
  · rw [headD_enclosed_of_ne _ hparts]
    exact noneOf_sign (by decide) _

theorem takes_directiveLocation {n : String} (h : directiveLocations.contains n = true) :
    directiveLocation.Takes [.word n] anything (· = n) := by
  refine (takes_expect (.word n)).cons fun t ht => ?_
  obtain ⟨-, rfl⟩ := of_shows_word ht
  rw [if_pos h]
  exact takes_pure rfl

theorem takes_directiveDefinition {d : DirectiveDefinition} (h : d.isLegible = true)
    {description : String} (hdescription : RecallsDescription d.description description) (w : String) :
    (directiveDefinition false description).Takes (.word w :: .sign .at_ :: .word d.name ::
      (enclosed .parenL .parenR (d.arguments.map ArgumentDefinition.lexemes) ++
      ((if d.repeatable then [.word "repeatable"] else []) ++
        listing (.word "on") .pipe d.locations))) Follows d.Recalls := by
  simp only [DirectiveDefinition.isLegible, Bool.and_eq_true, Bool.not_eq_true',
    List.isEmpty_eq_false_iff, List.all_eq_true] at h
  obtain ⟨⟨⟨-, hargs⟩, hne⟩, hlocations⟩ := h
  have hlisting : listing (.word "on") .pipe d.locations =
      .word "on" :: joined [.sign .pipe] (d.locations.map fun n => [.word n]) := by
    simp [listing, hne]
  refine (takes_skipOne _).cons fun _ _ => (takes_expect (.sign .at_)).cons fun _ _ => ?_
  refine Takes.peek fun t _ _ _ => (takes_name d.name).cons fun _ hname => ?_
  refine (takes_argumentDefinitions (List.all_eq_true.2 hargs)).bind (fun _ has => ?_) fun l _ => ?_
  · have hplaces {f : List String → DirectiveDefinition} (hf : d.Recalls (f d.locations)) : (do
        expectWord "on"
        let locations ← separated .pipe directiveLocation
        return f locations : Reader DirectiveDefinition).Takes
        (listing (.word "on") .pipe d.locations) Follows d.Recalls := by
      rw [hlisting]
      refine (takes_expectWord "on").cons fun _ _ => ?_
      exact ((takes_names hne (fun n hn => takes_directiveLocation (hlocations n hn)) (by decide)).mono
        (fun l hl => hl.noneOf (by decide)) fun _ h => h).bind_pure fun _ hls => hls ▸ hf
    refine Takes.peek fun t l _ ht => ?_
    cases hr : d.repeatable with
    | false =>
      rw [hr, hlisting] at ht
      rw [if_neg (by simp [(of_shows_word ht).2])]
      exact hplaces ⟨hname, hdescription, has, rfl, hr.symm, rfl⟩
    | true =>
      rw [hr] at ht
      rw [if_pos (by simp [of_shows_word ht])]
      exact (takes_skipOne _).cons fun _ _ => hplaces ⟨hname, hdescription, has, rfl, hr.symm, rfl⟩
  · rw [headD_append, hlisting]
    cases d.repeatable <;> exact noneOf_sign (by decide) _

/-! ### Documents -/

def Declares (ls : List Lexeme) (part : TypeSystemDocument) : Prop :=
  (∀ before doc : TypeSystemDocument, before.Recalls doc →
    (declared false doc).Takes ls Follows (before.append part).Recalls) ∧
  ∃ l ∈ ls.head?, Follows l ∧ l.kind ≠ .endOfInput

theorem declares_schema {s : SchemaDefinition} (h : s.isLegible = true) :
    Declares s.lexemes { schemas := [s] } := by
  refine ⟨fun before doc hdoc => ?_, _, rfl, by decide, nofun⟩
  refine Takes.peek fun _ _ _ _ => ?_
  rw [← List.nil_append s.lexemes]
  refine (takes_description "").bind (fun description _ => Takes.peek fun t l _ ht => ?_)
    fun _ _ => noneOf_sign (by decide) _
  obtain ⟨hkind, hvalue⟩ := of_shows_word ht
  rw [if_neg (by simp [hkind]), if_pos hvalue]
  refine (takes_schemaDefinition h description).bind_pure fun s' hs' => ?_
  exact { hdoc with
    schemas := List.rel_append hdoc.schemas (.cons hs' .nil)
    directives := by simpa [TypeSystemDocument.append] using hdoc.directives
    definitions := by simpa [TypeSystemDocument.append] using hdoc.definitions }

theorem declares_directive {d : DirectiveDefinition} (h : d.isLegible = true) :
    Declares d.lexemes { directives := [d] } := by
  refine ⟨fun before doc hdoc => ?_, exists_head?_described _ _ _ nofun nofun⟩
  refine Takes.peek fun _ _ _ _ => ?_
  refine (takes_description d.description).bind
    (fun description hdescription => Takes.peek fun t l _ ht => ?_) fun _ _ => noneOf_sign (by decide) _
  obtain ⟨hkind, hvalue⟩ := of_shows_word ht
  rw [if_neg (by simp [hkind]), if_neg (by rw [hvalue]; decide), if_pos hvalue]
  refine (takes_directiveDefinition h hdescription "directive").bind_pure fun d' hd' => ?_
  exact { hdoc with
    schemas := by simpa [TypeSystemDocument.append] using hdoc.schemas
    directives := List.rel_append hdoc.directives (.cons hd' .nil)
    definitions := by simpa [TypeSystemDocument.append] using hdoc.definitions }

theorem kindOfWord?_keyword {kind : Kind} {w : String} (h : Page.keyword? kind = Option.some w) :
    kindOfWord? w = Option.some kind ∧ w ≠ "schema" ∧ w ≠ "directive" ∧ w ≠ "extend" := by
  cases kind <;> cases h <;> decide

theorem declares_definition {d : Definition} (h : d.isLegible = true) :
    Declares d.lexemes { definitions := [d] } := by
  refine ⟨fun before doc hdoc => ?_, exists_head?_described _ _ _ nofun nofun⟩
  refine Takes.peek fun _ _ _ _ => ?_
  refine (takes_description d.description).bind
    (fun description hdescription => Takes.peek fun t l _ ht => ?_) fun _ _ => noneOf_sign (by decide) _
  obtain ⟨hkind, hvalue⟩ := of_shows_word ht
  obtain ⟨w, hw⟩ := d.exists_keyword (by simp_all [Definition.isLegible])
  obtain ⟨hword, hschema, hdirective, hextend⟩ := kindOfWord?_keyword hw
  rw [hw] at hvalue
  change t.value = w at hvalue
  rw [if_neg (by simp [hkind]), hvalue, if_neg hschema, if_neg hdirective, if_neg hextend, hword]
  refine (takes_definition h hdescription _).bind_pure fun d' hd' => ?_
  exact { hdoc with
    schemas := by simpa [TypeSystemDocument.append] using hdoc.schemas
    directives := by simpa [TypeSystemDocument.append] using hdoc.directives
    definitions := List.rel_append hdoc.definitions (.cons hd' .nil) }

/-- Declarations are read one after the other into a document that recalls them all. -/
theorem takes_typeSystemAt {parts : List (List Lexeme × TypeSystemDocument)}
    (h : ∀ part ∈ parts, Declares part.1 part.2) {fuel : Nat} (hfuel : parts.length < fuel)
    {before doc : TypeSystemDocument} (hdoc : before.Recalls doc) :
    (typeSystemAt false fuel doc).Takes (parts.flatMap (·.1)) (· = .sign .endOfInput)
      (parts.foldl (fun whole part => whole.append part.2) before).Recalls := by
  induction parts generalizing fuel before doc with
  | nil =>
    obtain ⟨n, rfl⟩ : ∃ n, fuel = n + 1 := ⟨fuel - 1, by omega⟩
    refine Takes.peek fun t l hl ht => ?_
    have hkind : t.kind = .endOfInput := ht.1.trans (congrArg Lexeme.kind hl)
    rw [if_pos hkind]
    exact takes_pure hdoc
  | cons part rest ih =>
    obtain ⟨n, rfl⟩ : ∃ n, fuel = n + 1 := ⟨fuel - 1, by omega⟩
    obtain ⟨hdeclared, l, hl, -, hkind⟩ := h part List.mem_cons_self
    rw [List.flatMap_cons]
    refine Takes.peek fun t d _ ht => ?_
    rw [headD_append_of_head? hl] at ht
    rw [if_neg (ht.1 ▸ hkind)]
    refine (hdeclared before doc hdoc).bind (fun doc' hdoc' => ?_) fun d hd => ?_
    · exact ih (fun p hp => h p (List.mem_cons_of_mem part hp)) (Nat.lt_of_succ_lt_succ hfuel) hdoc'
    · cases rest with
      | nil =>
        rw [hd]
        decide
      | cons next rest =>
        obtain ⟨-, k, hk, hfollows, -⟩ := h next (by simp)
        rw [List.flatMap_cons, headD_append_of_head? hk]
        exact hfollows

end OperationGraph.Reader

namespace OperationGraph.TypeSystemDocument

def parts (doc : TypeSystemDocument) : List (List Lexeme × TypeSystemDocument) :=
  doc.schemas.map (fun s => (s.lexemes, { schemas := [s] })) ++
    (doc.directives.map (fun d => (d.lexemes, { directives := [d] })) ++
      doc.definitions.map fun d => (d.lexemes, { definitions := [d] }))

theorem flatMap_lexemes_parts (doc : TypeSystemDocument) : doc.parts.flatMap (·.1) = doc.lexemes := by
  simp [parts, lexemes, List.flatMap_append, List.flatMap_map]

theorem append_assoc (a b c : TypeSystemDocument) :
    (a.append b).append c = a.append (b.append c) := by
  simp [append]

theorem foldl_append_map {α : Type} {lexemes : α → List Lexeme} (whole : List α → TypeSystemDocument)
    (hwhole : ∀ a as, (whole [a]).append (whole as) = whole (a :: as)) (hnil : whole [] = {})
    (as : List α) (before : TypeSystemDocument) :
    (as.map fun a => (lexemes a, whole [a])).foldl (fun doc part => doc.append part.2) before =
      before.append (whole as) := by
  induction as generalizing before with
  | nil => simp [hnil, append]
  | cons a as ih => rw [List.map_cons, List.foldl_cons, ih, append_assoc, hwhole]

/-- The parts of a document that extends nothing make up the document. -/
theorem foldl_append_parts {doc : TypeSystemDocument} (hextensions : doc.extensions = [])
    (hschemas : doc.schemaExtensions = []) :
    doc.parts.foldl (fun whole part => whole.append part.2) {} = doc := by
  obtain ⟨ss, es, ds, ts, xs⟩ := doc
  obtain rfl : es = [] := hschemas
  obtain rfl : xs = [] := hextensions
  simp only [parts, List.foldl_append]
  rw [foldl_append_map (fun ss => { schemas := ss }) (fun _ _ => rfl) rfl,
    foldl_append_map (fun ds => { directives := ds }) (fun _ _ => rfl) rfl,
    foldl_append_map (fun ts => { definitions := ts }) (fun _ _ => rfl) rfl]
  simp [append]

/-- A text that is scanned as the lexemes of a legible document is read as a document that recalls it. -/
theorem exists_parse_of_reads {doc : TypeSystemDocument} {name text : String}
    (h : doc.isLegible = true) (hextensions : doc.extensions = [])
    (hschemas : doc.schemaExtensions = [])
    (hreads : Scan.Reads text.toList (doc.lexemes ++ [.sign .endOfInput])) :
    ∃ doc', parse { name, text } = .ok doc' ∧ doc.Recalls doc' := by
  simp only [isLegible, Bool.and_eq_true, List.all_eq_true] at h
  obtain ⟨⟨hlegibleSchemas, hlegibleDirectives⟩, hlegibleDefinitions⟩ := h
  have hparts : ∀ part ∈ doc.parts, Reader.Declares part.1 part.2 := by
    intro part hpart
    simp only [parts, List.mem_append, List.mem_map] at hpart
    rcases hpart with ⟨s, hs, rfl⟩ | ⟨d, hd, rfl⟩ | ⟨d, hd, rfl⟩
    · exact Reader.declares_schema (hlegibleSchemas s hs)
    · exact Reader.declares_directive (hlegibleDirectives d hd)
    · exact Reader.declares_definition (hlegibleDefinitions d hd)
  have htokens := hreads name (text.toList.length + 1) {} (Nat.lt_succ_self _)
  rw [← doc.flatMap_lexemes_parts] at htokens
  have hlength : doc.parts.length < (Source.tokens { name, text }).length + 1 := by
    have hle := Reader.length_le_length_flatMap fun part hpart => (hparts part hpart).2
    have hcount := htokens.length_eq
    rw [List.length_append] at hcount
    exact Nat.lt_succ_of_le (Nat.le_trans hle (hcount ▸ Nat.le_add_right _ _))
  have hnone : Recalls {} {} := ⟨.nil, rfl, .nil, .nil, rfl⟩
  obtain ⟨doc', ts', hrun, -, hdoc⟩ := Reader.takes_typeSystemAt hparts hlength hnone
    (Source.tokens { name, text }) [.sign .endOfInput] htokens rfl
  rw [foldl_append_parts hextensions hschemas] at hdoc
  refine ⟨doc', ?_, hdoc⟩
  change (·.1) <$> Reader.typeSystemAt false ((Source.tokens { name, text }).length + 1) {}
    (Source.tokens { name, text }) = _
  rw [hrun]
  rfl

end OperationGraph.TypeSystemDocument
