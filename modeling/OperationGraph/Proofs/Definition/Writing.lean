import OperationGraph.Proofs.Definition.Page

/-! # Writing declarations

Every part of a legible document is written as its lexemes, so the text of the document is scanned as the
lexemes of the document (`TypeSystemDocument.exists_page`). -/

namespace OperationGraph

open Scan

/-! ### Names, types and values -/

theorem piece_nameText {n : String} (h : isNameText n = true) : Piece n.toList [.word n] := by
  simpa using piece_name h

theorem piece_intercalate {α : Type} {t : α → String} {f : α → List Lexeme} {separator : String}
    {ks : List Lexeme} (hseparator : Closed separator.toList ks) (hbegins : Begins separator.toList)
    {xs : List α} (h : ∀ a ∈ xs, Piece (t a).toList (f a)) :
    Piece (separator.intercalate (xs.map t)).toList (joined ks (xs.map f)) := by
  rw [String.toList_intercalate]
  induction xs with
  | nil => exact closed_nil.piece
  | cons a rest ih =>
    have ha := h a List.mem_cons_self
    cases rest with
    | nil => simpa [joined, List.intercalate] using ha
    | cons b rest =>
      have hrest := ih fun c hc => h c (List.mem_cons_of_mem a hc)
      simpa [joined, List.intercalate] using
        ha.append (hseparator.append_piece hrest) (hbegins.append _)

theorem edged_intercalate {names : List String} (hne : names ≠ [])
    (h : ∀ n ∈ names, isNameText n = true) (separator : String) :
    Text.Edged (separator.intercalate names).toList := by
  rw [String.toList_intercalate]
  induction names with
  | nil => exact absurd rfl hne
  | cons n rest ih =>
    have hn : Text.Edged n.toList := Text.edged_of_isName (h n List.mem_cons_self)
    cases rest with
    | nil => simpa [List.intercalate] using hn
    | cons m rest =>
      have hrest := ih (List.cons_ne_nil m rest) fun k hk => h k (List.mem_cons_of_mem n hk)
      simpa [List.intercalate] using hn.append separator.toList hrest

theorem piece_bang {cs : List Char} {ls : List Lexeme} (h : Piece cs ls) (nonNull : Bool) :
    Piece (cs ++ (if nonNull then "!" else "").toList) (ls ++ bangLexemes nonNull) := by
  cases nonNull with
  | false => simpa [bangLexemes] using h
  | true => exact (h.append_closed (closed_sign rfl) ⟨'!', rfl, by decide⟩).piece

namespace TypeExpr

theorem piece_text {t : TypeExpr} (h : t.isLegible = true) : Piece t.text.toList t.lexemes := by
  induction t with
  | named n b _ =>
    rw [text, String.toList_append]
    exact piece_bang (piece_nameText h) b
  | list e b _ ih =>
    have hopen : Closed ['['] [.sign .bracketL] := closed_sign rfl
    have hclose : Closed [']'] [.sign .bracketR] := closed_sign rfl
    have hlist := ((hopen.append_piece (ih h)).append_closed hclose ⟨']', rfl, by decide⟩).piece
    have htext := piece_bang hlist b
    simpa [text, lexemes] using htext

theorem edged_text {t : TypeExpr} (h : t.isLegible = true) : Text.Edged t.text.toList := by
  have hbang {cs : List Char} (hcs : Text.Edged cs) (nonNull : Bool) :
      Text.Edged (cs ++ (if nonNull then "!" else "").toList) := by
    cases nonNull with
    | false => simpa using hcs
    | true => exact hcs.append [] ⟨⟨'!', rfl, by decide⟩, '!', rfl, by decide⟩
  cases t with
  | named n b _ =>
    rw [text, String.toList_append]
    exact hbang (Text.edged_of_isName h) b
  | list e b _ =>
    have hopen : Text.Edged ['['] := ⟨⟨'[', rfl, by decide⟩, '[', rfl, by decide⟩
    have hclose : Text.Edged [']'] := ⟨⟨']', rfl, by decide⟩, ']', rfl, by decide⟩
    simpa [text] using hbang (hopen.append e.text.toList hclose) b

end TypeExpr

namespace Literal

theorem toList_quoted (s : String) :
    (Text.quoted s).toList = '"' :: s.toList.flatMap Text.quotedChar ++ ['"'] := by
  simp [Text.quoted]

theorem piece_notationText {l : Literal} (h : l.isLegible = true) :
    Piece l.notationText.toList l.lexemes := by
  have hcomma : Closed ",".toList [] := closed_space (by decide)
  have hbegins : Begins ",".toList := ⟨',', rfl, by decide⟩
  induction l using induction_on with
  | atom l hlist hobject =>
    cases l with
    | «variable» n => cases h
    | int r => simpa [notationText, lexemes] using piece_number h
    | float r => simpa [notationText, lexemes] using piece_number h
    | string s =>
      rw [notationText, toList_quoted]
      simpa [lexemes] using piece_quoted (List.all_eq_true.1 h)
    | block s =>
      rw [notationText, toList_quoted]
      simpa [lexemes] using piece_quoted (List.all_eq_true.1 h)
    | boolean b => cases b <;> exact piece_nameText (by decide)
    | null => exact piece_nameText (by decide)
    | enum n => exact piece_nameText h
    | list items => exact absurd rfl (hlist items)
    | object fields => exact absurd rfl (hobject fields)
  | list items ih =>
    have hitems : Piece (",".intercalate (items.map notationText)).toList
        (joined [] (items.map lexemes)) :=
      piece_intercalate hcomma hbegins fun l hl => ih l hl (itemsLegible_iff.1 h l hl)
    have hopen : Closed ['['] [.sign .bracketL] := closed_sign rfl
    have hclose : Closed [']'] [.sign .bracketR] := closed_sign rfl
    have hlist := ((hopen.append_piece hitems).append_closed hclose ⟨']', rfl, by decide⟩).piece
    simpa [notationText, lexemes, itemTexts_eq, itemLexemes_eq, joined_nil] using hlist
  | object fields ih =>
    have hfields : Piece (",".intercalate (fields.map fun f => f.1 ++ ":" ++ f.2.notationText)).toList
        (joined [] (fields.map fun f => .word f.1 :: .sign .colon :: f.2.lexemes)) := by
      refine piece_intercalate hcomma hbegins fun f hf => ?_
      obtain ⟨hname, hvalue⟩ := fieldsLegible_iff.1 h f hf
      have hcolon : Closed [':'] [.sign .colon] := closed_sign rfl
      have hlabel := (piece_nameText hname).append_closed hcolon ⟨':', rfl, by decide⟩
      simpa using hlabel.append_piece (ih f hf hvalue)
    have hopen : Closed ['{'] [.sign .braceL] := closed_sign rfl
    have hclose : Closed ['}'] [.sign .braceR] := closed_sign rfl
    have hobject := ((hopen.append_piece hfields).append_closed hclose ⟨'}', rfl, by decide⟩).piece
    simpa [notationText, lexemes, fieldTexts_eq, fieldLexemes_eq, joined_nil] using hobject

end Literal

namespace Page

section
variable {p : Page} {ls ks : List Lexeme}

/-! ### Parts of declarations -/

theorem Open.name {n : String} (h : Open p ls) (hn : isNameText n = true) :
    Open (p.word n) (ls ++ [.word n]) := by
  refine h.word ?_
  rw [Text.trimBlanks_of_edged (Text.edged_of_isName hn)]
  exact piece_nameText hn

theorem Open.label {n : String} (h : Open p ls) (hn : isNameText n = true) :
    Open (p.label n) (ls ++ [.word n, .sign .colon]) := by
  have hcolon : Closed ":".toList [.sign .colon] := closed_sign rfl
  have hlabel := ((h.name hn).noPad.sign hcolon ⟨':', rfl, by decide⟩).needPad
  simpa [Page.label] using hlabel

theorem staysInside_indented {line : List Char} (h : staysInside line = true) (n : Nat) :
    staysInside (BlockText.indented n line) = true := by
  induction n with
  | zero => exact h
  | succ n ih => simpa [BlockText.indented, List.replicate_succ, staysInside] using ih

/-- A description on indented lines between its quotes. -/
theorem closed_description {s : String} (hempty : s ≠ "") (hs : isLegibleDescription s = true)
    (n : Nat) :
    Closed ('"' :: '"' :: '"' ::
        ([] :: (Text.splitAt '\n' s.toList).map (BlockText.indented n)).flatMap (· ++ ['\n']) ++
      (List.replicate n '\t' ++ ['"', '"', '"', '\n'])) (descriptionLexemes s) := by
  have hlines : ∀ l ∈ [] :: (Text.splitAt '\n' s.toList).map (BlockText.indented n),
      staysInside l = true := by
    rintro l (_ | ⟨_, hl⟩)
    · rfl
    · obtain ⟨line, hline, rfl⟩ := List.mem_map.1 hl
      have hinside := List.all_eq_true.1 hs (String.ofList line) (List.mem_map_of_mem hline)
      rw [String.toList_ofList] at hinside
      exact staysInside_indented hinside n
  have hblock := closed_block hlines n
  rw [descriptionLexemes, if_neg hempty]
  by_cases hsettled : isSettledDescription s = true
  · have hlines : BlockText.isSettled (Text.splitAt '\n' s.toList) = true := by
      simpa [isSettledDescription, hempty] using hsettled
    rw [BlockText.value_indented hlines fun _ => Text.not_mem_of_mem_splitAt, BlockText.join,
      Text.intercalate_splitAt, String.ofList_toList] at hblock
    rwa [if_pos hsettled]
  · rw [if_neg hsettled]
    exact fun rest ls' hrest => (hblock rest ls' hrest).leaveOpen

/-- Lines that are written one by one are indented alike. -/
theorem text_each_line (lines : List String) (hhead : p.lineHead = true) :
    (p.each (fun line p => (p.sign line).newLine) lines).text.toList =
        p.text.toList ++ lines.flatMap (fun l => List.replicate p.indent '\t' ++ l.toList ++ ['\n']) ∧
      (p.each (fun line p => (p.sign line).newLine) lines).gap = List.replicate p.indent '\t' := by
  induction lines generalizing p with
  | nil => simp [each, gap, hhead]
  | cons line rest ih =>
    have hgap : p.gap = List.replicate p.indent '\t' := by simp [gap, hhead]
    have hindent : (p.sign line).newLine.indent = p.indent := indent_begin_blank p
    obtain ⟨htext, hgap'⟩ := ih (p := (p.sign line).newLine) rfl
    rw [hindent] at htext hgap'
    refine ⟨htext.trans ?_, hgap'⟩
    simp [hgap]

theorem Open.description {s : String} (h : Open p ls) (hs : isLegibleDescription s = true) :
    Open (p.description s) (ls ++ descriptionLexemes s) := by
  by_cases hempty : s = ""
  · simpa [Page.description, descriptionLexemes, hempty] using h
  · have hclosed := h.closed.append (closed_description hempty hs p.indent)
    have hindent : (p.sign "\"\"\"").newLine.indent = p.indent := indent_begin_blank p
    obtain ⟨htext, hgap⟩ :=
      text_each_line (p := (p.sign "\"\"\"").newLine) (Text.split '\n' s) rfl
    rw [hindent, Text.split] at htext hgap
    rw [List.flatMap_map] at htext
    have hpage : Closed (p.description s).text.toList (ls ++ descriptionLexemes s) := by
      simpa [Page.description, hempty, htext, hgap, Text.split, List.flatMap_map, BlockText.indented]
        using hclosed
    exact { text := hpage.piece, head := fun _ => hpage, pad := fun _ => hpage }

/-- Elements after an opening parenthesis. -/
theorem Written.group {α : Type} {write between : α → Page → Page} {f : α → List Lexeme}
    {xs : List α} (h : Written p ls) (hne : xs ≠ [])
    (hxs : ∀ a ∈ xs, ∀ p ls, Open p ls →
      Written (write a p) (ls ++ f a) ∧ Open (between a (write a p)) (ls ++ f a)) :
    Written ((p.sign "(").eachBetween write between xs) (ls ++ .sign .parenL :: xs.flatMap f) := by
  have hparen : Closed "(".toList [.sign .parenL] := closed_sign rfl
  have hopen := h.sign hparen ⟨'(', rfl, by decide⟩
  have hgroup : Written ((p.sign "(").eachBetween write between xs)
      (ls ++ [.sign .parenL] ++ joined [] (xs.map f)) :=
    eachBetween_induction (Q := Open) hne (fun a ha p ls hp => by simpa using hxs a ha p ls hp) hopen
  simpa [joined_nil] using hgroup

theorem Written.directive {d : Directive} (h : Written p ls) (hd : d.isLegible = true) :
    Open (p.directive d) (ls ++ .sign .at_ :: d.lexemes) := by
  simp only [Directive.isLegible, Bool.and_eq_true, List.all_eq_true] at hd
  have hat : Closed "@".toList [.sign .at_] := closed_sign rfl
  have hclose : Closed ")".toList [.sign .parenR] := closed_sign rfl
  have hname := (h.sign hat ⟨'@', rfl, by decide⟩).name hd.1
  by_cases hempty : d.arguments = []
  · simpa [Page.directive, Directive.lexemes, hempty, enclosed] using hname
  · have hargs : Written ((((p.sign "@").word d.name).noPad.sign "(").eachBetween
        (fun a p => (p.label a.name).sign a.value.notationText) (fun _ => Page.comma) d.arguments)
        (ls ++ [.sign .at_] ++ [.word d.name] ++
          .sign .parenL :: d.arguments.flatMap Argument.lexemes) := by
      refine hname.noPad.group hempty fun a ha p ls hp => ?_
      have hlegible := hd.2 a ha
      rw [Argument.isLegible, Bool.and_eq_true] at hlegible
      have hvalue : Written ((p.label a.name).sign a.value.notationText) (ls ++ a.lexemes) := by
        simpa [Argument.lexemes] using
          (hp.label hlegible.1).value (Literal.piece_notationText hlegible.2)
      exact ⟨hvalue, hvalue.comma⟩
    have hpage := (hargs.sign hclose ⟨')', rfl, by decide⟩).needPad
    simpa [Page.directive, Directive.lexemes, hempty, enclosed_map hempty] using hpage

theorem Written.directives {ds : List Directive} (h : Written p ls)
    (hds : ds.all Directive.isLegible = true) :
    Written (p.each Page.directive ds) (ls ++ Directive.listLexemes ds) := by
  refine each_induction (Q := Written) (fun d hd p ls hp => ?_) h
  exact (hp.directive (List.all_eq_true.1 hds d hd)).toWritten

theorem Open.directives {ds : List Directive} (h : Open p ls)
    (hds : ds.all Directive.isLegible = true) :
    Open (p.each directive ds) (ls ++ Directive.listLexemes ds) := by
  refine each_induction (Q := Open) (fun d hd p ls hp => ?_) h
  exact hp.toWritten.directive (List.all_eq_true.1 hds d hd)

theorem Open.type {t : TypeExpr} (h : Open p ls) (ht : t.isLegible = true) :
    Open (p.word t.text) (ls ++ t.lexemes) := by
  refine h.word ?_
  rw [Text.trimBlanks_of_edged (TypeExpr.edged_text ht)]
  exact TypeExpr.piece_text ht

/-- A sign that is written as a word, with blanks around it. -/
theorem Open.spaced {w : String} (h : Open p ls) (htrim : Text.trimBlanks w = w)
    (hw : Closed w.toList ks) : Open (p.word w) (ls ++ ks) :=
  h.word (htrim.symm ▸ hw.piece)

theorem Open.equals (h : Open p ls) : Open (p.word "=") (ls ++ [.sign .equals]) :=
  h.spaced (by decide) (closed_sign rfl)

theorem Open.defaultValue {v : Option Literal} (h : Open p ls) (hv : v.all Literal.isLegible = true) :
    Written (p.defaultValue v) (ls ++ defaultLexemes v) := by
  cases v with
  | none => simpa [Page.defaultValue, defaultLexemes] using h.toWritten
  | some l =>
    simpa [Page.defaultValue, defaultLexemes] using h.equals.value (Literal.piece_notationText hv)

/-- After an argument with a description a new line begins, so no comma is due. -/
theorem Open.argument {a : ArgumentDefinition} (h : Open p ls) (ha : a.isLegible = true) :
    Written (p.argument a) (ls ++ a.lexemes) ∧
      Open (if a.description = "" then (p.argument a).comma else p.argument a) (ls ++ a.lexemes) := by
  simp only [ArgumentDefinition.isLegible, Bool.and_eq_true] at ha
  obtain ⟨⟨⟨⟨hdescription, hname⟩, htype⟩, hdefault⟩, hdirectives⟩ := ha
  have hrest {q : Page} {ks : List Lexeme} (hq : Open q ks) :
      Open ((((q.label a.name).word a.type.text).defaultValue a.default).needPad.each directive
        a.directives) (ks ++ .word a.name :: .sign .colon ::
          (a.type.lexemes ++ (defaultLexemes a.default ++ Directive.listLexemes a.directives))) := by
    simpa using
      (((hq.label hname).type htype).defaultValue hdefault).needPad.directives hdirectives
  by_cases hempty : a.description = ""
  · have hpage : Open (p.argument a) (ls ++ a.lexemes) := by
      simpa [Page.argument, ArgumentDefinition.lexemes, descriptionLexemes, hempty] using hrest h
    rw [if_pos hempty]
    exact ⟨hpage.toWritten, hpage.toWritten.comma⟩
  · have hpage : Open (p.argument a) (ls ++ a.lexemes) := by
      simpa [Page.argument, ArgumentDefinition.lexemes, hempty] using
        (hrest (h.newLine.indentMore.description hdescription)).indentLess.newLine
    rw [if_neg hempty]
    exact ⟨hpage.toWritten, hpage⟩

theorem Written.arguments {args : List ArgumentDefinition} (h : Written p ls) (hne : args ≠ [])
    (hargs : args.all ArgumentDefinition.isLegible = true) :
    Open (p.arguments args)
      (ls ++ enclosed .parenL .parenR (args.map ArgumentDefinition.lexemes)) := by
  have hclose : Closed ")".toList [.sign .parenR] := closed_sign rfl
  have hgroup : Written ((p.sign "(").eachBetween argument
      (fun a p => if a.description = "" then p.comma else p) args)
      (ls ++ .sign .parenL :: args.flatMap ArgumentDefinition.lexemes) :=
    h.group hne fun a ha p ls hp => hp.argument (List.all_eq_true.1 hargs a ha)
  have hpage := (hgroup.noPad.sign hclose ⟨')', rfl, by decide⟩).needPad
  simpa [Page.arguments, hne, enclosed_map hne] using hpage

theorem Open.field {f : FieldDefinition} (h : Open p ls) (hf : f.isLegible = true)
    (hshown : f.isShown = true) : Open (p.field f) (ls ++ f.lexemes) := by
  simp only [FieldDefinition.isLegible, Bool.and_eq_true] at hf
  obtain ⟨⟨⟨⟨⟨hdescription, hname⟩, hargs⟩, htype⟩, hdefault⟩, hdirectives⟩ := hf
  have hreserved : "__".isPrefixOf f.name = false := by
    simpa [FieldDefinition.isShown] using hshown
  have hcolon : Closed ":".toList [.sign .colon] := closed_sign rfl
  have hlabel : Written (((((p.description f.description).word f.name).noPad).arguments f.arguments))
      (ls ++ descriptionLexemes f.description ++ [.word f.name] ++
        enclosed .parenL .parenR (f.arguments.map ArgumentDefinition.lexemes)) := by
    have hnamed := ((h.description hdescription).name hname).noPad
    by_cases hempty : f.arguments = []
    · simpa [Page.arguments, enclosed, hempty] using hnamed
    · exact (hnamed.arguments hempty hargs).toWritten
  have hpage := (((hlabel.noPad.sign hcolon ⟨':', rfl, by decide⟩).needPad.type htype).defaultValue
    hdefault).directives hdirectives
  simpa [Page.field, hreserved, FieldDefinition.lexemes] using hpage.newLine

theorem Open.enumValue {v : EnumValueDefinition} (h : Open p ls) (hv : v.isLegible = true) :
    Open (p.enumValue v) (ls ++ v.lexemes) := by
  simp only [EnumValueDefinition.isLegible, Bool.and_eq_true] at hv
  obtain ⟨⟨hdescription, hname⟩, hdirectives⟩ := hv
  simpa [Page.enumValue, EnumValueDefinition.lexemes] using
    (((h.description hdescription).name hname).directives hdirectives).newLine

theorem Open.block {α : Type} {write : α → Page → Page} {f : α → List Lexeme} {xs : List α}
    (h : Open p ls) (hne : xs ≠ [])
    (hxs : ∀ a ∈ xs, ∀ p ls, Open p ls → Open (write a p) (ls ++ f a)) :
    Open (p.block write xs) (ls ++ .sign .braceL :: (xs.flatMap f ++ [.sign .braceR])) := by
  have hopen : Closed "\x7b".toList [.sign .braceL] := closed_sign rfl
  have hclose : Closed "\x7d".toList [.sign .braceR] := closed_sign rfl
  have heach := each_induction (Q := Open) hxs (h.sign hopen).newLine.indentMore
  simpa [Page.block, hne] using heach.indentLess.sign hclose

theorem flatMap_filter {α β : Type} (q : α → Bool) (f : α → List β) (xs : List α) :
    (xs.filter q).flatMap f = xs.flatMap fun a => if q a then f a else [] := by
  induction xs with
  | nil => rfl
  | cons a rest ih => cases ha : q a <;> simp [ha, ih]

/-- Fields that are not shown leave no trace. -/
theorem Open.fields {fs : List FieldDefinition} (h : Open p ls)
    (hshown : fs ≠ [] → fs.filter FieldDefinition.isShown ≠ [])
    (hfs : fs.all FieldDefinition.isLegible = true) :
    Open (p.block Page.field fs) (ls ++ enclosed .braceL .braceR
      ((fs.filter FieldDefinition.isShown).map FieldDefinition.lexemes)) := by
  by_cases hempty : fs = []
  · simpa [Page.block, enclosed, hempty] using h
  · rw [enclosed_map (hshown hempty), flatMap_filter]
    refine h.block hempty fun f hf p ls hp => ?_
    by_cases hf' : f.isShown = true
    · simpa [hf'] using hp.field (List.all_eq_true.1 hfs f hf) hf'
    · have hreserved : "__".isPrefixOf f.name = true := by
        simpa [FieldDefinition.isShown] using hf'
      simpa [hf', Page.field, hreserved] using hp

theorem Open.values {vs : List EnumValueDefinition} (h : Open p ls)
    (hvs : vs.all EnumValueDefinition.isLegible = true) :
    Open (p.block Page.enumValue vs)
      (ls ++ enclosed .braceL .braceR (vs.map EnumValueDefinition.lexemes)) := by
  by_cases hempty : vs = []
  · simpa [Page.block, enclosed, hempty] using h
  · rw [enclosed_map hempty]
    exact h.block hempty fun v hv p ls hp => hp.enumValue (List.all_eq_true.1 hvs v hv)

/-! ### Declarations -/

theorem closed_spaced {c : Char} {kind : TokenKind} (h : TokenKind.ofPunctuation? c = some kind) :
    Closed [' ', c, ' '] [.sign kind] :=
  have hspace : Closed [' '] [] := closed_space (by decide)
  (hspace.append (closed_sign h)).append hspace

/-- Names in one word, with a sign between blanks as separator. -/
theorem Open.names {names : List String} {separator : String} {kind : TokenKind} (h : Open p ls)
    (hne : names ≠ []) (hnames : names.all isNameText = true)
    (hseparator : Closed separator.toList [.sign kind]) (hbegins : Begins separator.toList) :
    Open (p.word (separator.intercalate names))
      (ls ++ joined [.sign kind] (names.map fun n => [.word n])) := by
  rw [List.all_eq_true] at hnames
  refine h.word ?_
  rw [Text.trimBlanks_of_edged (edged_intercalate hne hnames separator)]
  have hpiece := piece_intercalate (t := id) hseparator hbegins fun n hn => piece_nameText (hnames n hn)
  simpa using hpiece

theorem Open.interfaces {names : List String} (h : Open p ls) (hnames : names.all isNameText = true) :
    Open (if names.isEmpty then p else (p.word "implements").word (" & ".intercalate names))
      (ls ++ listing (.word "implements") .amp names) := by
  by_cases hempty : names = []
  · simpa [listing, hempty] using h
  · have hamp : Closed " & ".toList [.sign .amp] := closed_spaced rfl
    have hwords := (h.name (n := "implements") (by decide)).names hempty hnames hamp
      ⟨' ', rfl, by decide⟩
    simpa [listing, hempty] using hwords

theorem Open.members {names : List String} (h : Open p ls) (hnames : names.all isNameText = true) :
    Open (if names.isEmpty then p else (p.word "=").word (" | ".intercalate names))
      (ls ++ listing (.sign .equals) .pipe names) := by
  by_cases hempty : names = []
  · simpa [listing, hempty] using h
  · have hpipe : Closed " | ".toList [.sign .pipe] := closed_spaced rfl
    simpa [listing, hempty] using h.equals.names hempty hnames hpipe ⟨' ', rfl, by decide⟩

theorem isNameText_keyword {kind : Kind} {w : String} (h : keyword? kind = some w) :
    isNameText w = true := by
  cases kind <;> cases h <;> decide

theorem Open.definition {d : Definition} (h : Open p ls) (hd : d.isLegible = true) :
    Open (p.definition d) (ls ++ d.lexemes) := by
  simp only [Definition.isLegible, Bool.and_eq_true] at hd
  obtain ⟨⟨⟨⟨⟨⟨⟨hkind, hdescription⟩, hname⟩, hinterfaces⟩, hdirectives⟩, hmembers⟩, hfields⟩, hvalues⟩ :=
    hd
  obtain ⟨w, hw⟩ := d.exists_keyword hkind
  have hpage := ((((((((h.description hdescription).name (isNameText_keyword hw)).name hname).interfaces
    hinterfaces).directives hdirectives).members hmembers).fields (d.shownFields_ne_nil hkind) hfields).values hvalues)
  simpa [Page.definition, Definition.lexemes, hw, Definition.shownFields] using hpage.newLine

theorem isNameText_of_location {l : String} (h : directiveLocations.contains l = true) :
    isNameText l = true := by
  have hall : ∀ l ∈ directiveLocations, isNameText l = true := by decide
  exact hall l (by simpa using h)

theorem Open.directiveDefinition {d : DirectiveDefinition} (h : Open p ls) (hd : d.isLegible = true) :
    Open (p.directiveDefinition d) (ls ++ d.lexemes) := by
  simp only [DirectiveDefinition.isLegible, Bool.and_eq_true, Bool.not_eq_true',
    List.isEmpty_eq_false_iff] at hd
  obtain ⟨⟨⟨⟨hdescription, hname⟩, hargs⟩, hne⟩, hlocations⟩ := hd
  have hat : Closed "@".toList [.sign .at_] := closed_sign rfl
  have hnamed := (((h.description hdescription).name (n := "directive") (by decide)).sign hat).name hname
  have harguments : Open (if d.arguments.isEmpty then
        (((p.description d.description).word "directive").sign "@").word d.name
      else ((((p.description d.description).word "directive").sign "@").word d.name).noPad.arguments
        d.arguments)
      (ls ++ descriptionLexemes d.description ++ [.word "directive"] ++ [.sign .at_] ++ [.word d.name] ++
        enclosed .parenL .parenR (d.arguments.map ArgumentDefinition.lexemes)) := by
    by_cases hempty : d.arguments = []
    · simpa [enclosed, hempty] using hnamed
    · simpa [hempty] using hnamed.noPad.arguments hempty hargs
  have hrepeatable {q : Page} {ks : List Lexeme} (hq : Open q ks) :
      Open (if d.repeatable then q.word "repeatable" else q)
        (ks ++ if d.repeatable then [.word "repeatable"] else []) := by
    cases d.repeatable with
    | false => simpa using hq
    | true => exact hq.name (by decide)
  have hplaces {q : Page} {ks : List Lexeme} (hq : Open q ks) :
      Open ((q.word "on").eachBetween Page.word (fun _ => Page.word "|") d.locations)
        (ks ++ [.word "on"] ++ joined [.sign .pipe] (d.locations.map fun n => [.word n])) := by
    refine eachBetween_induction (Q := Open) hne (fun l hl p ls hp => ?_) (hq.name (by decide))
    have hlocation := hp.name (isNameText_of_location (List.all_eq_true.1 hlocations l hl))
    exact ⟨hlocation, hlocation.spaced (by decide) (closed_sign rfl)⟩
  have hpage := (hplaces (hrepeatable harguments)).newLine
  simpa [Page.directiveDefinition, DirectiveDefinition.lexemes, listing, hne] using hpage

theorem Open.schemaDefinition {s : SchemaDefinition} (h : Open p ls) (hs : s.isLegible = true) :
    Open (p.schemaDefinition s) (ls ++ s.lexemes) := by
  simp only [SchemaDefinition.isLegible, Bool.and_eq_true, Bool.not_eq_true',
    List.isEmpty_eq_false_iff, List.all_eq_true] at hs
  have hroots : Open ((p.word "schema").block
      (fun (r : RootDefinition) p => ((p.label r.operation.text).word r.type).newLine) s.roots)
      (ls ++ [.word "schema"] ++ .sign .braceL :: (s.roots.flatMap (fun r =>
        [.word r.operation.text, .sign .colon, .word r.type]) ++ [.sign .braceR])) := by
    refine (h.name (by decide)).block hs.1 fun r hr p ls hp => ?_
    have hoperation : isNameText r.operation.text = true := by cases r.operation <;> decide
    simpa using ((hp.label hoperation).name (hs.2 r hr)).newLine
  simpa [Page.block, Page.schemaDefinition, SchemaDefinition.lexemes, enclosed_map hs.1, hs.1] using
    hroots.newLine

end

/-! ### Documents -/

/-- The text of a page does not end with a line feed. -/
def Tidy (p : Page) : Prop := ∃ c ∈ p.text.toList.getLast?, c ≠ '\n'

theorem tidy_word {w : String} (h : Text.Edged w.toList) (p : Page) : Tidy (p.word w) := by
  obtain ⟨c, hc, hblank⟩ := h.2
  refine ⟨c, ?_, ?_⟩
  · rw [text_word, Text.trimBlanks_of_edged h, List.getLast?_append, Option.mem_def.1 hc]
    rfl
  · rintro rfl
    cases hblank

theorem tidy_sign {s : String} (h : ∃ c ∈ s.toList.getLast?, c ≠ '\n') (p : Page) :
    Tidy (p.sign s) := by
  obtain ⟨c, hc, hfeed⟩ := h
  refine ⟨c, ?_, hfeed⟩
  rw [text_sign, List.getLast?_append, Option.mem_def.1 hc]
  rfl

theorem tidy_directive {d : Directive} (h : d.isLegible = true) (p : Page) :
    Tidy (p.directive d) := by
  rw [Directive.isLegible, Bool.and_eq_true] at h
  unfold directive
  split
  · exact tidy_word (Text.edged_of_isName h.1) _
  · exact tidy_sign ⟨')', rfl, by decide⟩ _

theorem Tidy.directives {ds : List Directive} {p : Page} (h : Tidy p)
    (hds : ds.all Directive.isLegible = true) : Tidy (p.each directive ds) := by
  refine List.foldlRecOn (motive := Tidy) ds _ h fun q _ d hd => ?_
  exact tidy_directive (List.all_eq_true.1 hds d hd) q

theorem Tidy.block {α : Type} {p : Page} (h : Tidy p) (write : α → Page → Page) (xs : List α) :
    Tidy (p.block write xs) := by
  unfold Page.block
  split
  · exact h
  · exact tidy_sign ⟨'}', rfl, by decide⟩ _

/-- The text of a page ends with one line feed, or is empty. -/
def EndsLine (p : Page) : Prop := p = {} ∨ ∃ q, p = q.newLine ∧ Tidy q

theorem endsLine_definition {d : Definition} (h : d.isLegible = true) (p : Page) :
    EndsLine (p.definition d) := by
  simp only [Definition.isLegible, Bool.and_eq_true] at h
  obtain ⟨⟨⟨⟨⟨⟨⟨hkind, -⟩, hname⟩, hinterfaces⟩, hdirectives⟩, hmembers⟩, -⟩, -⟩ := h
  obtain ⟨w, hw⟩ := d.exists_keyword hkind
  refine .inr ⟨_, rfl, ?_⟩
  refine Tidy.block (Tidy.block ?_ field d.fields) enumValue d.values
  simp only [hw]
  split
  · refine Tidy.directives ?_ hdirectives
    split
    · exact tidy_word (Text.edged_of_isName hname) _
    · next hne => exact tidy_word (edged_intercalate (by simpa using hne) (List.all_eq_true.1 hinterfaces) _) _
  · next hne => exact tidy_word (edged_intercalate (by simpa using hne) (List.all_eq_true.1 hmembers) _) _

theorem tidy_eachBetween {names : List String} (hne : names ≠ [])
    (h : ∀ n ∈ names, isNameText n = true) (between : String → Page → Page) (p : Page) :
    Tidy (p.eachBetween word between names) := by
  induction names generalizing p with
  | nil => exact absurd rfl hne
  | cons n rest ih =>
    cases rest with
    | nil => exact tidy_word (Text.edged_of_isName (h n List.mem_cons_self)) p
    | cons m rest =>
      exact ih (List.cons_ne_nil m rest) (fun k hk => h k (List.mem_cons_of_mem n hk)) _

theorem endsLine_directiveDefinition {d : DirectiveDefinition} (h : d.isLegible = true) (p : Page) :
    EndsLine (p.directiveDefinition d) := by
  simp only [DirectiveDefinition.isLegible, Bool.and_eq_true, Bool.not_eq_true',
    List.isEmpty_eq_false_iff, List.all_eq_true] at h
  refine .inr ⟨_, rfl, ?_⟩
  rw [if_neg (by simpa using h.1.2)]
  exact tidy_eachBetween h.1.2 (fun l hl => isNameText_of_location (h.2 l hl)) _ _

theorem endsLine_schemaDefinition (s : SchemaDefinition) (p : Page) :
    EndsLine (p.schemaDefinition s) :=
  .inr ⟨_, rfl, tidy_sign ⟨'}', rfl, by decide⟩ _⟩

theorem EndsLine.pad_eq {p : Page} (h : EndsLine p) : p.pad = false := by
  rcases h with rfl | ⟨q, rfl, -⟩ <;> rfl

/-- Declarations are written as these lexemes, and the last of them ends its line. -/
structure Complete (p : Page) (ls : List Lexeme) : Prop extends Open p ls where
  line : EndsLine p

section
variable {p : Page} {ls : List Lexeme}

theorem Complete.schemas {ss : List SchemaDefinition} (h : Complete p ls)
    (hss : ∀ s ∈ ss, s.isLegible = true) :
    Complete (p.each schemaDefinition ss) (ls ++ ss.flatMap SchemaDefinition.lexemes) := by
  refine each_induction (Q := Complete) (fun s hs p ls hp => ?_) h
  exact ⟨hp.toOpen.schemaDefinition (hss s hs), endsLine_schemaDefinition s p⟩

theorem Complete.directives {ds : List DirectiveDefinition} (h : Complete p ls)
    (hds : ∀ d ∈ ds, d.isLegible = true) :
    Complete (p.each directiveDefinition ds) (ls ++ ds.flatMap DirectiveDefinition.lexemes) := by
  refine each_induction (Q := Complete) (fun d hd p ls hp => ?_) h
  exact ⟨hp.toOpen.directiveDefinition (hds d hd), endsLine_directiveDefinition (hds d hd) p⟩

theorem Complete.definitions {ds : List Definition} (h : Complete p ls)
    (hds : ∀ d ∈ ds, d.isLegible = true) :
    Complete (p.each definition ds) (ls ++ ds.flatMap Definition.lexemes) := by
  refine each_induction (Q := Complete) (fun d hd p ls hp => ?_) h
  exact ⟨hp.toOpen.definition (hds d hd), endsLine_definition (hds d hd) p⟩

end

end Page

/-- The text of a legible document is that of a page on which its lexemes are written. -/
theorem TypeSystemDocument.exists_page {doc : TypeSystemDocument} (h : doc.isLegible = true) :
    ∃ p : Page, p.text = doc.text ∧ p.Complete doc.lexemes := by
  simp only [isLegible, Bool.and_eq_true, List.all_eq_true] at h
  obtain ⟨⟨hschemas, hdirectives⟩, hdefinitions⟩ := h
  have hstart : Page.Complete {} [] := ⟨Page.open_empty, .inl rfl⟩
  have hpage := ((hstart.schemas hschemas).directives hdirectives).definitions hdefinitions
  rw [List.append_assoc, List.nil_append] at hpage
  exact ⟨_, rfl, by simpa [lexemes] using hpage⟩

end OperationGraph
