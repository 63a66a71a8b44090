import OperationGraph.Proofs.Token.Strings

/-! # Pieces of texts

A piece is scanned as its lexemes if what follows ends it; a closed piece ends by itself. Pieces are put
together where the second begins with a character that ends the first. -/

namespace OperationGraph.Scan

/-- Whether a character ends what stands before it. -/
def isEnd (c : Char) : Bool := !isNamePart c && c ≠ '.' && c ≠ '"'

/-- A text that ends what stands before it: its first character does, if it has one. -/
def Ends (rest : List Char) : Prop := ∀ c ∈ rest.head?, isEnd c = true

/-- A text begins with a character that ends what stands before it. -/
def Begins (cs : List Char) : Prop := ∃ c ∈ cs.head?, isEnd c = true

/-- A piece of text is scanned as these lexemes if what follows ends it. -/
def Piece (cs : List Char) (ls : List Lexeme) : Prop :=
  ∀ rest ls', Ends rest → Reads rest ls' → Reads (cs ++ rest) (ls ++ ls')

/-- A piece of text is scanned as these lexemes, whatever follows. -/
def Closed (cs : List Char) (ls : List Lexeme) : Prop :=
  ∀ rest ls', Reads rest ls' → Reads (cs ++ rest) (ls ++ ls')

section
variable {cs ds : List Char} {ls ks : List Lexeme}

theorem Closed.piece (h : Closed cs ls) : Piece cs ls := fun rest ls' _ => h rest ls'

theorem closed_nil : Closed [] [] := fun _ _ h => h

theorem Begins.append (h : Begins cs) (ds : List Char) : Begins (cs ++ ds) := by
  obtain ⟨c, hc, hend⟩ := h
  refine ⟨c, ?_, hend⟩
  rw [List.head?_append, Option.mem_def.1 hc]
  rfl

theorem Begins.ends (h : Begins cs) : Ends cs := by
  obtain ⟨c, hc, hend⟩ := h
  intro d hd
  obtain rfl : c = d := Option.mem_unique hc hd
  exact hend

theorem Closed.append (h : Closed cs ls) (hds : Closed ds ks) : Closed (cs ++ ds) (ls ++ ks) := by
  intro rest ls' hrest
  rw [List.append_assoc, List.append_assoc]
  exact h _ _ (hds _ _ hrest)

theorem Closed.append_piece (h : Closed cs ls) (hds : Piece ds ks) : Piece (cs ++ ds) (ls ++ ks) := by
  intro rest ls' hends hrest
  rw [List.append_assoc, List.append_assoc]
  exact h _ _ (hds _ _ hends hrest)

theorem Piece.append_closed (h : Piece cs ls) (hds : Closed ds ks) (hbegins : Begins ds) :
    Closed (cs ++ ds) (ls ++ ks) := by
  intro rest ls' hrest
  rw [List.append_assoc, List.append_assoc]
  exact h _ _ (hbegins.append rest).ends (hds _ _ hrest)

theorem Piece.append (h : Piece cs ls) (hds : Piece ds ks) (hbegins : Begins ds) :
    Piece (cs ++ ds) (ls ++ ks) := by
  intro rest ls' hends hrest
  rw [List.append_assoc, List.append_assoc]
  exact h _ _ (hbegins.append rest).ends (hds _ _ hends hrest)

end

/-! ### Single pieces -/

theorem closed_spaces {ws : List Char} (h : ∀ c ∈ ws, isSpace c = true) : Closed ws [] :=
  fun _ _ hrest => hrest.spaces h

theorem closed_space {c : Char} (h : isSpace c = true) : Closed [c] [] :=
  closed_spaces (List.forall_mem_singleton.2 h)

theorem closed_sign {c : Char} {kind : TokenKind} (h : TokenKind.ofPunctuation? c = some kind) :
    Closed [c] [.sign kind] :=
  fun _ _ hrest => hrest.punctuation h

theorem isEnd_spec {c : Char} (h : isEnd c = true) : isNamePart c = false ∧ c ≠ '.' ∧ c ≠ '"' := by
  simpa [isEnd, and_assoc] using h

theorem piece_name {n : List Char} (h : isName n = true) : Piece n [.word (String.ofList n)] :=
  fun _ _ hends hrest => hrest.name h fun c hc => (isEnd_spec (hends c hc)).1

theorem piece_number {n : List Char} (h : isNumeral n = true) :
    Piece n [⟨numeralKind n, String.ofList n⟩] :=
  fun _ _ hends hrest => hrest.number h fun c hc =>
    ⟨(isEnd_spec (hends c hc)).1, (isEnd_spec (hends c hc)).2.1⟩

theorem piece_quoted {v : List Char} (h : ∀ c ∈ v, isQuotable c = true) :
    Piece ('"' :: v.flatMap Text.quotedChar ++ ['"']) [⟨.string, String.ofList v⟩] := by
  intro rest ls' hends hrest
  have hreads := hrest.quoted h fun c hc => (isEnd_spec (hends c hc)).2.2
  simpa using hreads

/-- The value of a block string may be left open. -/
theorem Reads.leaveOpen {cs : List Char} {v : String} {ls : List Lexeme}
    (h : Reads cs (⟨.blockString, v⟩ :: ls)) : Reads cs (.sign .blockString :: ls) := by
  intro source fuel cur hfuel
  obtain ⟨t, ts, ht, hts, hrun⟩ := List.forall₂_cons_right_iff.1 (h source fuel cur hfuel)
  rw [hrun]
  exact .cons ⟨ht.1, .inr rfl⟩ hts

/-- A block string with the line feed after it. -/
theorem closed_block {lines : List (List Char)} (h : ∀ l ∈ lines, staysInside l = true) (n : Nat) :
    Closed ('"' :: '"' :: '"' :: lines.flatMap (· ++ ['\n']) ++
      (List.replicate n '\t' ++ ['"', '"', '"', '\n']))
      [⟨.blockString, String.ofList (BlockText.value
        (lines.flatMap (inside · ++ ['\n']) ++ List.replicate n '\t'))⟩] := by
  intro rest ls' hrest
  have hreads := (hrest.space (c := '\n') (by decide)).block h (by simp) n
  simpa using hreads

end OperationGraph.Scan
