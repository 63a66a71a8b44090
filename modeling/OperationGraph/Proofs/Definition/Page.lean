import OperationGraph.Proofs.Definition.Lexemes
import OperationGraph.Proofs.Token.Pieces

/-! # Pages and their lexemes

The text of a page is scanned as the lexemes of what was written on it. After a word or a value the page is
`Written`: what comes next has to end it. After a sign, a line end or a blank that is due the page is `Open`
to anything. -/

namespace OperationGraph

open Scan

namespace Text

theorem isBlank_of_isNamePart {c : Char} (h : isNamePart c = true) : isBlank c = false := by
  simp only [isNamePart, isNameStart, Bool.or_eq_true, decide_eq_true_eq] at h
  have hrange : (0x30 ≤ c.toNat ∧ c.toNat ≤ 0x39) ∨ (0x41 ≤ c.toNat ∧ c.toNat ≤ 0x7a) := by
    rcases h with (rfl | h) | h
    · decide
    · have hrows := toNat_of_isAlpha h
      omega
    · simp only [Char.isDigit, Bool.and_eq_true, decide_eq_true_eq, ge_iff_le,
        UInt32.le_iff_toNat_le] at h
      exact .inl h
  simp only [isBlank, Bool.or_eq_false_iff, Bool.and_eq_false_iff, decide_eq_false_iff_not]
  omega

/-- A text that neither begins nor ends with a blank. -/
def Edged (cs : List Char) : Prop :=
  (∃ c ∈ cs.head?, isBlank c = false) ∧ ∃ c ∈ cs.getLast?, isBlank c = false

theorem dropWhile_eq_self {p : Char → Bool} {cs : List Char} (h : ∃ c ∈ cs.head?, p c = false) :
    cs.dropWhile p = cs := by
  obtain ⟨c, hc, hp⟩ := h
  cases cs with
  | nil => cases hc
  | cons d cs =>
    obtain rfl : d = c := Option.some.inj hc
    simp [hp]

theorem trimBlanks_of_edged {s : String} (h : Edged s.toList) : trimBlanks s = s := by
  rw [trimBlanks, dropWhile_eq_self h.1, dropWhile_eq_self, List.reverse_reverse, String.ofList_toList]
  obtain ⟨c, hc, hblank⟩ := h.2
  exact ⟨c, by rw [List.head?_reverse]; exact hc, hblank⟩

theorem Edged.append {a b : List Char} (ha : Edged a) (m : List Char) (hb : Edged b) :
    Edged (a ++ (m ++ b)) := by
  obtain ⟨⟨c, hc, hcb⟩, -⟩ := ha
  obtain ⟨-, d, hd, hdb⟩ := hb
  refine ⟨⟨c, ?_, hcb⟩, d, ?_, hdb⟩
  · rw [List.head?_append, Option.mem_def.1 hc]
    rfl
  · rw [List.getLast?_append, List.getLast?_append, Option.mem_def.1 hd]
    rfl

theorem edged_of_forall {cs : List Char} (hne : cs ≠ []) (h : ∀ c ∈ cs, isBlank c = false) :
    Edged cs := by
  refine ⟨⟨cs.head hne, List.head_mem_head? hne, h _ (List.head_mem hne)⟩,
    cs.getLast hne, ?_, h _ (List.getLast_mem hne)⟩
  rw [List.getLast?_eq_some_getLast hne]
  rfl

theorem edged_of_isName {n : List Char} (h : isName n = true) : Edged n := by
  cases n with
  | nil => cases h
  | cons c cs =>
    simp only [isName, Bool.and_eq_true, List.all_eq_true] at h
    refine edged_of_forall (List.cons_ne_nil c cs) ?_
    rintro d (_ | ⟨_, hd⟩)
    · exact isBlank_of_isNamePart (by simp [isNamePart, h.1])
    · exact isBlank_of_isNamePart (h.2 d hd)

end Text

namespace Page

/-! ### Steps -/

/-- What is written before the next word or sign. -/
def gap (p : Page) : List Char :=
  if p.lineHead then List.replicate p.indent '\t' else if p.pad then [' '] else []

theorem text_begin_blank (p : Page) : p.begin_.blank.text.toList = p.text.toList ++ p.gap := by
  rcases p with ⟨text, indent, _ | _, _ | _⟩ <;> simp [begin_, blank, gap]

theorem lineHead_begin_blank (p : Page) : p.begin_.blank.lineHead = false := by
  rcases p with ⟨text, indent, _ | _, _ | _⟩ <;> rfl

theorem indent_begin_blank (p : Page) : p.begin_.blank.indent = p.indent := by
  rcases p with ⟨text, indent, _ | _, _ | _⟩ <;> rfl

@[simp] theorem text_word (w : String) (p : Page) :
    (p.word w).text.toList = p.text.toList ++ p.gap ++ (Text.trimBlanks w).toList := by
  simp [word, text_begin_blank]

@[simp] theorem text_sign (s : String) (p : Page) :
    (p.sign s).text.toList = p.text.toList ++ p.gap ++ s.toList := by
  simp [sign, text_begin_blank]

@[simp] theorem text_newLine (p : Page) : p.newLine.text.toList = p.text.toList ++ ['\n'] := by
  simp [newLine]

/-- The text of a page is scanned as these lexemes if what follows ends it. -/
structure Written (p : Page) (ls : List Lexeme) : Prop where
  text : Piece p.text.toList ls
  head : p.lineHead = true → Closed p.text.toList ls

/-- The text of a page is scanned as these lexemes, whatever is written next. -/
structure Open (p : Page) (ls : List Lexeme) : Prop extends Written p ls where
  pad : p.pad = false → Closed p.text.toList ls

section
variable {p : Page} {ls ks : List Lexeme}

theorem isSpace_of_mem_gap {c : Char} (h : c ∈ p.gap) : isSpace c = true := by
  unfold gap at h
  split at h
  · rw [(List.mem_replicate.1 h).2]
    rfl
  · split at h
    · rw [List.mem_singleton.1 h]
      rfl
    · cases h

theorem Open.closed (h : Open p ls) : Closed (p.text.toList ++ p.gap) ls := by
  have hgap : Closed p.gap [] := closed_spaces fun c => isSpace_of_mem_gap
  by_cases hhead : p.lineHead = true
  · simpa using (h.head hhead).append hgap
  · by_cases hpad : p.pad = true
    · have hbegins : Begins p.gap := ⟨' ', by simp [gap, hhead, hpad], by decide⟩
      simpa using h.text.append_closed hgap hbegins
    · simpa using (h.pad (by simpa using hpad)).append hgap

theorem begins_gap {cs : List Char} (h : Begins cs) : Begins (p.gap ++ cs) := by
  cases hgap : p.gap with
  | nil => exact h
  | cons c rest =>
    have hc : isSpace c = true := isSpace_of_mem_gap (p := p) (by simp [hgap])
    refine ⟨c, rfl, ?_⟩
    simp only [isSpace, Bool.or_eq_true, decide_eq_true_eq] at hc
    rcases hc with ((rfl | rfl) | rfl) | rfl <;> decide

theorem Open.word {w : String} (h : Open p ls) (hw : Piece (Text.trimBlanks w).toList ks) :
    Open (p.word w) (ls ++ ks) where
  text := by
    rw [text_word]
    exact h.closed.append_piece hw
  head hhead := by
    cases (lineHead_begin_blank p).symm.trans hhead
  pad hpad := by cases hpad

/-- A sign that ends by itself. -/
theorem Open.sign {s : String} (h : Open p ls) (hs : Closed s.toList ks) :
    Open (p.sign s) (ls ++ ks) := by
  have hclosed : Closed (p.sign s).text.toList (ls ++ ks) := by
    rw [text_sign]
    exact h.closed.append hs
  exact { text := hclosed.piece, head := fun _ => hclosed, pad := fun _ => hclosed }

/-- A value is written like a sign, but what follows has to end it. -/
theorem Open.value {s : String} (h : Open p ls) (hs : Piece s.toList ks) :
    Written (p.sign s) (ls ++ ks) where
  text := by
    rw [text_sign]
    exact h.closed.append_piece hs
  head hhead := by
    cases (lineHead_begin_blank p).symm.trans hhead

/-- A sign that ends what stands before it. -/
theorem Written.sign {s : String} (h : Written p ls) (hs : Closed s.toList ks)
    (hbegins : Begins s.toList) : Open (p.sign s) (ls ++ ks) := by
  have hgap : Closed (p.gap ++ s.toList) ks :=
    (closed_spaces fun c => isSpace_of_mem_gap).append hs
  have hclosed : Closed (p.sign s).text.toList (ls ++ ks) := by
    rw [text_sign, List.append_assoc]
    exact h.text.append_closed hgap (begins_gap hbegins)
  exact { text := hclosed.piece, head := fun _ => hclosed, pad := fun _ => hclosed }

theorem Written.newLine (h : Written p ls) : Open p.newLine ls := by
  have hclosed : Closed p.newLine.text.toList ls := by
    have hfeed : Closed ['\n'] [] := closed_space (by decide)
    simpa using h.text.append_closed hfeed ⟨'\n', rfl, by decide⟩
  exact { text := hclosed.piece, head := fun _ => hclosed, pad := fun _ => hclosed }

theorem Written.needPad (h : Written p ls) : Open p.needPad ls :=
  { text := h.text, head := h.head, pad := nofun }

theorem Written.noPad (h : Written p ls) : Written p.noPad ls := ⟨h.text, h.head⟩

theorem Written.comma (h : Written p ls) : Open p.comma ls := by
  have hcomma : Closed (p.noPad.gap ++ [',']) [] :=
    (closed_spaces fun c => isSpace_of_mem_gap).append (closed_space (by decide))
  refine { text := ?_, head := ?_, pad := nofun }
  · have htrim : Text.trimBlanks "," = "," := by decide
    have hbegins : Begins [','] := ⟨',', rfl, by decide⟩
    rw [Page.comma, text_word, List.append_assoc, htrim, ← List.append_nil ls]
    exact (h.text.append_closed hcomma (begins_gap hbegins)).piece
  · intro hhead
    cases (lineHead_begin_blank p.noPad).symm.trans hhead

theorem Open.indentMore (h : Open p ls) : Open p.indentMore ls := ⟨⟨h.text, h.head⟩, h.pad⟩

theorem Open.indentLess (h : Open p ls) : Open p.indentLess ls := ⟨⟨h.text, h.head⟩, h.pad⟩

end

theorem open_empty : Open {} [] :=
  { text := closed_nil.piece, head := fun _ => closed_nil, pad := fun _ => closed_nil }

/-! ### Groups -/

section
variable {α : Type} {write between : α → Page → Page} {f : α → List Lexeme}

/-- What every element keeps, all of them keep. -/
theorem each_induction {Q : Page → List Lexeme → Prop} {xs : List α}
    (h : ∀ a ∈ xs, ∀ p ls, Q p ls → Q (write a p) (ls ++ f a)) {p : Page} {ls : List Lexeme}
    (hp : Q p ls) : Q (p.each write xs) (ls ++ xs.flatMap f) := by
  induction xs generalizing p ls with
  | nil => simpa [each] using hp
  | cons a rest ih =>
    rw [List.flatMap_cons, ← List.append_assoc]
    exact ih (fun b hb => h b (List.mem_cons_of_mem a hb)) (h a List.mem_cons_self p ls hp)

/-- What every element keeps, with what is written after it if another one follows. -/
theorem eachBetween_induction {Q R : Page → List Lexeme → Prop} {separator : List Lexeme} {xs : List α}
    (hne : xs ≠ [])
    (h : ∀ a ∈ xs, ∀ p ls, Q p ls → R (write a p) (ls ++ f a) ∧
      Q (between a (write a p)) (ls ++ f a ++ separator))
    {p : Page} {ls : List Lexeme} (hp : Q p ls) :
    R (p.eachBetween write between xs) (ls ++ joined separator (xs.map f)) := by
  induction xs generalizing p ls with
  | nil => exact absurd rfl hne
  | cons a rest ih =>
    obtain ⟨hlast, hnext⟩ := h a List.mem_cons_self p ls hp
    cases rest with
    | nil => simpa [eachBetween, joined] using hlast
    | cons b rest =>
      have hrest := ih (List.cons_ne_nil b rest) (fun c hc => h c (List.mem_cons_of_mem a hc)) hnext
      simpa [eachBetween, joined] using hrest

end

end Page

end OperationGraph
