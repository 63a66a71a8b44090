import Mathlib.Data.List.Forall2
import OperationGraph.Token.Scan

/-! # Texts piece by piece

A text is scanned as its first piece and what follows it, if the piece ends there. What counts of a
token is its kind and its value; the value of a block string, which depends on how its lines are
indented, may be left open (`Token.Shows`). -/

namespace OperationGraph

/-- A kind of tokens and a value. A block string without a value stands for any block string. -/
structure Lexeme where
  kind : TokenKind
  value : String := ""
deriving DecidableEq

abbrev Lexeme.word (w : String) : Lexeme := ⟨.name, w⟩

abbrev Lexeme.sign (kind : TokenKind) : Lexeme := ⟨kind, ""⟩

/-- A token is of the kind of a lexeme, and has its value unless the lexeme leaves it open. -/
def Token.Shows (t : Token) (l : Lexeme) : Prop :=
  t.kind = l.kind ∧ (t.value = l.value ∨ l = .sign .blockString)

namespace Scan

/-- A text is scanned as these lexemes, wherever it begins. -/
def Reads (cs : List Char) (ls : List Lexeme) : Prop :=
  ∀ source fuel cur, cs.length < fuel → (run source fuel cur cs).Forall₂ Token.Shows ls

theorem reads_nil : Reads [] [.sign .endOfInput] := by
  intro source fuel cur hfuel
  obtain ⟨n, rfl⟩ : ∃ n, fuel = n + 1 := ⟨fuel - 1, by simp at hfuel; omega⟩
  exact .cons ⟨rfl, .inl rfl⟩ .nil

/-! ### Blanks -/

/-- The blanks that stand between pieces of a written text. -/
def isSpace (c : Char) : Bool := c = ' ' || c = '\t' || c = '\n' || c = ','

theorem Reads.space {c : Char} {cs : List Char} {ls : List Lexeme} (h : Reads cs ls)
    (hc : isSpace c = true) : Reads (c :: cs) ls := by
  intro source fuel cur hfuel
  obtain ⟨n, rfl⟩ : ∃ n, fuel = n + 1 := ⟨fuel - 1, by simp at hfuel; omega⟩
  have hskip : ∃ cur', skipBlanks cur (c :: cs) = skipBlanks cur' cs := by
    simp only [isSpace, Bool.or_eq_true, decide_eq_true_eq] at hc
    rcases hc with ((rfl | rfl) | rfl) | rfl
    all_goals exact ⟨_, rfl⟩
  obtain ⟨cur', hskip⟩ := hskip
  rw [run, hskip, ← run]
  exact h source (n + 1) cur' (by simp at hfuel ⊢; omega)

theorem Reads.spaces {ws cs : List Char} {ls : List Lexeme} (h : Reads cs ls)
    (hws : ∀ c ∈ ws, isSpace c = true) : Reads (ws ++ cs) ls := by
  induction ws with
  | nil => exact h
  | cons c rest ih =>
    exact (ih fun d hd => hws d (List.mem_cons_of_mem c hd)).space (hws c List.mem_cons_self)

/-! ### Tokens -/

def isSkipped (c : Char) : Bool :=
  c = '\t' || c = ' ' || c = ',' || c = '\ufeff' || c = '\n' || c = '\r'

theorem skipBlanks_cons {c : Char} (hc : isSkipped c = false) (cur : Cursor) (cs : List Char) :
    skipBlanks cur (c :: cs) = (cur, c :: cs) := by
  simp only [isSkipped, Bool.or_eq_false_iff, decide_eq_false_iff_not] at hc
  obtain ⟨⟨⟨⟨⟨h1, h2⟩, h3⟩, h4⟩, h5⟩, h6⟩ := hc
  rw [skipBlanks]
  · simp [h1, h2, h3, h4, h5, h6]
  · intro rest hcr
    simp [h6] at hcr

/-- A text begins with a piece that is scanned as one token, whatever follows. -/
theorem Reads.cons {c : Char} {cs rest : List Char} {l : Lexeme} {ls : List Lexeme}
    (h : Reads rest ls) (hc : isSkipped c = false) (hlength : rest.length ≤ cs.length)
    (hstep : ∀ source cur, ∃ t cur', step source cur (c :: cs) = .token t cur' rest ∧ t.Shows l) :
    Reads (c :: cs) (l :: ls) := by
  intro source fuel cur hfuel
  obtain ⟨n, rfl⟩ : ∃ n, fuel = n + 1 := ⟨fuel - 1, by simp at hfuel; omega⟩
  obtain ⟨t, cur', ht, hl⟩ := hstep source cur
  simp only [run, skipBlanks_cons hc, ht]
  exact .cons hl (h source n cur' (by simp at hfuel; omega))

/-- The signs of one character. -/
theorem Reads.punctuation {c : Char} {kind : TokenKind} {cs : List Char} {ls : List Lexeme}
    (h : Reads cs ls) (hc : TokenKind.ofPunctuation? c = some kind) :
    Reads (c :: cs) (.sign kind :: ls) := by
  unfold TokenKind.ofPunctuation? at hc
  split at hc
  all_goals cases hc
  all_goals exact h.cons (by decide) (Nat.le_refl _) fun _ _ => ⟨_, _, rfl, rfl, .inl rfl⟩

/-! ### Names -/

def isName : List Char → Bool
  | [] => false
  | c :: cs => isNameStart c && cs.all isNamePart

/-- Characters that a class tells apart are different. -/
theorem ne_of_class {p : Char → Bool} {c a : Char} (hc : p c = true) (ha : p a = false) : c ≠ a := by
  rintro rfl
  rw [hc] at ha
  cases ha

/-- The blanks, and the characters that begin a sign, a comment or a string. -/
def special : List Char :=
  ['\t', ' ', ',', '\ufeff', '\n', '\r', '.', '"', '#', '!', '$', '&', '(', ')', ':', '=', '@', '[', ']',
   '{', '}', '|']

section
variable {p : Char → Bool} (hp : (special.any p) = false) {c : Char} (hc : p c = true)
include hp hc

theorem ne_of_mem_special {a : Char} (ha : a ∈ special) : c ≠ a :=
  ne_of_class hc (by simpa using List.any_eq_false.1 hp a ha)

theorem isSkipped_of_class : isSkipped c = false := by
  have hne (a : Char) (ha : a ∈ special) : c ≠ a := ne_of_mem_special hp hc ha
  simp only [isSkipped, Bool.or_eq_false_iff, decide_eq_false_iff_not]
  refine ⟨⟨⟨⟨⟨?_, ?_⟩, ?_⟩, ?_⟩, ?_⟩, ?_⟩ <;> exact hne _ (by simp [special])

theorem step_of_class (source : String) (cur : Cursor) (cs : List Char) :
    step source cur (c :: cs) = plainStep source cur c cs := by
  have hne (a : Char) (ha : a ∈ special) : c ≠ a := ne_of_mem_special hp hc ha
  have hpunctuation : TokenKind.ofPunctuation? c = none := by
    unfold TokenKind.ofPunctuation?
    split
    all_goals first | rfl | exact absurd rfl (hne _ (by simp [special]))
  rw [step]
  · simp [hpunctuation, hne '#' (by simp [special])]
  · exact fun rest hdots => absurd hdots (hne '.' (by simp [special]))
  · exact fun rest hquotes => absurd hquotes (hne '"' (by simp [special]))
  · exact hne '"' (by simp [special])

end

/-- A run of characters ends where none of them follows. -/
theorem span_append {p : Char → Bool} {cs rest : List Char} (hcs : ∀ c ∈ cs, p c = true)
    (hrest : ∀ c ∈ rest.head?, p c = false) :
    (cs ++ rest).takeWhile p = cs ∧ (cs ++ rest).dropWhile p = rest := by
  rw [List.takeWhile_append_of_pos hcs, List.dropWhile_append_of_pos hcs]
  cases rest with
  | nil => simp
  | cons c rest =>
    have hc : p c = false := hrest c rfl
    simp [hc]

/-- A name ends where no part of a name follows. -/
theorem Reads.name {n rest : List Char} {ls : List Lexeme} (h : Reads rest ls)
    (hn : isName n = true) (hrest : ∀ c ∈ rest.head?, isNamePart c = false) :
    Reads (n ++ rest) (.word (String.ofList n) :: ls) := by
  cases n with
  | nil => cases hn
  | cons c cs =>
    simp only [isName, Bool.and_eq_true, List.all_eq_true] at hn
    obtain ⟨htake, hdrop⟩ := span_append hn.2 hrest
    refine h.cons (isSkipped_of_class (by decide) hn.1) (by simp) fun source cur => ?_
    have hstep := step_of_class (by decide) hn.1 source cur (cs ++ rest)
    rw [plainStep, if_pos hn.1, htake, hdrop] at hstep
    exact ⟨_, _, hstep, rfl, .inl rfl⟩

/-! ### Numbers -/

/-- The digits before a point: a zero alone, or digits that do not begin with one. -/
def isWhole : List Char → Bool
  | [] => false
  | c :: cs => if c = '0' then cs.isEmpty else (c :: cs).all Char.isDigit

def isFraction : List Char → Bool
  | [] => true
  | c :: cs => c = '.' && !cs.isEmpty && cs.all Char.isDigit

/-- Whether a text is a number that is written without an exponent. -/
def isNumeral (cs : List Char) : Bool :=
  let digits := (readSign {} cs).2.2
  isWhole (digits.takeWhile Char.isDigit) && isFraction (digits.dropWhile Char.isDigit)

def numeralKind (cs : List Char) : TokenKind :=
  if ((readSign {} cs).2.2.dropWhile Char.isDigit).isEmpty then .int else .float

theorem readWhole_append {whole rest : List Char} (h : isWhole whole = true)
    (hrest : ∀ c ∈ rest.head?, c.isDigit = false) (cur : Cursor) :
    ∃ cur', readWhole cur (whole ++ rest) = .ok (whole, cur', rest) := by
  cases whole with
  | nil => cases h
  | cons c cs =>
    by_cases hc : c = '0'
    · subst hc
      obtain rfl : cs = [] := by simpa [isWhole] using h
      cases rest with
      | nil => exact ⟨_, rfl⟩
      | cons d rest =>
        have hd : d.isDigit = false := hrest d rfl
        exact ⟨cur.advance 1, by simp [readWhole, hd]⟩
    · have hdigits : ∀ d ∈ c :: cs, d.isDigit = true := by
        simpa [isWhole, hc] using h
      obtain ⟨htake, hdrop⟩ := span_append hdigits hrest
      refine ⟨cur.advance (c :: cs).length, ?_⟩
      rw [readWhole]
      · rw [readDigits1, readDigits, htake, hdrop]
      · intro rest' hzero
        exact hc (List.cons.inj hzero).1

theorem readFraction_append {fraction rest : List Char} (h : isFraction fraction = true)
    (hrest : ∀ c ∈ rest.head?, c.isDigit = false ∧ c ≠ '.') (cur : Cursor) :
    ∃ cur', readFraction cur (fraction ++ rest) = .ok (fraction, cur', rest) := by
  cases fraction with
  | nil =>
    refine ⟨cur, ?_⟩
    cases rest with
    | nil => rfl
    | cons c rest =>
      have hc : c ≠ '.' := (hrest c rfl).2
      simp [readFraction, hc]
  | cons c cs =>
    simp only [isFraction, Bool.and_eq_true, decide_eq_true_eq, Bool.not_eq_true',
      List.all_eq_true] at h
    obtain ⟨⟨rfl, hne⟩, hdigits⟩ := h
    obtain ⟨htake, hdrop⟩ := span_append hdigits fun d hd => (hrest d hd).1
    cases cs with
    | nil => cases hne
    | cons d cs =>
      refine ⟨(cur.advance 1).advance (d :: cs).length, ?_⟩
      rw [List.cons_append, readFraction, readDigits1, readDigits, htake, hdrop]
      rfl

theorem readExponent_of_not {rest : List Char} (hrest : ∀ c ∈ rest.head?, isNamePart c = false)
    (cur : Cursor) : readExponent cur rest = .ok ([], cur, rest) := by
  cases rest with
  | nil => rfl
  | cons c rest =>
    have he : c ≠ 'e' := by
      rintro rfl
      exact absurd (hrest 'e' rfl) (by decide)
    have hE : c ≠ 'E' := by
      rintro rfl
      exact absurd (hrest 'E' rfl) (by decide)
    simp [readExponent, he, hE]

def isNumberStart (c : Char) : Bool := c = '-' || c.isDigit

theorem isDigit_of_isNamePart {c : Char} (h : isNamePart c = false) : c.isDigit = false := by
  rw [isNamePart, Bool.or_eq_false_iff] at h
  exact h.2

/-- The parts of a number, one after the other. -/
theorem exists_readParts {whole fraction rest : List Char} (hwhole : isWhole whole = true)
    (hfraction : isFraction fraction = true)
    (hrest : ∀ c ∈ rest.head?, isNamePart c = false ∧ c ≠ '.') (cur : Cursor) :
    ∃ cur₁ cur₂, readWhole cur (whole ++ (fraction ++ rest)) = .ok (whole, cur₁, fraction ++ rest) ∧
      readFraction cur₁ (fraction ++ rest) = .ok (fraction, cur₂, rest) ∧
      readExponent cur₂ rest = .ok ([], cur₂, rest) := by
  have hafter : ∀ c ∈ (fraction ++ rest).head?, c.isDigit = false := by
    cases fraction with
    | nil => exact fun c hc => isDigit_of_isNamePart (hrest c hc).1
    | cons c ds =>
      simp only [isFraction, Bool.and_eq_true, decide_eq_true_eq] at hfraction
      obtain ⟨⟨rfl, -⟩, -⟩ := hfraction
      rintro c ⟨⟩
      decide
  obtain ⟨cur₁, h₁⟩ := readWhole_append hwhole hafter cur
  obtain ⟨cur₂, h₂⟩ := readFraction_append hfraction
    (fun c hc => ⟨isDigit_of_isNamePart (hrest c hc).1, (hrest c hc).2⟩) cur₁
  exact ⟨cur₁, cur₂, h₁, h₂, readExponent_of_not (fun c hc => (hrest c hc).1) cur₂⟩

/-- A sign is read, or the text begins with no sign. -/
theorem readSign_append (cs rest : List Char) (hcs : cs ≠ []) (cur : Cursor) :
    ∃ sign cur', readSign cur (cs ++ rest) = (sign, cur', (readSign {} cs).2.2 ++ rest) ∧
      sign ++ (readSign {} cs).2.2 = cs := by
  cases cs with
  | nil => exact absurd rfl hcs
  | cons c cs =>
    by_cases hc : c = '-'
    · subst hc
      exact ⟨_, _, rfl, rfl⟩
    · exact ⟨[], cur, by simp [readSign, hc], by simp [readSign, hc]⟩

theorem readNumber_append {cs rest : List Char} (h : isNumeral cs = true)
    (hrest : ∀ c ∈ rest.head?, isNamePart c = false ∧ c ≠ '.') (cur : Cursor) :
    ∃ isFloat fin, readNumber cur (cs ++ rest) = .ok (isFloat, cs, fin, rest) ∧
      (if isFloat then TokenKind.float else .int) = numeralKind cs := by
  have hne : cs ≠ [] := by
    rintro rfl
    exact absurd h (by decide)
  obtain ⟨sign, cur₀, h₀, hsign⟩ := readSign_append cs rest hne cur
  rw [isNumeral, Bool.and_eq_true] at h
  rw [numeralKind]
  have hbody : (readSign {} cs).2.2 = (readSign {} cs).2.2.takeWhile Char.isDigit ++
      (readSign {} cs).2.2.dropWhile Char.isDigit := List.takeWhile_append_dropWhile.symm
  generalize (readSign {} cs).2.2.takeWhile Char.isDigit = whole at h hbody
  generalize (readSign {} cs).2.2.dropWhile Char.isDigit = fraction at h hbody ⊢
  obtain ⟨cur₁, cur₂, h₁, h₂, h₃⟩ := exists_readParts h.1 h.2 hrest cur₀
  rw [hbody, List.append_assoc] at h₀
  rw [hbody] at hsign
  refine ⟨!fraction.isEmpty, cur₂, ?_, ?_⟩
  · simp only [readNumber, h₀, h₁, h₂, h₃, bind, Except.bind]
    simp [pure, Except.pure, hsign]
  · cases fraction <;> rfl

/-- The letters stand in two rows. -/
theorem toNat_of_isAlpha {c : Char} (h : c.isAlpha = true) :
    (0x41 ≤ c.toNat ∧ c.toNat ≤ 0x5a) ∨ (0x61 ≤ c.toNat ∧ c.toNat ≤ 0x7a) := by
  have h : (decide (c.val ≥ 'A'.val ∧ c.val ≤ 'Z'.val) ||
    decide (c.val ≥ 'a'.val) && decide (c.val ≤ 'z'.val)) = true := h
  simpa [UInt32.le_iff_toNat_le] using h

theorem isNameStart_of_isNumberStart {c : Char} (h : isNumberStart c = true) :
    isNameStart c = false := by
  rw [isNumberStart, Bool.or_eq_true, decide_eq_true_eq] at h
  rcases h with rfl | h
  · decide
  · simp only [Char.isDigit, ge_iff_le, Bool.and_eq_true, decide_eq_true_eq,
      UInt32.le_iff_toNat_le] at h
    have hne : c ≠ '_' := by
      rintro rfl
      exact absurd h (by decide)
    have halpha : c.isAlpha = false := by
      refine Bool.eq_false_iff.2 fun halpha => ?_
      have hrows := toNat_of_isAlpha halpha
      have hdigit : c.toNat ≤ 0x39 := h.2
      omega
    simp [isNameStart, hne, halpha]

theorem isNumberStart_of_isNumeral {c : Char} {cs : List Char} (h : isNumeral (c :: cs) = true) :
    isNumberStart c = true := by
  by_cases hc : c = '-'
  · simp [isNumberStart, hc]
  · cases hdigit : c.isDigit with
    | true => simp [isNumberStart, hdigit]
    | false => simp [isNumeral, readSign, hc, hdigit, isWhole] at h

/-- A number ends where no part of a number or a name follows. -/
theorem Reads.number {n rest : List Char} {ls : List Lexeme} (h : Reads rest ls)
    (hn : isNumeral n = true) (hrest : ∀ c ∈ rest.head?, isNamePart c = false ∧ c ≠ '.') :
    Reads (n ++ rest) (⟨numeralKind n, String.ofList n⟩ :: ls) := by
  cases n with
  | nil => exact absurd hn (by decide)
  | cons c cs =>
    have hc := isNumberStart_of_isNumeral hn
    refine h.cons (isSkipped_of_class (by decide) hc) (by simp) fun source cur => ?_
    obtain ⟨isFloat, fin, hread, hkind⟩ := readNumber_append hn hrest cur
    have hnumber : c = '-' ∨ c.isDigit = true := by simpa [isNumberStart] using hc
    have hstep := step_of_class (by decide) hc source cur (cs ++ rest)
    rw [plainStep, isNameStart_of_isNumberStart hc, if_neg (by simp), if_pos hnumber,
      ← List.cons_append, hread] at hstep
    exact ⟨_, _, hstep, hkind, .inl rfl⟩

end Scan

end OperationGraph
