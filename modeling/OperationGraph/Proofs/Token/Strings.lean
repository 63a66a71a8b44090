import OperationGraph.Proofs.Token.Lexemes

/-! # Strings in texts

A quoted text is read back as it is if every character of it can be (`Reads.quoted`). A block string ends
at its closing quotes if its lines stay inside (`Reads.block`). -/

namespace OperationGraph.Scan

/-! ### Quoted texts -/

/-- Whether a character is read back from a quoted text. -/
def isQuotable (c : Char) : Bool :=
  (Text.strayByte? c).isNone && (Text.isPrintable c || ['\x08', '\x0c', '\n', '\r', '\t'].contains c ||
    (0x80 ≤ c.toNat && c.toNat < 0x10000))

theorem le_toNat_of_isPrintable {c : Char} (h : Text.isPrintable c = true) : 0x20 ≤ c.toNat := by
  by_cases hsmall : c.toNat < 0x80
  · simp only [Text.isPrintable, hsmall, if_true, Bool.and_eq_true, decide_eq_true_eq] at h
    exact h.1
  · omega

theorem hexValue?_hexDigit (n : Nat) :
    Text.hexValue? (Text.hexDigit (n % 16)) = some (n % 16) := by
  have h : ∀ d < 16, Text.hexValue? (Text.hexDigit d) = some d := by decide
  exact h (n % 16) (Nat.mod_lt n (by decide))

theorem exists_hexNumber?_hexDigits {n : Nat} (h : n < 0x10000) :
    ∃ a b c d, Text.hexDigits 4 n = [a, b, c, d] ∧ Text.hexNumber? [a, b, c, d] = some n := by
  refine ⟨_, _, _, _, rfl, ?_⟩
  simp only [Text.hexNumber?, List.foldl_cons, List.foldl_nil, hexValue?_hexDigit, Option.map_some,
    Option.bind_some]
  congr 1
  omega

theorem settled_of_strayByte? {c : Char} (h : Text.strayByte? c = none) : Text.settled c = c := by
  simp [Text.settled, h]

theorem charOfCode_toNat (c : Char) : charOfCode c.toNat = c := by
  have hvalid : c.toNat < 0xD800 ∨ 0xDFFF < c.toNat ∧ c.toNat < 0x110000 := c.valid
  rw [charOfCode, if_neg (by omega), Char.ofNat_toNat]

/-- A character that stands for itself is read as it is. -/
theorem readString_plain {c : Char} (hstray : Text.strayByte? c = none) (hquote : c ≠ '"')
    (hslash : c ≠ '\\') (hc : 0x20 ≤ c.toNat) (escaped : Bool) (cur : Cursor) (acc rest : List Char) :
    readString escaped cur acc (c :: rest) = readString escaped (cur.advance 1) (c :: acc) rest := by
  have hne (a : Char) (ha : a.toNat < 0x20) : c ≠ a := by
    rintro rfl
    omega
  rw [readString]
  · rw [if_neg, if_neg, settled_of_strayByte? hstray, ite_self]
    · omega
    · simp [hne '\n' (by decide), hne '\r' (by decide)]
  all_goals intros; simp_all

/-- A quotable character is read from its quoted form. -/
theorem readString_quotedChar {c : Char} (h : isQuotable c = true) (escaped : Bool) (cur : Cursor)
    (acc : List Char) {rest : List Char} (hrest : rest ≠ []) :
    ∃ escaped' cur', readString escaped cur acc (Text.quotedChar c ++ rest) =
      readString escaped' cur' (c :: acc) rest := by
  simp only [isQuotable, Bool.and_eq_true, Option.isNone_iff_eq_none] at h
  obtain ⟨hstray, h⟩ := h
  obtain ⟨d, rest, rfl⟩ := List.exists_cons_of_ne_nil hrest
  simp only [Text.quotedChar, hstray]
  by_cases hquote : c = '"'
  · subst hquote
    exact ⟨true, _, rfl⟩
  by_cases hslash : c = '\\'
  · subst hslash
    exact ⟨true, _, rfl⟩
  simp only [if_neg hquote, if_neg hslash]
  by_cases hprintable : Text.isPrintable c = true
  · refine ⟨escaped, cur.advance 1, ?_⟩
    rw [if_pos hprintable]
    exact readString_plain hstray hquote hslash (le_toNat_of_isPrintable hprintable) escaped cur acc
      (d :: rest)
  simp only [hprintable, Bool.false_eq_true, if_false, false_or, List.contains_eq_mem,
    Bool.or_eq_true, decide_eq_true_eq, Bool.and_eq_true] at h ⊢
  rcases h with hshort | hlong
  · simp only [List.mem_cons, List.not_mem_nil, or_false] at hshort
    rcases hshort with rfl | rfl | rfl | rfl | rfl
    all_goals exact ⟨true, _, rfl⟩
  · have hne (a : Char) (ha : a.toNat < 0x80) : c ≠ a := by
      rintro rfl
      omega
    obtain ⟨a, b, x, y, hdigits, hnumber⟩ := exists_hexNumber?_hexDigits hlong.2
    refine ⟨true, cur.advance 6, ?_⟩
    rw [if_neg (hne _ (by decide)), if_neg (hne _ (by decide)), if_neg (hne _ (by decide)),
      if_neg (hne _ (by decide)), if_neg (hne _ (by decide)), if_neg (hne _ (by decide)),
      if_neg (hne _ (by decide)), if_neg (by omega), if_pos hlong.2, hdigits]
    simp [readString, hnumber, charOfCode_toNat]

/-- A quoted text is read back up to its closing quote. -/
theorem readString_quoted {v : List Char} (h : ∀ c ∈ v, isQuotable c = true) (escaped : Bool)
    (cur : Cursor) (acc rest : List Char) :
    ∃ fin, readString escaped cur acc (v.flatMap Text.quotedChar ++ '"' :: rest) =
      .ok (acc.reverse ++ v, fin, rest) := by
  induction v generalizing escaped cur acc with
  | nil => exact ⟨cur, by simp [readString]⟩
  | cons c v ih =>
    obtain ⟨escaped', cur', hread⟩ := readString_quotedChar (h c List.mem_cons_self) escaped cur
      acc (List.append_ne_nil_of_right_ne_nil (v.flatMap Text.quotedChar) (List.cons_ne_nil '"' rest))
    obtain ⟨fin, hrest⟩ := ih (fun d hd => h d (List.mem_cons_of_mem c hd)) escaped' cur' (c :: acc)
    refine ⟨fin, ?_⟩
    rw [List.flatMap_cons, List.append_assoc, hread, hrest]
    simp

/-- A quoted text is one token, unless it is empty and another quote follows. -/
theorem Reads.quoted {v rest : List Char} {ls : List Lexeme} (h : Reads rest ls)
    (hv : ∀ c ∈ v, isQuotable c = true) (hrest : ∀ c ∈ rest.head?, c ≠ '"') :
    Reads ('"' :: (v.flatMap Text.quotedChar ++ '"' :: rest)) (⟨.string, String.ofList v⟩ :: ls) := by
  refine h.cons (by decide) (by simp; omega) fun source cur => ?_
  obtain ⟨fin, hread⟩ := readString_quoted hv false (cur.advance 1) [] rest
  have hblock : ∀ more, v.flatMap Text.quotedChar ++ '"' :: rest ≠ '"' :: '"' :: more := by
    intro more heq
    rw [heq] at hread
    have hclosed : (Except.ok ([], cur.advance 1, '"' :: more) : Read) = .ok ([] ++ v, fin, rest) :=
      hread
    simp only [Except.ok.injEq, Prod.mk.injEq] at hclosed
    exact hrest '"' (by rw [← hclosed.2.2]; rfl) rfl
  have hstep : step source cur ('"' :: (v.flatMap Text.quotedChar ++ '"' :: rest)) =
      .token { kind := .string, value := String.ofList v,
               pos := fin.positionOf source (cur.offset + 1) } (fin.advance 1) rest := by
    rw [step]
    · rw [hread, List.reverse_nil, List.nil_append]
    · exact fun more hmore => hblock more hmore
  exact ⟨_, _, hstep, rfl, .inl rfl⟩

/-! ### Block strings -/

/-- Whether a line stays inside a block string: no three quotes in a row unless they are escaped, and no
control characters. -/
def staysInside : List Char → Bool
  | [] => true
  | '\\' :: '"' :: '"' :: '"' :: rest => staysInside rest
  | c :: rest =>
    if c = '"' then !(['"', '"'].isPrefixOf rest) && staysInside rest
    else (0x20 ≤ c.toNat || c = '\t' || c = '\r') && staysInside rest

theorem length_quotes_lt {line : List Char} (h : ['"', '"'].isPrefixOf line = false)
    (more : List Char) : ((line ++ '\n' :: more).takeWhile (· = '"')).length < 2 := by
  rcases line with _ | ⟨a, _ | ⟨b, line⟩⟩
  · simp
  · by_cases ha : a = '"' <;> simp [ha]
  · by_cases ha : a = '"'
    · have hb : b ≠ '"' := by
        rintro rfl
        simp [ha] at h
      simp [ha, hb]
    · simp [ha]

theorem readBlock_plain {c : Char} (hquote : c ≠ '"') (hc : 0x20 ≤ c.toNat ∨ c = '\t')
    {rest : List Char} (hescape : ∀ more, c = '\\' → rest ≠ '"' :: '"' :: '"' :: more) (cur : Cursor)
    (acc : List Char) :
    readBlock cur acc (c :: rest) = readBlock (cur.advance 1) (Text.settled c :: acc) rest := by
  have hne (a : Char) (ha : a.toNat < 0x20) (htab : a ≠ '\t') : c ≠ a := by
    rintro rfl
    rcases hc with hc | hc
    · omega
    · exact htab hc
  rw [readBlock]
  · rw [if_neg, if_neg]
    · rcases hc with hc | hc
      · omega
      · simp [hc]
    · simp [hne '\n' (by decide) (by decide), hne '\r' (by decide) (by decide)]
  · exact hquote
  · exact fun more hslash hmore => hescape more hslash hmore
  · exact fun more hcr _ => hne '\r' (by decide) (by decide) hcr

/-- What is read of a line of a block string: escaped quotes lose their mark, a carriage return that does
not end the line is a line feed, and a stray byte gives way to the replacement character. -/
def inside : List Char → List Char
  | [] => []
  | '\\' :: '"' :: '"' :: '"' :: rest => '"' :: '"' :: '"' :: inside rest
  | ['\r'] => []
  | c :: rest => (if c = '\r' then '\n' else Text.settled c) :: inside rest

/-- A line that stays inside a block string is read to its end. -/
theorem readBlock_line {line : List Char} (h : staysInside line = true) (cur : Cursor)
    (acc more : List Char) :
    ∃ cur', readBlock cur acc (line ++ '\n' :: more) =
      readBlock cur' ((inside line ++ ['\n']).reverse ++ acc) more := by
  fun_induction staysInside line generalizing cur acc with
  | case1 => exact ⟨_, rfl⟩
  | case2 rest ih =>
    obtain ⟨cur', hread⟩ := ih h (cur.advance 4) ('"' :: '"' :: '"' :: acc)
    exact ⟨cur', by simpa [readBlock, inside] using hread⟩
  | case3 rest hescape ih =>
    simp only [Bool.and_eq_true, Bool.not_eq_true'] at h
    obtain ⟨cur', hread⟩ := ih h.2 (cur.advance 1) ('"' :: acc)
    refine ⟨cur', ?_⟩
    have hrun := length_quotes_lt h.1 more
    have hinside : inside ('"' :: rest) = '"' :: inside rest := by
      have hquote : Text.settled '"' = '"' := by decide
      rw [inside] <;> simp [hquote]
    rw [List.cons_append, readBlock, if_neg (by omega), hread, hinside]
    simp
  | case4 c rest hescape hquote ih =>
    simp only [Bool.and_eq_true, Bool.or_eq_true, decide_eq_true_eq] at h
    by_cases hcr : c = '\r'
    · subst hcr
      -- A carriage return at the end of the line takes the line feed with it.
      rcases rest with _ | ⟨d, rest⟩
      · exact ⟨_, rfl⟩
      · have hd : d ≠ '\n' := by
          rintro rfl
          exact absurd h.2 (by simp [staysInside])
        obtain ⟨cur', hread⟩ := ih h.2 (cur.advance 1).newLine ('\n' :: acc)
        exact ⟨cur', by simpa [readBlock, inside, hd] using hread⟩
    · obtain ⟨cur', hread⟩ := ih h.2 (cur.advance 1) (Text.settled c :: acc)
      have hinside : inside (c :: rest) = Text.settled c :: inside rest := by
        rw [inside]
        · rw [if_neg hcr]
        · exact fun more hslash hmore => hescape more hslash hmore
        · exact fun hend _ => hcr hend
      refine ⟨cur', (readBlock_plain hquote (h.1.resolve_right hcr) ?_ cur acc).trans ?_⟩
      · intro more' hslash (hmore : rest ++ '\n' :: more = '"' :: '"' :: '"' :: more')
        rcases rest with _ | ⟨a, _ | ⟨b, _ | ⟨d, rest⟩⟩⟩
        · simp at hmore
        · simp at hmore
        · simp at hmore
        · simp only [List.cons_append, List.cons.injEq] at hmore
          exact hescape rest hslash (by rw [hmore.1, hmore.2.1, hmore.2.2.1])
      · rw [hinside]
        simpa using hread

/-- Lines that stay inside a block string, one after the other. -/
theorem readBlock_lines {lines : List (List Char)} (h : ∀ l ∈ lines, staysInside l = true)
    (cur : Cursor) (acc more : List Char) :
    ∃ cur', readBlock cur acc (lines.flatMap (· ++ ['\n']) ++ more) =
      readBlock cur' ((lines.flatMap (inside · ++ ['\n'])).reverse ++ acc) more := by
  induction lines generalizing cur acc with
  | nil => exact ⟨cur, rfl⟩
  | cons l lines ih =>
    obtain ⟨cur₁, hline⟩ := readBlock_line (h l List.mem_cons_self) cur acc
      (lines.flatMap (· ++ ['\n']) ++ more)
    obtain ⟨cur₂, hlines⟩ := ih (fun k hk => h k (List.mem_cons_of_mem l hk)) cur₁
      ((inside l ++ ['\n']).reverse ++ acc)
    refine ⟨cur₂, ?_⟩
    have hfirst : (l :: lines).flatMap (· ++ ['\n']) ++ more =
        l ++ '\n' :: (lines.flatMap (· ++ ['\n']) ++ more) := by simp
    rw [hfirst, hline, hlines]
    simp

/-- The closing quotes of a block string, after the indentation of their line. -/
theorem readBlock_close {rest : List Char} (hrest : ∀ c ∈ rest.head?, c ≠ '"') (n : Nat)
    (cur : Cursor) (acc : List Char) :
    ∃ fin, readBlock cur acc (List.replicate n '\t' ++ '"' :: '"' :: '"' :: rest) =
      .ok (acc.reverse ++ List.replicate n '\t', fin, rest) := by
  induction n generalizing cur acc with
  | zero =>
    have hrun : rest.takeWhile (· = '"') = [] := by
      cases rest with
      | nil => rfl
      | cons c rest => simp [hrest c rfl]
    exact ⟨cur.advance 0, by simp [readBlock, hrun]⟩
  | succ n ih =>
    have htab : Text.settled '\t' = '\t' := by decide
    obtain ⟨fin, hread⟩ := ih (cur.advance 1) ('\t' :: acc)
    refine ⟨fin, ?_⟩
    rw [List.replicate_succ, List.cons_append]
    refine (readBlock_plain (by decide) (.inr rfl) (by simp) cur acc).trans ?_
    rw [htab, hread]
    simp

/-- A text of lines between three quotes is one token. -/
theorem Reads.block {lines : List (List Char)} {rest : List Char} {ls : List Lexeme}
    (h : Reads rest ls) (hlines : ∀ l ∈ lines, staysInside l = true)
    (hrest : ∀ c ∈ rest.head?, c ≠ '"') (n : Nat) :
    Reads ('"' :: '"' :: '"' :: (lines.flatMap (· ++ ['\n']) ++
      (List.replicate n '\t' ++ '"' :: '"' :: '"' :: rest)))
      (⟨.blockString, String.ofList (BlockText.value
        (lines.flatMap (inside · ++ ['\n']) ++ List.replicate n '\t'))⟩ :: ls) := by
  refine h.cons (by decide) (by simp; omega) fun source cur => ?_
  obtain ⟨cur₁, hbody⟩ := readBlock_lines hlines (cur.advance 3) []
    (List.replicate n '\t' ++ '"' :: '"' :: '"' :: rest)
  obtain ⟨fin, hclose⟩ := readBlock_close hrest n cur₁
    ((lines.flatMap (inside · ++ ['\n'])).reverse ++ [])
  rw [List.append_nil, List.reverse_reverse] at hclose
  have hstep : step source cur ('"' :: '"' :: '"' :: (lines.flatMap (· ++ ['\n']) ++
      (List.replicate n '\t' ++ '"' :: '"' :: '"' :: rest))) =
      .token { kind := .blockString, value := String.ofList (BlockText.value
                 (lines.flatMap (inside · ++ ['\n']) ++ List.replicate n '\t')),
               pos := fin.positionOf source (cur.offset + 3) } (fin.advance 3) rest := by
    rw [step, hbody, List.append_nil, hclose]
  exact ⟨_, _, hstep, rfl, .inl rfl⟩

end OperationGraph.Scan
