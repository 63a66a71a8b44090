import OperationGraph.Proofs.Number.Shortest

/-! # Numerals read back

The positional text of a decimal is read as the number nearest to the decimal. So the text of a
double is read as that double (`read?_text`). -/

namespace OperationGraph

namespace Decimal

/-- A decimal is laid out as digits before the point, and behind it if there are any. Together they write
the decimal, and they begin with its first digit or with a single zero. -/
structure LaidOut (d : Decimal) (whole fraction : List ℕ) : Prop where
  ne_nil : whole ≠ []
  whole_lt : ∀ x ∈ whole, x < 10
  fraction_lt : ∀ x ∈ fraction, x < 10
  text_eq : d.positionalText = whole.map digitChar ++
    (if fraction = [] then [] else '.' :: fraction.map digitChar)
  value_eq : (ofDigits (whole ++ fraction) : ℚ) * 10 ^ (-(fraction.length : ℤ)) = d.value
  ne_zero : ofDigits (whole ++ fraction) ≠ 0
  head : whole = [0] ∨ whole.head? = d.digits.head?

section
variable {ds : List ℕ}

theorem lt_ten_of_mem_or_replicate {k : ℕ} (hproper : ∀ x ∈ ds, x < 10) {x : ℕ}
    (hx : x ∈ ds ∨ x ∈ List.replicate k 0) : x < 10 := by
  rcases hx with hx | hx
  · exact hproper x hx
  · rw [List.eq_of_mem_replicate hx]
    decide

/-- Zeros stand between the point and the digits. -/
theorem laidOut_below_point (k : ℕ) (hproper : ∀ x ∈ ds, x < 10) (hne : ofDigits ds ≠ 0) :
    (Decimal.mk ds (-(k : ℤ))).LaidOut [0] (List.replicate k 0 ++ ds) := by
  have hnil : ds ≠ [] := by
    rintro rfl
    exact hne rfl
  have hzero : ds ≠ [0] := by
    rintro rfl
    exact hne rfl
  have hvalue : ofDigits ([0] ++ (List.replicate k 0 ++ ds)) = ofDigits ds := by
    rw [ofDigits_append, ofDigits_append, ofDigits_replicate_zero]
    simp [ofDigits]
  refine ⟨by simp, by simp, fun x hx => ?_, ?_, ?_, ?_, .inl rfl⟩
  · exact lt_ten_of_mem_or_replicate hproper (List.mem_append.1 hx).symm
  · have hdigit : digitChar 0 = '0' := rfl
    simp [positionalText, hzero, hnil, hdigit]
  · rw [hvalue, value]
    congr 2
    simp
    ring
  · rw [hvalue]
    exact hne

/-- Zeros stand behind the digits, and there is no point. -/
theorem laidOut_above_digits {n : ℕ} (hn : 0 < n) (hlong : ds.length ≤ n)
    (hproper : ∀ x ∈ ds, x < 10) (hne : ofDigits ds ≠ 0) :
    (Decimal.mk ds n).LaidOut (ds ++ List.replicate (n - ds.length) 0) [] := by
  have hnil : ds ≠ [] := by
    rintro rfl
    exact hne rfl
  have hvalue : ofDigits (ds ++ List.replicate (n - ds.length) 0) =
      ofDigits ds * 10 ^ (n - ds.length) := by
    rw [ofDigits_append, ofDigits_replicate_zero, List.length_replicate, Nat.add_zero]
  refine ⟨by simp [hnil], fun x hx => ?_, by simp, ?_, ?_, ?_,
    .inr (List.head?_append_of_ne_nil ds hnil)⟩
  · exact lt_ten_of_mem_or_replicate hproper (List.mem_append.1 hx)
  · have hdigit : digitChar 0 = '0' := rfl
    simp [positionalText, hlong, hdigit]
    omega
  · rw [List.append_nil, hvalue, value]
    simp only [List.length_nil, Nat.cast_zero, neg_zero, zpow_zero, mul_one, Nat.cast_mul,
      Nat.cast_pow, Nat.cast_ofNat]
    rw [← zpow_natCast, Nat.cast_sub hlong]
  · rw [List.append_nil, hvalue]
    exact Nat.mul_ne_zero hne (by positivity)

/-- The point divides the digits. -/
theorem laidOut_within_digits {n : ℕ} (hn : 0 < n) (hshort : n < ds.length)
    (hproper : ∀ x ∈ ds, x < 10) (hne : ofDigits ds ≠ 0) :
    (Decimal.mk ds n).LaidOut (ds.take n) (ds.drop n) := by
  have hnil : ds ≠ [] := List.ne_nil_of_length_pos (hn.trans hshort)
  have htake : ds.take n ++ ds.drop n = ds := List.take_append_drop n ds
  refine ⟨?_, ?_, ?_, ?_, ?_, ?_, .inr ?_⟩
  · simp [hnil, hn.ne']
  · exact fun x hx => hproper x (List.mem_of_mem_take hx)
  · exact fun x hx => hproper x (List.mem_of_mem_drop hx)
  · simp [positionalText, hshort.not_ge]
    omega
  · rw [htake, value, List.length_drop, Nat.cast_sub hshort.le]
    congr 2
    ring
  · rw [htake]
    exact hne
  · rw [List.head?_take, if_neg hn.ne']

end

theorem exists_laidOut {d : Decimal} (hproper : d.IsProper) (hne : ofDigits d.digits ≠ 0) :
    ∃ whole fraction, d.LaidOut whole fraction := by
  obtain ⟨ds, point⟩ := d
  rcases le_or_gt point 0 with hpoint | hpoint
  · obtain ⟨k, rfl⟩ : ∃ k : ℕ, point = -(k : ℤ) := ⟨point.natAbs, by omega⟩
    exact ⟨_, _, laidOut_below_point k hproper hne⟩
  · obtain ⟨n, rfl⟩ : ∃ n : ℕ, point = n := ⟨point.toNat, by omega⟩
    have hn : 0 < n := by omega
    rcases le_or_gt ds.length n with hlong | hshort
    · exact ⟨_, _, laidOut_above_digits hn hlong hproper hne⟩
    · exact ⟨_, _, laidOut_within_digits hn hshort hproper hne⟩

@[simp] theorem text_positional (d : Decimal) : d.text .positional = d.positionalText := by
  simp [Decimal.text, NumeralLayout.positional]

end Decimal

namespace Binary
variable {f : BinaryFormat} {negative : Bool}

/-- Within the bounds of `ofScaled` a scaled number is rounded as the ratio that it is. -/
theorem exists_ofScaled_eq (f : BinaryFormat) (negative : Bool) {value : ℕ} (hvalue : value ≠ 0)
    (width : ℕ) (exponent : ℤ) (hlow : -400 ≤ exponent + width) (hhigh : exponent ≤ 400 + width) :
    ∃ num den : ℕ, 0 < den ∧ (num : ℚ) / den = value * 10 ^ exponent ∧
      ofScaled f negative value width exponent = ofRatio f negative num den := by
  have hnotLow : ¬ (exponent + width < -decimalBound) := by
    simp only [decimalBound]
    omega
  have hnotHigh : ¬ ((decimalBound : ℤ) + width < exponent) := by
    simp only [decimalBound]
    omega
  rw [ofScaled, if_neg hvalue, if_neg hnotLow, if_neg hnotHigh]
  split
  · obtain ⟨k, rfl⟩ : ∃ k : ℕ, exponent = -(k : ℤ) := ⟨exponent.natAbs, by omega⟩
    refine ⟨value, 10 ^ k, by positivity, ?_, by simp⟩
    rw [zpow_neg, zpow_natCast, Nat.cast_pow, Nat.cast_ofNat, div_eq_mul_inv]
  · obtain ⟨k, rfl⟩ : ∃ k : ℕ, exponent = k := ⟨exponent.natAbs, by omega⟩
    exact ⟨value * 10 ^ k, 1, Nat.one_pos, by simp, by simp⟩

/-- Digits, a fraction and what an exponent is read from are read together. -/
theorem readUnsigned?_digits {whole fraction : List ℕ} (hne : whole ≠ [])
    (hwhole : ∀ x ∈ whole, x < 10) (hfraction : ∀ x ∈ fraction, x < 10) {power : List Char} {x : ℤ}
    (hpower : ∀ c ∈ power.head?, c.isDigit = false ∧ c ≠ '.') (hx : readExponent? power = some x) :
    readUnsigned? f negative (whole.map Decimal.digitChar ++
        ((if fraction = [] then [] else '.' :: fraction.map Decimal.digitChar) ++ power)) =
      some (ofScaled f negative (ofDigits (whole ++ fraction)) (whole ++ fraction).length
        (x - fraction.length)) := by
  have hdigits : ∀ c ∈ power.head?, c.isDigit = false := fun c hc => (hpower c hc).1
  split
  · next hnil =>
    subst hnil
    rw [List.nil_append, List.append_nil, readUnsigned?, spanDigits_append hwhole power hdigits]
    cases power with
    | nil => simp [hne, hx]
    | cons c cs =>
      have hpoint : c ≠ '.' := (hpower c rfl).2
      simp [hne, hx, hpoint]
  · next hnil =>
    have hspan := spanDigits_append hwhole ('.' :: (fraction.map Decimal.digitChar ++ power)) (by simp)
    rw [List.cons_append, readUnsigned?, hspan]
    simp [spanDigits_append hfraction power hdigits, hne, hx]

/-- A positional text is read as the number nearest to its decimal. -/
theorem exists_readUnsigned?_eq (f : BinaryFormat) (negative : Bool) {d : Decimal}
    (hproper : d.IsProper) (hne : ofDigits d.digits ≠ 0) :
    ∃ num den : ℕ, 0 < den ∧ (num : ℚ) / den = d.value ∧
      readUnsigned? f negative d.positionalText = some (ofRatio f negative num den) := by
  obtain ⟨whole, fraction, hd⟩ := Decimal.exists_laidOut hproper hne
  obtain ⟨num, den, hden, hratio, hscaled⟩ := exists_ofScaled_eq f negative hd.ne_zero
    (whole ++ fraction).length (-(fraction.length : ℤ))
    (by simp only [List.length_append]; omega) (by omega)
  refine ⟨num, den, hden, hratio.trans hd.value_eq, ?_⟩
  have hread := @readUnsigned?_digits f negative whole fraction hd.ne_nil hd.whole_lt hd.fraction_lt
    [] 0 (by simp) rfl
  rw [List.append_nil, Int.zero_sub] at hread
  rw [hd.text_eq, hread, hscaled]

/-- A numeral that begins with a digit is read behind its sign. -/
theorem read?_of_digit (f : BinaryFormat) (negative : Bool) {c : Char} (hc : c.isDigit = true)
    (cs : List Char) :
    read? f ((if negative then ['-'] else []) ++ c :: cs) = readUnsigned? f negative (c :: cs) := by
  have hne (a : Char) (ha : a.isDigit = false) : c ≠ a := by
    rintro rfl
    rw [hc] at ha
    cases ha
  have hlower : c.toLower = c := by
    simp only [Char.isDigit, ge_iff_le, Bool.and_eq_true, decide_eq_true_eq] at hc
    refine dif_neg fun hupper => ?_
    have h1 := hc.2
    have h2 := hupper.1
    simp only [UInt32.le_iff_toNat_le] at h1 h2
    simp at h1 h2
    omega
  have hi : c ≠ 'i' := hne 'i' (by decide)
  have hn : c ≠ 'n' := hne 'n' (by decide)
  have hminus : c ≠ '-' := hne '-' (by decide)
  have hplus : c ≠ '+' := hne '+' (by decide)
  cases negative with
  | true => simp [read?, hlower, hi, hn]
  | false =>
    rw [read?]
    · simp [hlower, hi, hn]
    · simp [hminus]
    · simp [hplus]

theorem belongsTo_ofScaled (negative : Bool) (value width : ℕ) (exponent : ℤ) :
    (ofScaled .double negative value width exponent).BelongsTo .double := by
  have hzero := belongsTo_zero (f := .double) (by decide) negative
  have hratio (num : ℕ) {den : ℕ} (hden : 0 < den) :
      (ofRatio .double negative num den).BelongsTo .double :=
    belongsTo_ofRatio (by decide) (by decide) negative num hden
  unfold ofScaled
  split_ifs
  · exact hzero
  · exact hzero
  · trivial
  · exact hratio _ (Nat.pow_pos (by decide))
  · exact hratio _ Nat.one_pos

/-- What is read is a double. -/
theorem belongsTo_read? {x : Binary} {cs : List Char} (h : read? .double cs = some x) :
    x.BelongsTo .double := by
  simp only [read?] at h
  split_ifs at h
  · cases h
    trivial
  · cases h
    trivial
  · simp only [readUnsigned?] at h
    split_ifs at h
    obtain ⟨e, -, rfl⟩ := Option.map_eq_some_iff.1 h
    exact belongsTo_ofScaled _ _ _ _

/-- The positional text of a double is read as the double. -/
theorem read?_text {x : Binary} (h : x.BelongsTo .double) :
    read? .double (x.text .double .positional).toList = some x := by
  cases x with
  | nan => decide
  | infinite negative => cases negative <;> decide
  | finite negative m e =>
    have hb : (Binary.finite false m e).BelongsTo .double := h
    rw [text, String.toList_ofList]
    rcases Nat.eq_zero_or_pos m with rfl | hm
    · obtain rfl : e = -1074 := h.2.2.2.resolve_right (by decide)
      cases negative <;> decide
    · obtain ⟨hreads, hne⟩ := readsAs_shortest hb hm
      have hproper := isProper_shortest .double m e
      obtain ⟨num, den, hden, hvalue, hread⟩ :=
        exists_readUnsigned?_eq .double negative hproper hne
      obtain ⟨whole, fraction, hlaid⟩ := Decimal.exists_laidOut hproper hne
      obtain ⟨d, ds, rfl⟩ := List.exists_cons_of_ne_nil hlaid.ne_nil
      have hdigit := isDigit_digitChar (hlaid.whole_lt d List.mem_cons_self)
      rw [Decimal.text_positional, hlaid.text_eq, List.map_cons, List.cons_append,
        read?_of_digit .double negative hdigit, ← List.cons_append, ← List.map_cons, ← hlaid.text_eq,
        hread, hreads negative num den hden hvalue]

end Binary

end OperationGraph
