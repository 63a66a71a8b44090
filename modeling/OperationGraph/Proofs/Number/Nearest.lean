import OperationGraph.Proofs.Number.Exchange

/-! # Numerals and the doubles nearest to them

A numeral denotes a rational number (`Numeral.value?`), and it is read as the double nearest to that
number. The text of the double denotes the shortest decimal that is read as it (`viaDouble`). This is the
number again if that has at most fifteen digits, since two multiples of a decimal place of that size lie
farther apart than a double from the numbers that are read as it (`viaDouble_of_hasFewDigits`). -/

namespace OperationGraph

/-! ### What a numeral denotes -/

theorem lt_ten_of_mem_spanDigits {cs : List Char} {d : ℕ} (h : d ∈ (spanDigits cs).1) : d < 10 := by
  simp only [spanDigits, List.mem_filterMap] at h
  obtain ⟨c, -, hc⟩ := h
  unfold digit? at hc
  split at hc
  · next hdigit =>
    obtain rfl := Option.some.inj hc
    simp only [Char.isDigit, ge_iff_le, Bool.and_eq_true, decide_eq_true_eq] at hdigit
    have h1 := hdigit.1
    have h2 := hdigit.2
    simp only [UInt32.le_iff_toNat_le] at h1 h2
    simp at h1 h2 ⊢
    omega
  · cases hc

namespace Numeral

/-- The digits behind a point, if there is one, and what follows them. -/
def spanFraction : List Char → List ℕ × List Char
  | '.' :: cs => spanDigits cs
  | cs => ([], cs)

/-- The number that digits, a fraction and an exponent denote. -/
def unsignedValue? (cs : List Char) : Option ℚ :=
  let (whole, rest) := spanDigits cs
  let (fraction, rest) := spanFraction rest
  if whole = [] then none
  else (Binary.readExponent? rest).map fun e : ℤ =>
    (ofDigits (whole ++ fraction) : ℚ) * 10 ^ (e - fraction.length)

/-- The number that a numeral denotes. -/
def value? : List Char → Option ℚ
  | '-' :: cs => (unsignedValue? cs).map fun x => -x
  | cs => unsignedValue? cs

variable {cs : List Char} {x : ℚ}

theorem exists_digit_of_unsignedValue? (h : unsignedValue? cs = some x) :
    ∃ c rest, cs = c :: rest ∧ c.isDigit = true := by
  cases cs with
  | nil => cases h
  | cons c rest =>
    refine ⟨c, rest, rfl, ?_⟩
    by_contra hc
    simp [unsignedValue?, spanDigits, hc] at h

/-- What begins with a digit has no sign. -/
theorem value?_of_unsignedValue? (h : unsignedValue? cs = some x) : value? cs = some x := by
  obtain ⟨c, rest, rfl, hc⟩ := exists_digit_of_unsignedValue? h
  have hminus : c ≠ '-' := by
    rintro rfl
    cases hc
  rw [← h, value?]
  simp [hminus]

/-- What a numeral denotes is what it is read from. -/
theorem exists_readUnsigned?_of_unsignedValue? (h : unsignedValue? cs = some x) (f : BinaryFormat)
    (negative : Bool) :
    ∃ (value width : ℕ) (exponent : ℤ), value < 10 ^ width ∧ x = value * 10 ^ exponent ∧
      Binary.readUnsigned? f negative cs =
        some (Binary.ofScaled f negative value width exponent) := by
  simp only [unsignedValue?] at h
  set whole := (spanDigits cs).1
  set fraction := (spanFraction (spanDigits cs).2).1
  have hfraction : ∀ d ∈ fraction, d < 10 := by
    simp only [fraction, spanFraction]
    split
    · exact fun d hd => lt_ten_of_mem_spanDigits hd
    · simp
  split at h
  · cases h
  · next hne =>
    obtain ⟨e, he, rfl⟩ := Option.map_eq_some_iff.1 h
    refine ⟨ofDigits (whole ++ fraction), (whole ++ fraction).length, e - fraction.length, ?_, rfl, ?_⟩
    · exact Binary.ofDigits_lt fun d hd =>
        (List.mem_append.1 hd).elim lt_ten_of_mem_spanDigits (hfraction d)
    · have hsome : Binary.readUnsigned? f negative cs =
          if (whole ++ fraction).isEmpty then none
          else (Binary.readExponent? (spanFraction (spanDigits cs).2).2).map fun e =>
            Binary.ofScaled f negative (ofDigits (whole ++ fraction)) (whole ++ fraction).length
              (e - fraction.length) := rfl
      rw [hsome, if_neg (by simp [hne]), he]
      rfl

theorem exists_read?_of_value? (h : value? cs = some x) (f : BinaryFormat) :
    ∃ (negative : Bool) (value width : ℕ) (exponent : ℤ), value < 10 ^ width ∧
      x = (if negative then -1 else 1) * (value * 10 ^ exponent) ∧
      Binary.read? f cs = some (Binary.ofScaled f negative value width exponent) := by
  unfold value? at h
  split at h
  · next rest =>
    obtain ⟨y, hy, rfl⟩ := Option.map_eq_some_iff.1 h
    obtain ⟨value, width, exponent, hlt, rfl, hread⟩ :=
      exists_readUnsigned?_of_unsignedValue? hy f true
    obtain ⟨c, tail, rfl, hc⟩ := exists_digit_of_unsignedValue? hy
    refine ⟨true, value, width, exponent, hlt, by simp, ?_⟩
    rw [← hread]
    exact Binary.read?_of_digit f true hc tail
  · obtain ⟨value, width, exponent, hlt, rfl, hread⟩ :=
      exists_readUnsigned?_of_unsignedValue? h f false
    obtain ⟨c, tail, rfl, hc⟩ := exists_digit_of_unsignedValue? h
    refine ⟨false, value, width, exponent, hlt, by simp, ?_⟩
    rw [← hread]
    exact Binary.read?_of_digit f false hc tail

/-- A sign, digits and a fraction denote what the digits write, with the point in its place. -/
theorem value?_digits (negative : Bool) {whole fraction : List ℕ} (hne : whole ≠ [])
    (hwhole : ∀ d ∈ whole, d < 10) (hfraction : ∀ d ∈ fraction, d < 10) :
    value? ((if negative then ['-'] else []) ++ (whole.map Decimal.digitChar ++
        if fraction = [] then [] else '.' :: fraction.map Decimal.digitChar)) =
      some ((if negative then -1 else 1) *
        ((ofDigits (whole ++ fraction) : ℚ) * 10 ^ (-(fraction.length : ℤ)))) := by
  have hunsigned : unsignedValue? (whole.map Decimal.digitChar ++
      if fraction = [] then [] else '.' :: fraction.map Decimal.digitChar) =
        some ((ofDigits (whole ++ fraction) : ℚ) * 10 ^ (-(fraction.length : ℤ))) := by
    split
    · next hnil =>
      subst hnil
      rw [List.append_nil, unsignedValue?, spanDigits_digits hwhole]
      simp [spanFraction, hne, Binary.readExponent?]
    · rw [unsignedValue?, spanDigits_append hwhole _ (by simp)]
      simp [spanFraction, spanDigits_digits hfraction, hne, Binary.readExponent?]
  cases negative with
  | true =>
    simp only [if_true, List.cons_append, List.nil_append, value?, hunsigned, Option.map_some, neg_one_mul]
  | false =>
    simp only [Bool.false_eq_true, if_false, List.nil_append, one_mul]
    exact value?_of_unsignedValue? hunsigned

theorem unsignedValue?_of_spanDigits {ds : List ℕ} (h : spanDigits cs = (ds, [])) (hne : ds ≠ []) :
    unsignedValue? cs = some (ofDigits ds) := by
  simp [unsignedValue?, h, spanFraction, hne, Binary.readExponent?]

theorem exists_digits_of_readInt? {n : ℤ} (h : readInt? cs = some n) :
    ∃ (rest : List Char) (ds : List ℕ), spanDigits rest = (ds, []) ∧ ds ≠ [] ∧
      (cs = '-' :: rest ∧ n = -ofDigits ds ∨ (cs = '+' :: rest ∨ cs = rest) ∧ n = ofDigits ds) := by
  unfold readInt? at h
  split at h
  next negative rest hsign =>
  split at h
  · cases h
  · next ds hne hspan =>
    refine ⟨rest, ds, hspan, hne, ?_⟩
    obtain rfl := Option.some.inj h
    split at hsign <;> obtain ⟨rfl, rfl⟩ := Prod.mk.inj hsign
    · exact .inl ⟨rfl, rfl⟩
    · exact .inr ⟨.inl rfl, rfl⟩
    · exact .inr ⟨.inr rfl, rfl⟩
  · cases h

/-- A numeral that is read as an integer denotes the integer. -/
theorem eq_of_readInt? {n : ℤ} (h : readInt? cs = some n) (hx : value? cs = some x) : x = n := by
  obtain ⟨rest, ds, hspan, hne, hsign⟩ := exists_digits_of_readInt? h
  have hunsigned := unsignedValue?_of_spanDigits hspan hne
  rcases hsign with ⟨rfl, rfl⟩ | ⟨rfl | rfl, rfl⟩
  · rw [value?, hunsigned] at hx
    obtain rfl := Option.some.inj hx
    simp
  · -- a sign is no digit
    have hplus : unsignedValue? ('+' :: rest) = some x := hx
    obtain ⟨c, tail, hcs, hc⟩ := exists_digit_of_unsignedValue? hplus
    obtain rfl := (List.cons.inj hcs).1
    cases hc
  · rw [value?_of_unsignedValue? hunsigned] at hx
    obtain rfl := Option.some.inj hx
    simp

end Numeral

namespace Binary

/-! ### The nearest double -/

/-- The double nearest to the magnitude of a number, with a sign. -/
def nearest (negative : Bool) (x : ℚ) : Binary := ofRatio .double negative x.num.natAbs x.den

/-- The bound of the numbers that have a nearest double: half of a last place above the greatest. -/
def doubleBound : ℚ := (2 ^ 53 - 1 / 2) * 2 ^ (971 : ℤ)

/-- The number that is denoted by the text of the double nearest to a number. -/
def viaDouble (x : ℚ) : ℚ :=
  match nearest false x with
  | .finite _ m e => (if x < 0 then -1 else 1) * (shortest .double m e).value
  | _ => 0

section
variable {f : BinaryFormat} {negative : Bool} {num den m : ℕ} {e : ℤ} {x : ℚ}

theorem natAbs_num_div_den (x : ℚ) : (x.num.natAbs : ℚ) / x.den = |x| := by
  rw [Rat.abs_def, Rat.divInt_eq_div]
  simp

theorem ofRatio_eq_nearest (hden : 0 < den) (h : (num : ℚ) / den = |x|) :
    ofRatio .double negative num den = nearest negative x :=
  ofRatio_congr hden x.den_pos (h.trans (natAbs_num_div_den x).symm)

/-- A number that is too small for half of the last place is rounded to zero. -/
theorem nearest_eq_zero (h : |x| < 2 ^ (-1075 : ℤ)) : nearest negative x = zero .double negative := by
  rcases eq_or_ne x 0 with rfl | hne
  · rfl
  have hnum : 0 < x.num.natAbs := Int.natAbs_pos.2 (Rat.num_ne_zero.2 hne)
  have hsmall : 2 * (|x| / 2 ^ (-1074 : ℤ)) < 1 := by
    rw [← mul_div_assoc, div_lt_one (by positivity)]
    have hdouble : (2 : ℚ) ^ (-1074 : ℤ) = 2 * 2 ^ (-1075 : ℤ) := by
      rw [← zpow_one_add₀ (by norm_num)]
      norm_num
    rw [hdouble]
    linarith
  have hnonneg : 0 ≤ |x| / 2 ^ (-1074 : ℤ) := by positivity
  rw [nearest, ofRatio_eq_settle (k := -1074) (m := 0) hnum x.den_pos]
  · rfl
  · rw [natAbs_num_div_den]
    refine ⟨le_rfl, ?_, .inl rfl⟩
    have hbound : (1 : ℚ) ≤ 2 ^ BinaryFormat.double.precision := one_le_pow₀ (by norm_num)
    linarith
  · rw [natAbs_num_div_den]
    left
    rw [Nat.cast_zero, sub_zero, abs_of_nonneg hnonneg]
    exact hsmall

/-- The bounds of exponents do not matter to what is read. -/
theorem ofScaled_eq_nearest {value width : ℕ} {exponent : ℤ} (hwidth : value < 10 ^ width)
    (h : (value : ℚ) * 10 ^ exponent < doubleBound) (negative : Bool) :
    ofScaled .double negative value width exponent = nearest negative (value * 10 ^ exponent) := by
  have hnonneg : (0 : ℚ) ≤ value * 10 ^ exponent := by positivity
  rcases Nat.eq_zero_or_pos value with rfl | hvalue
  · rw [ofScaled, if_pos rfl, Nat.cast_zero, zero_mul]
    rfl
  have hten : (0 : ℚ) < 10 ^ exponent := by positivity
  have hnotHigh : exponent ≤ 400 + width := by
    by_contra hlt
    have hone : (1 : ℚ) ≤ value := by exact_mod_cast hvalue
    refine absurd h (not_lt.2 ?_)
    calc doubleBound ≤ 2 ^ 53 * 2 ^ (971 : ℤ) :=
          mul_le_mul_of_nonneg_right (by norm_num) (by positivity)
      _ ≤ 10 ^ (399 : ℤ) := greatest_lt_ten_zpow.le
      _ ≤ 10 ^ exponent := zpow_le_zpow_right₀ (by norm_num) (by omega)
      _ ≤ value * 10 ^ exponent := le_mul_of_one_le_left hten.le hone
  rcases lt_or_ge (exponent + width) (-400) with hlow | hlow
  · rw [ofScaled, if_neg hvalue.ne', if_pos (by simpa [decimalBound] using hlow), nearest_eq_zero]
    rw [abs_of_nonneg hnonneg]
    have hlt : (value : ℚ) < 10 ^ (width : ℤ) := by exact_mod_cast hwidth
    calc (value : ℚ) * 10 ^ exponent < 10 ^ (width : ℤ) * 10 ^ exponent := by gcongr
      _ = 10 ^ (width + exponent) := (zpow_add₀ (by norm_num) _ _).symm
      _ ≤ 10 ^ (-399 : ℤ) := zpow_le_zpow_right₀ (by norm_num) (by omega)
      _ ≤ 2 ^ (-1075 : ℤ) := ten_zpow_lt_least.le
  · obtain ⟨num, den, hden, hratio, hscaled⟩ :=
      exists_ofScaled_eq .double negative hvalue.ne' width exponent hlow hnotHigh
    rw [hscaled, ofRatio_eq_nearest hden (hratio.trans (abs_of_nonneg hnonneg).symm)]

theorem lt_doubleBound (h : |x| ≤ 2 ^ 63) : |x| < doubleBound := by
  have hpow : (2 : ℚ) ^ (11 : ℤ) ≤ 2 ^ (971 : ℤ) := zpow_le_zpow_right₀ (by norm_num) (by norm_num)
  rw [doubleBound]
  generalize (2 : ℚ) ^ (971 : ℤ) = u at *
  norm_num at hpow h ⊢
  linarith

/-- A number within the bound has a nearest double. -/
theorem exists_nearest_eq (h : |x| < doubleBound) :
    ∃ m e, (Binary.finite false m e).BelongsTo .double ∧
      ∀ negative, nearest negative x = .finite negative m e := by
  have hbelongs : (nearest false x).BelongsTo .double :=
    belongsTo_ofRatio (by decide) (by decide) false _ x.den_pos
  suffices hfinite : ∃ m e, nearest false x = .finite false m e by
    obtain ⟨m, e, heq⟩ := hfinite
    exact ⟨m, e, heq ▸ hbelongs, fun negative => ofRatio_of_sign x.den_pos heq negative⟩
  rcases eq_or_ne x 0 with rfl | hne
  · exact ⟨0, -1074, rfl⟩
  obtain ⟨m, k, hk, hm, heq⟩ := exists_ofRatio_eq_settle .double false
    (Int.natAbs_pos.2 (Rat.num_ne_zero.2 hne)) x.den_pos
  rw [natAbs_num_div_den] at hk hm
  -- a greater place, or a carry at the greatest one, takes a number beyond the bound
  have hplace : k ≤ 971 := by
    by_contra hlt
    have hfull : (2 : ℚ) ^ 53 ≤ 2 * (|x| / 2 ^ k) := hk.full.resolve_left (by
      have : BinaryFormat.double.minExponent = -1074 := rfl
      omega)
    have hpow : (2 : ℚ) ^ ((971 : ℤ) + 1) ≤ 2 ^ k := zpow_le_zpow_right₀ (by norm_num) (by omega)
    rw [← mul_div_assoc, le_div_iff₀ (by positivity)] at hfull
    rw [zpow_add_one₀ (by norm_num)] at hpow
    rw [doubleBound] at h
    have hpos : (0 : ℚ) < 2 ^ (971 : ℤ) := by positivity
    generalize (2 : ℚ) ^ (971 : ℤ) = u at *
    nlinarith
  have hcarry : m = 2 ^ 53 → k ≠ 971 := by
    rintro rfl rfl
    have hupper := hm.lower
    have hpos : (0 : ℚ) < 2 ^ (971 : ℤ) := by positivity
    rw [doubleBound, ← div_lt_iff₀ hpos] at h
    rw [Nat.cast_pow, Nat.cast_ofNat] at hupper
    linarith
  rw [nearest, heq]
  simp only [settle]
  have hprecision : BinaryFormat.double.precision = 53 := rfl
  have hmax : BinaryFormat.double.maxExponent = 971 := rfl
  rw [hprecision, hmax]
  split_ifs with hm' hk' hk'
  · have := hcarry hm'
    omega
  · exact ⟨_, _, rfl⟩
  · omega
  · exact ⟨_, _, rfl⟩

/-- A number is at most half of a last place away from what it is rounded to. -/
theorem abs_sub_le_of_ofRatio (hprecision : 0 < f.precision) (hden : 0 < den)
    (h : ofRatio f negative num den = .finite negative m e) :
    |(num : ℚ) / den - m * 2 ^ e| ≤ 2 ^ e / 2 := by
  rcases Nat.eq_zero_or_pos num with rfl | hnum
  · simp only [ofRatio, zero, if_true, finite.injEq, true_and] at h
    rw [← h.1, Nat.cast_zero, zero_div, zero_mul, sub_zero, abs_zero]
    positivity
  obtain ⟨m', k, hk, hm, heq⟩ := exists_ofRatio_eq_settle f negative hnum hden
  have hpos : (0 : ℚ) < 2 ^ k := by positivity
  have hnear : |(num : ℚ) / den - m' * 2 ^ k| ≤ 2 ^ k / 2 := by
    have hscale : (num : ℚ) / den - m' * 2 ^ k = ((num : ℚ) / den / 2 ^ k - m') * 2 ^ k := by
      field_simp
    rw [hscale, abs_mul, abs_of_pos hpos]
    have := hm.le_one
    nlinarith
  rw [heq] at h
  simp only [settle] at h
  split_ifs at h with hcarry hmax hmax
  · -- the mantissa is halved and the place is doubled
    obtain ⟨-, rfl, rfl⟩ := finite.inj h
    have hsame : ((2 ^ (f.precision - 1) : ℕ) : ℚ) * 2 ^ (k + 1) = m' * 2 ^ k := by
      have hhalf : 2 * 2 ^ (f.precision - 1) = 2 ^ f.precision := by
        rw [← pow_succ', Nat.sub_add_cancel hprecision]
      rw [hcarry, ← hhalf, zpow_add_one₀ (by norm_num)]
      push_cast
      ring
    rw [hsame, zpow_add_one₀ (by norm_num)]
    linarith
  · obtain ⟨-, rfl, rfl⟩ := finite.inj h
    exact hnear

theorem value_shortest_zero (e : ℤ) : (shortest .double 0 e).value = 0 := by
  simp [shortest, Decimal.value, ofDigits]

/-- The text of a finite double denotes its shortest decimal. -/
theorem value?_text (hb : (Binary.finite false m e).BelongsTo .double) (negative : Bool) :
    Numeral.value? ((Binary.finite negative m e).text .double .positional).toList =
      some ((if negative then -1 else 1) * (shortest .double m e).value) := by
  rw [text, String.toList_ofList]
  rcases Nat.eq_zero_or_pos m with rfl | hm
  · have hdigits := Numeral.value?_digits negative (List.cons_ne_nil 0 [])
      (by simp : ∀ d ∈ [0], d < 10) (by simp : ∀ d ∈ [], d < 10)
    have htext : (shortest .double 0 e).positionalText = [Decimal.digitChar 0] := rfl
    rw [value_shortest_zero, mul_zero]
    simpa [htext, ofDigits] using hdigits
  · obtain ⟨whole, fraction, hlaid, -⟩ := exists_laidOut_shortest hb hm
    rw [Decimal.text_positional, hlaid.text_eq, ← hlaid.value_eq]
    exact Numeral.value?_digits negative hlaid.ne_nil hlaid.whole_lt hlaid.fraction_lt

theorem viaDouble_of_nearest (h : nearest false x = .finite false m e) :
    viaDouble x = (if x < 0 then -1 else 1) * (shortest .double m e).value := by
  rw [viaDouble, h]

/-- A numeral within the bound is read as a double, whose text denotes what becomes of the number. -/
theorem exists_read?_of_value? {cs : List Char} (hcs : Numeral.value? cs = some x)
    (hx : |x| < doubleBound) :
    ∃ negative m e, read? .double cs = some (.finite negative m e) ∧
      (Binary.finite negative m e).BelongsTo .double ∧
      Numeral.value? ((Binary.finite negative m e).text .double .positional).toList =
        some (viaDouble x) := by
  obtain ⟨negative, value, width, exponent, hwidth, hvalue, hread⟩ :=
    Numeral.exists_read?_of_value? hcs .double
  obtain ⟨m, e, hb, hnearest⟩ := exists_nearest_eq hx
  set q : ℚ := value * 10 ^ exponent with hq
  have hnonneg : 0 ≤ q := by positivity
  have habs : |x| = q := by
    rw [hvalue, abs_mul, abs_of_nonneg hnonneg]
    cases negative <;> simp
  have hsame : nearest negative q = nearest negative x :=
    ofRatio_congr q.den_pos x.den_pos (by
      rw [natAbs_num_div_den, natAbs_num_div_den, habs, abs_of_nonneg hnonneg])
  rw [ofScaled_eq_nearest hwidth (by rwa [← hq, ← habs]) negative, ← hq, hsame, hnearest] at hread
  refine ⟨negative, m, e, hread, hb, ?_⟩
  rw [value?_text hb negative, viaDouble_of_nearest (hnearest false), Option.some.injEq]
  rcases hnonneg.eq_or_lt with hzero | hpos
  · -- zero has no sign
    obtain rfl : x = 0 := by simpa [← hzero] using habs
    obtain ⟨-, rfl, -⟩ := finite.inj ((hnearest false).symm.trans (rfl : _ = zero .double false))
    rw [value_shortest_zero, mul_zero, mul_zero]
  · have hsign : x < 0 ↔ negative = true := by
      rw [hvalue]
      cases negative <;> simp [hpos, hpos.le]
    simp only [hsign]

/-! ### Numbers of few digits -/

/-- A number has at most fifteen digits, and a double of its size has its full precision. -/
def HasFewDigits (x : ℚ) : Prop :=
  x = 0 ∨ 2 ^ (-1022 : ℤ) ≤ |x| ∧ ∃ (c : ℕ) (k : ℤ), c < 10 ^ 15 ∧ |x| = c * 10 ^ k

theorem ReadsAs.abs_sub_le (h : ReadsAs .double m e x) (hx : 0 ≤ x) :
    |x - m * 2 ^ e| ≤ 2 ^ e / 2 := by
  have hvalue := (natAbs_num_div_den x).trans (abs_of_nonneg hx)
  have hread := h false x.num.natAbs x.den x.den_pos hvalue
  have hnear := abs_sub_le_of_ofRatio (by decide) x.den_pos hread
  rwa [hvalue] at hnear

/-- What is picked on a grid is one of its points. -/
theorem exists_value_eq_of_digitsOn? (hm : 0 < m) {count : ℕ} {d : Decimal}
    (h : digitsOn? f m e (count + 1) = some d) :
    ∃ c : ℕ, d.value = c * 10 ^ (pointAt m e - (count + 1 : ℕ)) := by
  obtain ⟨c, hc, -, rfl⟩ := exists_of_digitsOn? h
  obtain ⟨hlow, hhigh⟩ := scaled_floor hm e count
  exact ⟨c, value_onGrid (pointAt m e) (by omega) (by omega)⟩

/-- A point of a coarser decimal grid is one of a finer grid. -/
theorem exists_mul_zpow_eq (c : ℕ) {j k : ℤ} (h : j ≤ k) :
    ∃ c' : ℕ, (c : ℚ) * 10 ^ k = c' * 10 ^ j := by
  obtain ⟨n, rfl⟩ : ∃ n : ℕ, k = n + j := ⟨(k - j).toNat, by omega⟩
  refine ⟨c * 10 ^ n, ?_⟩
  rw [zpow_add₀ (by norm_num), zpow_natCast]
  push_cast
  ring

/-- Points of a grid that are less than a step apart are the same. -/
theorem eq_of_abs_mul_sub_lt {a b : ℕ} {step : ℚ} (hstep : 0 < step)
    (h : |a * step - b * step| < step) : a = b := by
  rw [← sub_mul, abs_mul, abs_of_pos hstep, mul_lt_iff_lt_one_left hstep] at h
  have hint : |(a : ℤ) - b| < 1 := by exact_mod_cast h
  have := Int.abs_lt_one_iff.1 hint
  omega

theorem ten_zpow_add_fifteen (k : ℤ) : (10 : ℚ) ^ (k + 15) = 10 ^ k * 10 ^ 15 := by
  rw [← zpow_natCast, ← zpow_add₀ (by norm_num)]
  rfl

section
variable (hm : 2 ^ 52 ≤ m) {c : ℕ} {k : ℤ} (hc : c < 10 ^ 15)
  (hreads : ReadsAs .double m e (c * 10 ^ k))
include hm

/-- A step of the grid of fifteen digits is longer than a last place of the double. -/
theorem lt_zpow_pointAt : (2 : ℚ) ^ e < 10 ^ (pointAt m e - 15) := by
  have hm' : (2 : ℚ) ^ 52 ≤ m := by exact_mod_cast hm
  have hpos : (0 : ℚ) < 2 ^ e := by positivity
  obtain ⟨-, hhigh⟩ := pointAt_bounds (lt_of_lt_of_le (by positivity) hm) e
  have hsplit := ten_zpow_add_fifteen (pointAt m e - 15)
  rw [sub_add_cancel] at hsplit
  rw [hsplit] at hhigh
  nlinarith

/-- A point of the grid of fifteen digits that reads back is a neighbour of the double, so that the
search ends there at the latest. -/
theorem isSome_digitsOn?_fifteen (h : ReadsAs .double m e (c * 10 ^ (pointAt m e - 15))) :
    (digitsOn? .double m e 15).isSome := by
  have hback : ReadsBack .double m e 15 c := by
    refine h false _ _ (shiftRatio_den_pos c Nat.one_pos _) ?_
    rw [shiftRatio_div, Nat.cast_one, div_one, Nat.cast_ofNat]
  obtain ⟨hlower, hupper⟩ := floor_scaled m e 15
  have hnear := h.abs_sub_le (by positivity)
  have hunit := lt_zpow_pointAt hm (e := e)
  have hscale : (0 : ℚ) < 10 ^ ((15 : ℕ) - pointAt m e) := by positivity
  have hone : (10 : ℚ) ^ (pointAt m e - 15) * 10 ^ ((15 : ℕ) - pointAt m e) = 1 := by
    rw [← zpow_add₀ (by norm_num)]
    simp
  have hclose : |(c : ℚ) - m * 2 ^ e * 10 ^ ((15 : ℕ) - pointAt m e)| < 1 := by
    have hsub : (c : ℚ) - m * 2 ^ e * 10 ^ ((15 : ℕ) - pointAt m e) =
        (c * 10 ^ (pointAt m e - 15) - m * 2 ^ e) * 10 ^ ((15 : ℕ) - pointAt m e) := by
      rw [sub_mul, mul_assoc (c : ℚ), hone, mul_one]
    rw [hsub, abs_mul, abs_of_pos hscale, ← hone]
    have hpos : (0 : ℚ) < 2 ^ e := by positivity
    exact mul_lt_mul_of_pos_right (by linarith) hscale
  rw [abs_lt] at hclose
  set n := (scaled m e 15).1 / (scaled m e 15).2
  have habove : n < c + 1 := by
    have : (n : ℚ) < c + 1 := by linarith
    exact_mod_cast this
  have hbelow : c < n + 2 := by
    have : (c : ℚ) < n + 2 := by linarith
    exact_mod_cast this
  apply isSome_digitsOn?
  rcases (by omega : c = n ∨ c = n + 1) with rfl | rfl
  · exact .inl hback
  · exact .inr hback

include hc hreads

/-- A number of fifteen digits is not below the decimal place where its double begins. -/
theorem pointAt_le : pointAt m e ≤ k + 15 := by
  by_contra hlt
  have hm' : (2 : ℚ) ^ 52 ≤ m := by exact_mod_cast hm
  have hpos : (0 : ℚ) < 2 ^ e := by positivity
  have hnear := abs_le.1 (hreads.abs_sub_le (by positivity))
  obtain ⟨hlow, -⟩ := pointAt_bounds (lt_of_lt_of_le (by positivity) hm) e
  have hstep : (0 : ℚ) < 10 ^ k := by positivity
  have hsplit := ten_zpow_add_fifteen k
  have hbelow : (10 : ℚ) ^ (k + 15) ≤ 10 ^ (pointAt m e - 1) :=
    zpow_le_zpow_right₀ (by norm_num) (by omega)
  have hc' : (c : ℚ) + 1 ≤ 10 ^ 15 := by exact_mod_cast hc
  -- the number is a step below the power of ten, and the double is not
  have hgap : (c : ℚ) * 10 ^ k + 10 ^ k ≤ m * 2 ^ e := by nlinarith
  nlinarith

/-- A number of fifteen digits is the shortest decimal of its double. -/
theorem value_shortest_of_readsAs : (shortest .double m e).value = c * 10 ^ k := by
  have hpos : 0 < m := lt_of_lt_of_le (by positivity) hm
  have hstep : (0 : ℚ) < 10 ^ (pointAt m e - 15) := by positivity
  have hunit := lt_zpow_pointAt hm (e := e)
  obtain ⟨a, ha⟩ := exists_mul_zpow_eq c (j := pointAt m e - 15) (k := k) (by
    have := pointAt_le hm hc hreads
    omega)
  rw [ha] at hreads ⊢
  have hnear := hreads.abs_sub_le (by positivity)
  obtain ⟨count, hcount, hfound⟩ :=
    exists_digitsOn?_eq 17 0 (by omega) (isSome_digitsOn?_fifteen hm hreads)
  have hvalue : (shortest .double m e).value = (digitsFrom .double m e 17 1).value := by
    rw [shortest, if_neg hpos.ne']
  obtain ⟨b, hb'⟩ := exists_value_eq_of_digitsOn? hpos hfound
  obtain ⟨b', hb''⟩ := exists_mul_zpow_eq b (j := pointAt m e - 15)
    (k := pointAt m e - (count + 1 : ℕ)) (by omega)
  have hback := (readsAs_of_digitsOn? hpos hfound).1.abs_sub_le (by rw [hb']; positivity)
  rw [hb', hb''] at hback
  rw [hvalue, hb', hb'']
  congr 2
  exact eq_of_abs_mul_sub_lt hstep (by
    have h1 := abs_le.1 hnear
    have h2 := abs_le.1 hback
    rw [abs_lt]
    constructor <;> linarith)

end

/-- A number of few digits is denoted again by the text of its double. -/
theorem viaDouble_of_hasFewDigits (h : HasFewDigits x) (hx : |x| < doubleBound) : viaDouble x = x := by
  obtain ⟨m, e, hb, hnearest⟩ := exists_nearest_eq hx
  rw [viaDouble_of_nearest (hnearest false)]
  rcases h with rfl | ⟨hlow, c, k, hc, habs⟩
  · obtain ⟨-, rfl, -⟩ := finite.inj ((hnearest false).symm.trans (rfl : _ = zero .double false))
    rw [value_shortest_zero, mul_zero]
  have hreads := readsAs_of_ofRatio x.den_pos (hnearest false)
  rw [natAbs_num_div_den] at hreads
  have hfull : 2 ^ 52 ≤ m := by
    rcases hb.2.2.2 with rfl | hfull
    · have hnear := (abs_le.1 (hreads.abs_sub_le (abs_nonneg x))).2
      have hsplit : (2 : ℚ) ^ (-1022 : ℤ) = 2 ^ 52 * 2 ^ BinaryFormat.double.minExponent := by
        rw [← zpow_natCast, ← zpow_add₀ (by norm_num)]
        rfl
      have hpos : (0 : ℚ) < 2 ^ BinaryFormat.double.minExponent := by positivity
      rw [hsplit] at hlow
      have hlt : (2 : ℚ) ^ 52 < m + 1 := by nlinarith
      exact Nat.lt_succ_iff.1 (by exact_mod_cast hlt)
    · have hprecision : BinaryFormat.double.precision = 53 := rfl
      rw [hprecision] at hfull
      omega
  rw [habs] at hreads
  rw [value_shortest_of_readsAs hfull hc hreads, ← habs]
  split
  · next hneg => rw [abs_of_neg hneg, neg_one_mul, neg_neg]
  · next hneg => rw [abs_of_nonneg (not_lt.1 hneg), one_mul]

end

end Binary

end OperationGraph
