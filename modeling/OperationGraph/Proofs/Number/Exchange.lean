import OperationGraph.Proofs.Number.Numeral

/-! # Numerals of the exchange format

The exchange format writes very small and very great numbers with an exponent. Such a numeral is read as
the number nearest to its decimal too, so the text of a double in the exchange format is read as that
double (`readUnsigned?_exchange`). -/

namespace OperationGraph

namespace Binary
variable {f : BinaryFormat} {negative : Bool} {m : ℕ} {e : ℤ}

/-! ### Where the point of a double stands -/

theorem point_onGrid (count : ℕ) (point : ℤ) (c : ℕ) :
    (onGrid count point c).point = point ∨ (onGrid count point c).point = point + 1 := by
  unfold onGrid
  split <;> simp

theorem point_digitsFrom (f : BinaryFormat) (m : ℕ) (e : ℤ) (more count : ℕ) :
    digitsFrom f m e more count = ⟨[0], 1⟩ ∨ (digitsFrom f m e more count).point = pointAt m e ∨
      (digitsFrom f m e more count).point = pointAt m e + 1 := by
  induction more generalizing count with
  | zero => exact .inl rfl
  | succ more ih =>
    rw [digitsFrom]
    cases h : digitsOn? f m e count with
    | none => exact ih (count + 1)
    | some d =>
      obtain ⟨c, -, -, rfl⟩ := exists_of_digitsOn? h
      exact .inr (point_onGrid count (pointAt m e) c)

theorem two_zpow_lt_ten_zpow : (2 : ℚ) ^ (1197 : ℤ) < 10 ^ (399 : ℤ) :=
  calc (2 : ℚ) ^ (1197 : ℤ) = (2 ^ (3 : ℤ)) ^ (399 : ℤ) := zpow_mul 2 3 399
    _ < 10 ^ (399 : ℤ) := zpow_lt_zpow_left₀ (by norm_num) (by positivity) (by norm_num)

/-- No double has more than 399 digits before the point. -/
theorem greatest_lt_ten_zpow : (2 : ℚ) ^ 53 * 2 ^ (971 : ℤ) < 10 ^ (399 : ℤ) :=
  calc (2 : ℚ) ^ 53 * 2 ^ (971 : ℤ) = 2 ^ (53 + 971 : ℤ) := (zpow_add₀ (by norm_num) 53 971).symm
    _ ≤ 2 ^ (1197 : ℤ) := zpow_le_zpow_right₀ (by norm_num) (by norm_num)
    _ < 10 ^ (399 : ℤ) := two_zpow_lt_ten_zpow

theorem ten_zpow_lt_least : (10 : ℚ) ^ (-399 : ℤ) < 2 ^ (-1075 : ℤ) := by
  rw [zpow_neg, zpow_neg, inv_lt_inv₀ (by positivity) (by positivity)]
  exact (zpow_le_zpow_right₀ (by norm_num) (by norm_num)).trans_lt two_zpow_lt_ten_zpow

/-- The point of a double is far within the bounds of reading. -/
theorem point_shortest_bounds (hb : (Binary.finite false m e).BelongsTo .double) (hm : 0 < m) :
    -400 ≤ (shortest .double m e).point ∧ (shortest .double m e).point ≤ 400 := by
  obtain ⟨hleast, hgreatest, hmant, -⟩ := hb
  obtain ⟨hlow, hhigh⟩ := pointAt_bounds hm e
  have hm' : (1 : ℚ) ≤ m := by exact_mod_cast hm
  have hmant' : (m : ℚ) ≤ 2 ^ 53 := by exact_mod_cast hmant.le
  have hmin : (2 : ℚ) ^ (-1074 : ℤ) ≤ 2 ^ e := zpow_le_zpow_right₀ (by norm_num) hleast
  have hmax : (2 : ℚ) ^ e ≤ 2 ^ (971 : ℤ) := zpow_le_zpow_right₀ (by norm_num) hgreatest
  have hpos : (0 : ℚ) < 2 ^ e := by positivity
  have habove : -399 ≤ pointAt m e := by
    by_contra hlt
    have hsmall : (10 : ℚ) ^ (-399 : ℤ) < 2 ^ (-1074 : ℤ) :=
      ten_zpow_lt_least.trans_le (zpow_le_zpow_right₀ (by norm_num) (by norm_num))
    have hten : (10 : ℚ) ^ pointAt m e ≤ 10 ^ (-399 : ℤ) :=
      zpow_le_zpow_right₀ (by norm_num) (by omega)
    have hvalue : (2 : ℚ) ^ e ≤ m * 2 ^ e := le_mul_of_one_le_left hpos.le hm'
    exact absurd (hmin.trans (hvalue.trans (hhigh.le.trans hten))) (not_le.2 hsmall)
  have hbelow : pointAt m e ≤ 399 := by
    by_contra hlt
    have hten : (10 : ℚ) ^ (399 : ℤ) ≤ 10 ^ (pointAt m e - 1) :=
      zpow_le_zpow_right₀ (by norm_num) (by omega)
    have hvalue : (m : ℚ) * 2 ^ e ≤ 2 ^ 53 * 2 ^ (971 : ℤ) := by gcongr
    exact absurd (hten.trans (hlow.trans hvalue)) (not_le.2 greatest_lt_ten_zpow)
  rw [shortest, if_neg hm.ne']
  rcases point_digitsFrom .double m e 17 1 with h | h | h <;> rw [h]
  · decide
  · omega
  · omega

/-! ### The first digit -/

theorem ofDigits_lt {ds : List ℕ} (h : ∀ d ∈ ds, d < 10) : ofDigits ds < 10 ^ ds.length := by
  induction ds with
  | nil => decide
  | cons d rest ih =>
    have hd := h d List.mem_cons_self
    have hrest := ih fun x hx => h x (List.mem_cons_of_mem d hx)
    have hone : ofDigits [d] = d := by simp [ofDigits]
    rw [← List.singleton_append, ofDigits_append, hone, List.length_append, List.length_singleton,
      pow_add, pow_one]
    nlinarith

theorem head_natDigits {n : ℕ} (hn : 0 < n) : ∃ d ds, natDigits n = d :: ds ∧ d ≠ 0 := by
  obtain ⟨d, ds, hds⟩ := List.exists_cons_of_ne_nil (natDigits_ne_nil n)
  refine ⟨d, ds, hds, ?_⟩
  rintro rfl
  have hlow := (length_natDigits hn).1
  have hvalue := ofDigits_natDigits n
  have hlt : ofDigits ds < 10 ^ ds.length :=
    ofDigits_lt fun x hx => lt_ten_of_mem_natDigits (hds ▸ List.mem_cons_of_mem 0 hx)
  have hzero : ofDigits (0 :: ds) = ofDigits ds := by simp [ofDigits]
  rw [hds, hzero] at hvalue
  rw [hds, List.length_cons, Nat.add_sub_cancel] at hlow
  omega

/-- The first digit of a decimal is zero only if there is no other. -/
theorem head_digitsFrom (f : BinaryFormat) (m : ℕ) (e : ℤ) (more count : ℕ) :
    (digitsFrom f m e more count).digits = [0] ∨
      ∃ d ds, (digitsFrom f m e more count).digits = d :: ds ∧ d ≠ 0 := by
  induction more generalizing count with
  | zero => exact .inl rfl
  | succ more ih =>
    rw [digitsFrom]
    cases h : digitsOn? f m e count with
    | none => exact ih (count + 1)
    | some d =>
      obtain ⟨c, -, -, rfl⟩ := exists_of_digitsOn? h
      rw [Option.getD_some, onGrid]
      split
      · exact .inr ⟨1, [], rfl, by decide⟩
      · rcases Nat.eq_zero_or_pos c with rfl | hc
        · exact .inl rfl
        · exact .inr (head_natDigits hc)

/-- The first digit of a double is not zero. -/
theorem head_shortest (hb : (Binary.finite false m e).BelongsTo .double) (hm : 0 < m) :
    ∃ d ds, (shortest .double m e).digits = d :: ds ∧ d ≠ 0 := by
  have hne := (readsAs_shortest hb hm).2
  rw [shortest, if_neg hm.ne'] at hne ⊢
  rcases head_digitsFrom .double m e 17 1 with h | h
  · rw [h] at hne
    exact absurd rfl hne
  · exact h

/-- The digits of a double are laid out without superfluous zeros before them. -/
theorem exists_laidOut_shortest (hb : (Binary.finite false m e).BelongsTo .double) (hm : 0 < m) :
    ∃ whole fraction, (shortest .double m e).LaidOut whole fraction ∧
      (whole = [0] ∨ whole.head? ≠ some 0) := by
  obtain ⟨whole, fraction, hlaid⟩ :=
    Decimal.exists_laidOut (isProper_shortest .double m e) (readsAs_shortest hb hm).2
  refine ⟨whole, fraction, hlaid, hlaid.head.imp_right fun hsame => ?_⟩
  obtain ⟨d, ds, hdigits, hd⟩ := head_shortest hb hm
  rw [hsame, hdigits]
  simpa using hd

end Binary

/-! ### Numerals with an exponent -/

namespace Decimal

/-- The digits of an exponent, of which there are at least two. -/
def powerDigits (n : ℕ) : List ℕ :=
  if (natDigits n).length < 2 then 0 :: natDigits n else natDigits n

theorem lt_ten_of_mem_powerDigits {n d : ℕ} (h : d ∈ powerDigits n) : d < 10 := by
  unfold powerDigits at h
  split at h
  · rcases List.mem_cons.1 h with rfl | h
    · decide
    · exact lt_ten_of_mem_natDigits h
  · exact lt_ten_of_mem_natDigits h

theorem ofDigits_powerDigits (n : ℕ) : ofDigits (powerDigits n) = n := by
  have hzero : ofDigits (0 :: natDigits n) = ofDigits (natDigits n) := by simp [ofDigits]
  unfold powerDigits
  split
  · rw [hzero, ofDigits_natDigits]
  · exact ofDigits_natDigits n

theorem powerDigits_ne_nil (n : ℕ) : powerDigits n ≠ [] := by
  unfold powerDigits
  split
  · simp
  · exact natDigits_ne_nil n

def powerText (x : ℤ) : List Char :=
  'e' :: (if x < 0 then '-' else '+') :: (powerDigits x.natAbs).map digitChar

theorem readExponent?_powerText (x : ℤ) : Binary.readExponent? (powerText x) = some x := by
  have hspan := spanDigits_digits fun d (hd : d ∈ powerDigits x.natAbs) => lt_ten_of_mem_powerDigits hd
  obtain ⟨d, ds, hds⟩ := List.exists_cons_of_ne_nil (powerDigits_ne_nil x.natAbs)
  have hvalue := ofDigits_powerDigits x.natAbs
  rw [hds] at hspan hvalue
  unfold powerText Binary.readExponent?
  by_cases hneg : x < 0
  · simp only [true_or, if_true, if_pos hneg, hds, hspan, hvalue]
    congr 1
    omega
  · simp only [true_or, if_true, if_neg hneg, hds, hspan, hvalue]
    simp
    omega

theorem scientificText_eq (d : ℕ) (ds : List ℕ) (point : ℤ) :
    scientificText ⟨d :: ds, point⟩ = [d].map digitChar ++
      ((if ds = [] then [] else '.' :: ds.map digitChar) ++ powerText (point - 1)) := by
  have hpower : (if (toString (point - 1).natAbs).toList.length < 2 then
      '0' :: (toString (point - 1).natAbs).toList else (toString (point - 1).natAbs).toList) =
      (powerDigits (point - 1).natAbs).map digitChar := by
    have hchars : (toString (point - 1).natAbs).toList =
        (natDigits (point - 1).natAbs).map digitChar := by
      rw [map_digitChar_natDigits]
      simp [Nat.toString_eq_repr]
    rw [hchars, List.length_map, powerDigits]
    split
    · rfl
    · rfl
  simp only [scientificText, hpower, powerText]
  cases ds <;> simp

end Decimal

namespace Binary
variable {f : BinaryFormat} {negative : Bool} {m : ℕ} {e : ℤ}

/-- A decimal is read from its text with an exponent as the number nearest to it. -/
theorem exists_readUnsigned?_scientific (f : BinaryFormat) (negative : Bool) {d : Decimal}
    (hproper : d.IsProper) (hne : ofDigits d.digits ≠ 0) (hlow : -400 ≤ d.point)
    (hhigh : d.point ≤ 400) :
    ∃ num den : ℕ, 0 < den ∧ (num : ℚ) / den = d.value ∧
      readUnsigned? f negative d.scientificText = some (ofRatio f negative num den) := by
  obtain ⟨digits, point⟩ := d
  dsimp only at hne hlow hhigh
  cases digits with
  | nil => exact absurd rfl hne
  | cons d ds =>
    obtain ⟨hd, hds⟩ := List.forall_mem_cons.1 hproper
    obtain ⟨num, den, hden, hratio, hscaled⟩ := exists_ofScaled_eq f negative hne (d :: ds).length
      (point - 1 - ds.length) (by rw [List.length_cons]; omega) (by rw [List.length_cons]; omega)
    refine ⟨num, den, hden, ?_, ?_⟩
    · rw [hratio, Decimal.value, List.length_cons]
      push_cast
      congr 2
      ring
    · rw [Decimal.scientificText_eq, readUnsigned?_digits (by simp) (by simpa using hd) hds ?_
        (Decimal.readExponent?_powerText (point - 1))]
      · exact congrArg some hscaled
      · intro c hc
        obtain rfl : 'e' = c := by simpa [Decimal.powerText] using hc
        decide

/-- The text of a double in the exchange format is read as the double. -/
theorem readUnsigned?_exchange (hb : (Binary.finite false m e).BelongsTo .double) (negative : Bool) :
    readUnsigned? .double negative ((shortest .double m e).text .exchange) =
      some (.finite negative m e) := by
  rcases Nat.eq_zero_or_pos m with rfl | hm
  · obtain rfl : e = -1074 := hb.2.2.2.resolve_right (by decide)
    cases negative <;> decide
  · obtain ⟨hreads, hne⟩ := readsAs_shortest hb hm
    obtain ⟨hlow, hhigh⟩ := point_shortest_bounds hb hm
    have hproper := isProper_shortest .double m e
    have hread : ∃ num den : ℕ, 0 < den ∧ (num : ℚ) / den = (shortest .double m e).value ∧
        readUnsigned? .double negative ((shortest .double m e).text .exchange) =
          some (ofRatio .double negative num den) := by
      unfold Decimal.text
      split
      · exact exists_readUnsigned?_scientific .double negative hproper hne hlow hhigh
      · exact exists_readUnsigned?_eq .double negative hproper hne
    obtain ⟨num, den, hden, hvalue, hread⟩ := hread
    rw [hread, hreads negative num den hden hvalue]

/-- The text of a double has digits without superfluous zeros, a fraction and an exponent. -/
theorem exists_exchange_eq (hb : (Binary.finite false m e).BelongsTo .double) :
    ∃ (whole fraction : List ℕ) (power : List Char), whole ≠ [] ∧ (∀ x ∈ whole, x < 10) ∧
      (∀ x ∈ fraction, x < 10) ∧ (whole = [0] ∨ whole.head? ≠ some 0) ∧
      (power = [] ∨ ∃ x, power = Decimal.powerText x) ∧
      (shortest .double m e).text .exchange = whole.map Decimal.digitChar ++
        ((if fraction = [] then [] else '.' :: fraction.map Decimal.digitChar) ++ power) := by
  rcases Nat.eq_zero_or_pos m with rfl | hm
  · exact ⟨[0], [], [], by simp, by simp, by simp, .inl rfl, .inl rfl, rfl⟩
  unfold Decimal.text
  split
  · obtain ⟨d, ds, hdigits, hd⟩ := head_shortest hb hm
    have hproper : ∀ x ∈ d :: ds, x < 10 := hdigits ▸ isProper_shortest .double m e
    obtain ⟨hdten, hds⟩ := List.forall_mem_cons.1 hproper
    have htext := Decimal.scientificText_eq d ds (shortest .double m e).point
    rw [← hdigits] at htext
    exact ⟨[d], ds, _, by simp, by simpa using hdten, hds, .inr (by simpa using hd), .inr ⟨_, rfl⟩,
      htext⟩
  · obtain ⟨whole, fraction, hlaid, hhead⟩ := exists_laidOut_shortest hb hm
    refine ⟨whole, fraction, [], hlaid.ne_nil, hlaid.whole_lt, hlaid.fraction_lt, hhead, .inl rfl, ?_⟩
    rw [List.append_nil]
    exact hlaid.text_eq

end Binary

end OperationGraph
