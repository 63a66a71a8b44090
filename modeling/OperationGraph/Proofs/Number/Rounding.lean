import Mathlib.Algebra.Order.Field.Power
import Mathlib.Tactic.FieldSimp
import Mathlib.Tactic.Linarith
import Mathlib.Tactic.Positivity
import Mathlib.Tactic.Ring
import OperationGraph.Number.Binary

/-! # Rounding to binary formats

`IsPlace f x k` says that `k` is the exponent of the last place that a format keeps of `x`, and
`IsNearest x m` that `m` is the natural number nearest to `x`. Both determine their numbers, so that
rounding depends on the value of a ratio only (`ofRatio_congr`), and every ratio close enough to a
number of a format is rounded to it (`ofRatio_of_near`). -/

namespace OperationGraph

/-! ### The nearest natural number -/

/-- `m` is nearest to `x`; of two numbers that are equally near, the even one is. -/
def IsNearest (x : ℚ) (m : ℕ) : Prop :=
  2 * |x - m| < 1 ∨ 2 * |x - m| = 1 ∧ m % 2 = 0

namespace IsNearest
variable {x : ℚ} {a b m : ℕ}

theorem le_one (h : IsNearest x m) : 2 * |x - m| ≤ 1 := by
  rcases h with h | ⟨h, -⟩ <;> linarith

theorem lower (h : IsNearest x m) : (m : ℚ) ≤ x + 1 / 2 := by
  have := (abs_le.1 (by linarith [h.le_one] : |x - m| ≤ 1 / 2)).1
  linarith

theorem upper (h : IsNearest x m) : x ≤ (m : ℚ) + 1 / 2 := by
  have := (abs_le.1 (by linarith [h.le_one] : |x - m| ≤ 1 / 2)).2
  linarith

/-- Of two different nearest numbers the lower one would be at most one below, so both were even. -/
theorem not_lt (ha : IsNearest x a) (hb : IsNearest x b) : ¬ a < b := by
  intro hlt
  have hab : (a : ℚ) + 1 ≤ b := by exact_mod_cast hlt
  have hxa := ha.upper
  have hxb := hb.lower
  have hx : x = a + 1 / 2 := by linarith
  have hba : (b : ℚ) = a + 1 := by linarith
  have hsucc : b = a + 1 := by exact_mod_cast hba
  have hda : 2 * |x - a| = 1 := by rw [hx]; norm_num
  have hdb : 2 * |x - b| = 1 := by rw [hx, hba]; norm_num
  have hea : a % 2 = 0 := (ha.resolve_left (by linarith)).2
  have heb : b % 2 = 0 := (hb.resolve_left (by linarith)).2
  omega

theorem unique (ha : IsNearest x a) (hb : IsNearest x b) : a = b :=
  Nat.le_antisymm (Nat.not_lt.1 (hb.not_lt ha)) (Nat.not_lt.1 (ha.not_lt hb))

end IsNearest

theorem isNearest_roundRatio (n : ℕ) {d : ℕ} (hd : 0 < d) :
    IsNearest ((n : ℚ) / d) (roundRatio n d) := by
  have hd' : (0 : ℚ) < d := by exact_mod_cast hd
  have hdiv : (n : ℚ) / d = (n / d : ℕ) + ((n % d : ℕ) : ℚ) / d := by
    have hn : (d : ℚ) * (n / d : ℕ) + (n % d : ℕ) = n := by exact_mod_cast Nat.div_add_mod n d
    field_simp
    linarith
  have hlt : ((n % d : ℕ) : ℚ) < d := by exact_mod_cast Nat.mod_lt n hd
  have hnonneg : (0 : ℚ) ≤ ((n % d : ℕ) : ℚ) / d := by positivity
  -- the distances to the quotient and to its successor
  have hlow : |(n : ℚ) / d - (n / d : ℕ)| = ((n % d : ℕ) : ℚ) / d := by
    rw [hdiv, add_sub_cancel_left, abs_of_nonneg hnonneg]
  have hhigh : |(n : ℚ) / d - (n / d + 1 : ℕ)| = 1 - ((n % d : ℕ) : ℚ) / d := by
    have hle : ((n % d : ℕ) : ℚ) / d ≤ 1 := (div_le_one hd').2 hlt.le
    rw [hdiv, abs_sub_comm, abs_of_nonneg] <;> push_cast <;> linarith
  simp only [roundRatio]
  split_ifs with h1 h2 h3
  · left
    have : (2 : ℚ) * (n % d : ℕ) < d := by exact_mod_cast h1
    rw [hlow, ← mul_div_assoc, div_lt_one hd']
    exact this
  · left
    have h2' : (d : ℚ) < 2 * (n % d : ℕ) := by exact_mod_cast h2
    have : 1 < 2 * (((n % d : ℕ) : ℚ) / d) := by
      rw [← mul_div_assoc, one_lt_div hd']
      exact h2'
    rw [hhigh]
    linarith
  all_goals
    have htie : (2 : ℚ) * (n % d : ℕ) = d := by exact_mod_cast (by omega : 2 * (n % d) = d)
    have hhalf : 2 * (((n % d : ℕ) : ℚ) / d) = 1 := by
      rw [← mul_div_assoc, htie, div_self hd'.ne']
  · exact .inr ⟨by rw [hlow, hhalf], h3⟩
  · refine .inr ⟨?_, by omega⟩
    rw [hhigh]
    linarith

/-! ### Scaled ratios -/

theorem scaleRatio_den_pos (num : ℕ) {den : ℕ} (hden : 0 < den) (e : ℤ) :
    0 < (scaleRatio num den e).2 := by
  rw [scaleRatio]
  split
  · exact hden
  · exact Nat.mul_pos hden (Nat.pow_pos (by decide))

theorem scaleRatio_div (num den : ℕ) (e : ℤ) :
    ((scaleRatio num den e).1 : ℚ) / (scaleRatio num den e).2 = (num : ℚ) / den / 2 ^ e := by
  rw [scaleRatio]
  split
  · next hneg =>
    obtain ⟨k, rfl⟩ : ∃ k : ℕ, e = -(k : ℤ) := ⟨e.natAbs, by omega⟩
    simp only [Int.natAbs_neg, Int.natAbs_natCast, Nat.pow_eq, Nat.cast_mul, Nat.cast_pow,
      Nat.cast_ofNat, zpow_neg, zpow_natCast, div_inv_eq_mul]
    ring
  · next hneg =>
    obtain ⟨k, rfl⟩ : ∃ k : ℕ, e = k := ⟨e.natAbs, by omega⟩
    simp only [Int.natAbs_natCast, Nat.pow_eq, Nat.cast_mul, Nat.cast_pow, Nat.cast_ofNat,
      zpow_natCast, div_div]

namespace Binary

/-! ### The last place -/

/-- `k` is the exponent of the last place that a format keeps of `x`: the mantissa of `x` is below
the bound of the format, and it is not below half of that unless no lower place exists. -/
structure IsPlace (f : BinaryFormat) (x : ℚ) (k : ℤ) : Prop where
  least : f.minExponent ≤ k
  below : x / 2 ^ k < 2 ^ f.precision
  full : k = f.minExponent ∨ 2 ^ f.precision ≤ 2 * (x / 2 ^ k)

theorem two_mul_div_zpow_le {x : ℚ} (hx : 0 ≤ x) {j k : ℤ} (h : j < k) :
    2 * (x / 2 ^ k) ≤ x / 2 ^ j := by
  have hpow : (2 : ℚ) ^ (j + 1) ≤ 2 ^ k := zpow_le_zpow_right₀ (by norm_num) (by omega)
  have hj : (0 : ℚ) < 2 ^ j := by positivity
  have hk : (0 : ℚ) < 2 ^ k := by positivity
  rw [zpow_add_one₀ (by norm_num)] at hpow
  rw [← mul_div_assoc, div_le_div_iff₀ hk hj]
  nlinarith

namespace IsPlace
variable {f : BinaryFormat} {x : ℚ} {j k : ℤ}

theorem not_lt (hx : 0 ≤ x) (hj : IsPlace f x j) (hk : IsPlace f x k) : ¬ j < k := by
  intro hlt
  have hne : k ≠ f.minExponent := by
    have := hj.least
    omega
  have hfull := hk.full.resolve_left hne
  have hbelow := hj.below
  have := two_mul_div_zpow_le hx hlt
  linarith

theorem unique (hx : 0 ≤ x) (hj : IsPlace f x j) (hk : IsPlace f x k) : j = k :=
  le_antisymm (Int.not_lt.1 (hk.not_lt hx hj)) (Int.not_lt.1 (hj.not_lt hx hk))

end IsPlace

/-- The first guess of `placeOf` is right or one too low. -/
theorem guess_bounds (p : ℕ) {num den : ℕ} (hnum : 0 < num) (hden : 0 < den) :
    (2 : ℚ) ^ p < 2 * ((num : ℚ) / den / 2 ^ ((num.log2 : ℤ) - den.log2 - p)) ∧
      (num : ℚ) / den / 2 ^ ((num.log2 : ℤ) - den.log2 - p) < 2 * 2 ^ p := by
  have hnlow : (2 : ℚ) ^ num.log2 ≤ num := by exact_mod_cast Nat.log2_self_le hnum.ne'
  have hnhigh : (num : ℚ) < 2 * 2 ^ num.log2 := by
    have := Nat.lt_log2_self (n := num)
    rw [pow_succ'] at this
    exact_mod_cast this
  have hdlow : (2 : ℚ) ^ den.log2 ≤ den := by exact_mod_cast Nat.log2_self_le hden.ne'
  have hdhigh : (den : ℚ) < 2 * 2 ^ den.log2 := by
    have := Nat.lt_log2_self (n := den)
    rw [pow_succ'] at this
    exact_mod_cast this
  have hd : (0 : ℚ) < den := by exact_mod_cast hden
  have hn2 : (0 : ℚ) < 2 ^ num.log2 := by positivity
  have hd2 : (0 : ℚ) < 2 ^ den.log2 := by positivity
  have hp2 : (0 : ℚ) < 2 ^ p := by positivity
  have heq : (num : ℚ) / den / 2 ^ ((num.log2 : ℤ) - den.log2 - p) =
      2 ^ p * (num * 2 ^ den.log2) / (den * 2 ^ num.log2) := by
    rw [zpow_sub₀ (by norm_num), zpow_sub₀ (by norm_num), zpow_natCast, zpow_natCast, zpow_natCast]
    field_simp
  rw [heq]
  constructor
  · rw [← mul_div_assoc, lt_div_iff₀ (by positivity)]
    nlinarith [mul_pos hp2 hn2, mul_pos hp2 hd2, mul_lt_mul_of_pos_left hdhigh hn2,
      mul_le_mul_of_nonneg_right hnlow hd2.le]
  · rw [div_lt_iff₀ (by positivity)]
    nlinarith [mul_pos hp2 hn2, mul_pos hp2 hd2, mul_lt_mul_of_pos_right hnhigh hd2,
      mul_le_mul_of_nonneg_left hdlow hn2.le]

theorem isPlace_placeOf (f : BinaryFormat) {num den : ℕ} (hnum : 0 < num) (hden : 0 < den) :
    IsPlace f ((num : ℚ) / den) (placeOf f num den) := by
  have hx : (0 : ℚ) ≤ (num : ℚ) / den := by positivity
  set guess : ℤ := (num.log2 : ℤ) - den.log2 - f.precision with hguess
  obtain ⟨hlow, hhigh⟩ := guess_bounds f.precision hnum hden
  rw [← hguess] at hlow hhigh
  -- the place of the leading digits, before the least exponent of the format is looked at
  obtain ⟨top, hplace, hbelow, hfull⟩ : ∃ top : ℤ,
      placeOf f num den = max top f.minExponent ∧
      (num : ℚ) / den / 2 ^ top < 2 ^ f.precision ∧
      2 ^ f.precision ≤ 2 * ((num : ℚ) / den / 2 ^ top) := by
    have hmax : placeOf f num den = max
        (if Nat.pow 2 f.precision ≤ (scaleRatio num den guess).1 / (scaleRatio num den guess).2
          then guess + 1 else guess) f.minExponent := rfl
    refine ⟨_, hmax, ?_⟩
    have hfloor : Nat.pow 2 f.precision ≤ (scaleRatio num den guess).1 / (scaleRatio num den guess).2
        ↔ (2 : ℚ) ^ f.precision ≤ (num : ℚ) / den / 2 ^ guess := by
      have hpos := scaleRatio_den_pos num hden guess
      have hpos' : (0 : ℚ) < (scaleRatio num den guess).2 := by exact_mod_cast hpos
      rw [Nat.le_div_iff_mul_le hpos, ← scaleRatio_div, le_div_iff₀ hpos', Nat.pow_eq]
      exact_mod_cast Iff.rfl
    split_ifs with h
    · rw [hfloor] at h
      rw [zpow_add_one₀ (by norm_num), ← div_div]
      constructor <;> linarith
    · rw [hfloor, not_le] at h
      exact ⟨h, hlow.le⟩
  rw [hplace]
  rcases le_total f.minExponent top with hle | hle
  · rw [max_eq_left hle]
    exact ⟨hle, hbelow, .inr hfull⟩
  · rw [max_eq_right hle]
    refine ⟨le_rfl, ?_, .inl rfl⟩
    rcases hle.lt_or_eq with hlt | rfl
    · have := two_mul_div_zpow_le hx hlt
      have : (0 : ℚ) ≤ (num : ℚ) / den / 2 ^ f.minExponent := by positivity
      linarith
    · exact hbelow

/-! ### Rounding a ratio -/

/-- The number of a mantissa and a place; a mantissa that has grown too long is carried, and what is
beyond the greatest place is infinite. -/
def settle (f : BinaryFormat) (negative : Bool) (m : ℕ) (k : ℤ) : Binary :=
  let (m, k) := if m = 2 ^ f.precision then (2 ^ (f.precision - 1), k + 1) else (m, k)
  if f.maxExponent < k then .infinite negative else .finite negative m k

section
variable {f : BinaryFormat} {negative : Bool} {num den num' den' m : ℕ} {e k : ℤ}

theorem ofRatio_eq_settle (hnum : 0 < num) (hden : 0 < den)
    (hk : IsPlace f ((num : ℚ) / den) k) (hm : IsNearest ((num : ℚ) / den / 2 ^ k) m) :
    ofRatio f negative num den = settle f negative m k := by
  have hplace : placeOf f num den = k :=
    (isPlace_placeOf f hnum hden).unique (by positivity) hk
  have hround : roundRatio (scaleRatio num den k).1 (scaleRatio num den k).2 = m := by
    have hnearest := isNearest_roundRatio (scaleRatio num den k).1 (scaleRatio_den_pos num hden k)
    rw [scaleRatio_div] at hnearest
    exact hnearest.unique hm
  rw [ofRatio, if_neg hnum.ne']
  simp only [hplace, hround]
  rfl

/-- The place and the mantissa of a ratio, and what it is rounded to. -/
theorem exists_ofRatio_eq_settle (f : BinaryFormat) (negative : Bool) (hnum : 0 < num)
    (hden : 0 < den) : ∃ m k, IsPlace f ((num : ℚ) / den) k ∧ IsNearest ((num : ℚ) / den / 2 ^ k) m ∧
      ofRatio f negative num den = settle f negative m k := by
  have hk := isPlace_placeOf f hnum hden
  have hm := isNearest_roundRatio (scaleRatio num den (placeOf f num den)).1
    (scaleRatio_den_pos num hden (placeOf f num den))
  rw [scaleRatio_div] at hm
  exact ⟨_, _, hk, hm, ofRatio_eq_settle hnum hden hk hm⟩

/-- Equal ratios are rounded alike. -/
theorem ofRatio_congr (hden : 0 < den) (hden' : 0 < den')
    (h : (num : ℚ) / den = (num' : ℚ) / den') :
    ofRatio f negative num den = ofRatio f negative num' den' := by
  have hd : (den : ℚ) ≠ 0 := by exact_mod_cast hden.ne'
  have hd' : (den' : ℚ) ≠ 0 := by exact_mod_cast hden'.ne'
  rcases Nat.eq_zero_or_pos num with rfl | hnum
  · have hzero : (num' : ℚ) = 0 := by simpa [hd'] using h.symm
    obtain rfl : num' = 0 := by exact_mod_cast hzero
    rfl
  · have hnum' : 0 < num' := by
      rcases Nat.eq_zero_or_pos num' with rfl | hnum'
      · have hzero : (num : ℚ) = 0 := by simpa [hd] using h
        have : num = 0 := by exact_mod_cast hzero
        omega
      · exact hnum'
    obtain ⟨m, k, hk, hm, heq⟩ := exists_ofRatio_eq_settle f negative hnum hden
    rw [h] at hk hm
    rw [heq, ofRatio_eq_settle hnum' hden' hk hm]

/-! ### The numbers of a format -/

/-- Whether a number is one of a format: the mantissa is in its bounds, and it is full unless the
exponent is the least one. -/
def BelongsTo (f : BinaryFormat) : Binary → Prop
  | .finite _ m e => f.minExponent ≤ e ∧ e ≤ f.maxExponent ∧ m < 2 ^ f.precision ∧
      (e = f.minExponent ∨ 2 ^ f.precision ≤ 2 * m)
  | _ => True

theorem belongsTo_zero (hrange : f.minExponent ≤ f.maxExponent) (negative : Bool) :
    (zero f negative).BelongsTo f :=
  ⟨le_rfl, hrange, by positivity, .inl rfl⟩

theorem belongsTo_ofRatio (hprecision : 0 < f.precision)
    (hrange : f.minExponent ≤ f.maxExponent) (negative : Bool) (num : ℕ) (hden : 0 < den) :
    (ofRatio f negative num den).BelongsTo f := by
  rcases Nat.eq_zero_or_pos num with rfl | hnum
  · exact belongsTo_zero hrange negative
  obtain ⟨m, k, hk, hm, heq⟩ := exists_ofRatio_eq_settle f negative hnum hden
  rw [heq]
  have hleast := hk.least
  have hhalf : 2 * 2 ^ (f.precision - 1) = 2 ^ f.precision := by
    rw [← pow_succ', Nat.sub_add_cancel hprecision]
  have hle : m ≤ 2 ^ f.precision := by
    have := hm.lower
    have := hk.below
    have : (m : ℚ) < 2 ^ f.precision + 1 := by linarith
    exact Nat.lt_succ_iff.1 (by exact_mod_cast this)
  simp only [settle]
  split_ifs with hcarry hmax hmax
  · trivial
  · refine ⟨by omega, by omega, ?_, .inr hhalf.ge⟩
    have : 0 < 2 ^ (f.precision - 1) := by positivity
    omega
  · trivial
  · refine ⟨hleast, by omega, by omega, ?_⟩
    refine hk.full.imp_right fun hfull => ?_
    -- the mantissa is at least half of the bound, up to a half
    have := hm.upper
    have : (2 : ℚ) ^ f.precision < 2 * m + 2 := by linarith
    have : 2 ^ f.precision < 2 * m + 2 := by exact_mod_cast this
    omega

/-- A ratio within half a unit of a number of a format is rounded to that number; where the number
below is nearer, the ratio must be within a quarter of a unit. -/
theorem ofRatio_of_near (hprecision : 0 < f.precision)
    (hb : (Binary.finite negative m e).BelongsTo f) (hnum : 0 < num) (hden : 0 < den)
    (hnear : 2 * |(num : ℚ) / den / 2 ^ e - m| < 1)
    (hlow : e = f.minExponent ∨ 2 ^ f.precision < 2 * m ∨ 4 * |(num : ℚ) / den / 2 ^ e - m| < 1) :
    ofRatio f negative num den = .finite negative m e := by
  obtain ⟨hleast, hgreatest, hm, hfull⟩ := hb
  set y := (num : ℚ) / den / 2 ^ e with hy
  have hm' : (m : ℚ) + 1 ≤ 2 ^ f.precision := by exact_mod_cast hm
  have habs := abs_lt.1 (by linarith : |y - m| < 1 / 2)
  by_cases hplace : e = f.minExponent ∨ 2 ^ f.precision ≤ 2 * y
  · have hk : IsPlace f ((num : ℚ) / den) e := ⟨hleast, by rw [← hy]; linarith, hplace⟩
    rw [ofRatio_eq_settle hnum hden hk (.inl hnear)]
    simp [settle, hm.ne, Int.not_lt.2 hgreatest]
  · rw [not_or, not_le] at hplace
    obtain ⟨hne, hy2⟩ := hplace
    have hhalf : 2 ^ f.precision ≤ 2 * m := hfull.resolve_left hne
    have hhalf' : (2 : ℚ) ^ f.precision ≤ 2 * m := by exact_mod_cast hhalf
    -- only the least full mantissa has a ratio near it that falls below the place
    have hleastFull : 2 * m = 2 ^ f.precision := by
      refine Nat.le_antisymm ?_ hhalf
      have : (2 * m : ℚ) < 2 ^ f.precision + 1 := by linarith
      exact Nat.lt_succ_iff.1 (by exact_mod_cast this)
    have hquarter : 4 * |y - m| < 1 := (hlow.resolve_left hne).resolve_left (by omega)
    have hdouble : (num : ℚ) / den / 2 ^ (e - 1) = 2 * y := by
      rw [hy, zpow_sub_one₀ (by norm_num)]
      field_simp
    have hquarter' := abs_lt.1 (by linarith : |y - m| < 1 / 4)
    have hbound : (1 : ℚ) ≤ 2 ^ f.precision := one_le_pow₀ (by norm_num)
    have hk : IsPlace f ((num : ℚ) / den) (e - 1) := by
      refine ⟨by omega, by rw [hdouble]; exact hy2, .inr ?_⟩
      rw [hdouble]
      linarith
    have hnearest : IsNearest ((num : ℚ) / den / 2 ^ (e - 1)) (2 ^ f.precision) := by
      left
      have : (2 : ℚ) * m = 2 ^ f.precision := by exact_mod_cast hleastFull
      rw [hdouble]
      push_cast
      rw [← this, ← mul_sub, abs_mul, abs_two]
      linarith
    rw [ofRatio_eq_settle hnum hden hk hnearest]
    have hcarried : 2 ^ (f.precision - 1) = m := by
      have : 2 * 2 ^ (f.precision - 1) = 2 ^ f.precision := by
        rw [← pow_succ', Nat.sub_add_cancel hprecision]
      omega
    simp [settle, hcarried, Int.not_lt.2 hgreatest]

end

end Binary

end OperationGraph
