import Mathlib.Data.Nat.Cast.Order.Field
import Mathlib.Tactic.LinearCombination
import OperationGraph.Number.Decimal
import OperationGraph.Proofs.Number.Digits
import OperationGraph.Proofs.Number.Rounding

/-! # Shortest decimals read back

Whatever decimal is picked on a grid of digits reads back as the number it was made from. On the grid
of seventeen digits one of the two neighbours of a double always does, because half a step of that
grid is less than half the distance to the next double, so the search for the shortest decimal ends
with one that reads back (`readsAs_shortest`). -/

namespace OperationGraph

def Decimal.value (d : Decimal) : ℚ := ofDigits d.digits * 10 ^ (d.point - d.digits.length)

namespace Binary

/-! ### Decimal scales -/

theorem shiftRatio_den_pos (num : ℕ) {den : ℕ} (hden : 0 < den) (e : ℤ) :
    0 < (shiftRatio num den e).2 := by
  rw [shiftRatio]
  split
  · exact Nat.mul_pos hden (Nat.pow_pos (by decide))
  · exact hden

theorem shiftRatio_div (num den : ℕ) (e : ℤ) :
    ((shiftRatio num den e).1 : ℚ) / (shiftRatio num den e).2 = (num : ℚ) / den * 10 ^ e := by
  rw [shiftRatio]
  split
  · next hneg =>
    obtain ⟨k, rfl⟩ : ∃ k : ℕ, e = -(k : ℤ) := ⟨e.natAbs, by omega⟩
    simp only [Int.natAbs_neg, Int.natAbs_natCast, Nat.pow_eq, Nat.cast_mul, Nat.cast_pow,
      Nat.cast_ofNat, zpow_neg, zpow_natCast, ← div_eq_mul_inv, div_div]
  · next hneg =>
    obtain ⟨k, rfl⟩ : ∃ k : ℕ, e = k := ⟨e.natAbs, by omega⟩
    simp only [Int.natAbs_natCast, Nat.pow_eq, Nat.cast_mul, Nat.cast_pow, Nat.cast_ofNat,
      zpow_natCast]
    ring

theorem magnitude_div (m : ℕ) (e : ℤ) :
    ((magnitude m e).1 : ℚ) / (magnitude m e).2 = m * 2 ^ e := by
  rw [magnitude, scaleRatio_div, zpow_neg, div_inv_eq_mul, Nat.cast_one, div_one]

theorem natDigits_bounds {n : ℕ} (hn : 0 < n) :
    (10 : ℚ) ^ ((natDigits n).length - 1 : ℤ) ≤ n ∧ (n : ℚ) < 10 ^ ((natDigits n).length : ℤ) := by
  obtain ⟨hlow, hhigh⟩ := length_natDigits hn
  have hpos : 0 < (natDigits n).length := List.length_pos_of_ne_nil (natDigits_ne_nil n)
  constructor
  · rw [← Nat.cast_pred hpos, zpow_natCast]
    exact_mod_cast hlow
  · rw [zpow_natCast]
    exact_mod_cast hhigh

/-- The test of `pointOf` compares a ratio with a power of ten. -/
theorem isBelow_iff (num : ℕ) {den : ℕ} (hden : 0 < den) (x : ℤ) :
    (if x < 0 then decide (num * Nat.pow 10 x.natAbs < den)
      else decide (num < den * Nat.pow 10 x.natAbs)) = true ↔ (num : ℚ) / den < 10 ^ x := by
  have hd : (0 : ℚ) < den := by exact_mod_cast hden
  rw [div_lt_iff₀ hd]
  split
  · obtain ⟨k, rfl⟩ : ∃ k : ℕ, x = -(k : ℤ) := ⟨x.natAbs, by omega⟩
    rw [decide_eq_true_iff, Int.natAbs_neg, Int.natAbs_natCast, Nat.pow_eq, zpow_neg, zpow_natCast,
      lt_inv_mul_iff₀ (by positivity), mul_comm]
    exact_mod_cast Iff.rfl
  · obtain ⟨k, rfl⟩ : ∃ k : ℕ, x = k := ⟨x.natAbs, by omega⟩
    rw [decide_eq_true_iff, Int.natAbs_natCast, Nat.pow_eq, zpow_natCast, mul_comm]
    exact_mod_cast Iff.rfl

/-- The point of a positive ratio stands before its first digit. -/
theorem pointOf_bounds {num den : ℕ} (hnum : 0 < num) (hden : 0 < den) :
    (10 : ℚ) ^ (pointOf num den - 1) ≤ (num : ℚ) / den ∧
      (num : ℚ) / den < 10 ^ pointOf num den := by
  obtain ⟨hnlow, hnhigh⟩ := natDigits_bounds hnum
  obtain ⟨hdlow, hdhigh⟩ := natDigits_bounds hden
  have hd : (0 : ℚ) < den := by exact_mod_cast hden
  set guess : ℤ := ((natDigits num).length : ℤ) - (natDigits den).length with hguess
  -- the count of digits tells the point up to one
  have hlow : (10 : ℚ) ^ (guess - 1) ≤ (num : ℚ) / den := by
    rw [le_div_iff₀ hd]
    calc (10 : ℚ) ^ (guess - 1) * den
        ≤ 10 ^ (guess - 1) * 10 ^ ((natDigits den).length : ℤ) := by gcongr
      _ = 10 ^ ((natDigits num).length - 1 : ℤ) := by
          rw [← zpow_add₀ (by norm_num)]
          congr 1
          omega
      _ ≤ num := hnlow
  have hhigh : (num : ℚ) / den < 10 ^ (guess + 1) := by
    rw [div_lt_iff₀ hd]
    calc (num : ℚ) < 10 ^ ((natDigits num).length : ℤ) := hnhigh
      _ = 10 ^ (guess + 1) * 10 ^ ((natDigits den).length - 1 : ℤ) := by
          rw [← zpow_add₀ (by norm_num)]
          congr 1
          omega
      _ ≤ 10 ^ (guess + 1) * den := by gcongr
  by_cases h : (num : ℚ) / den < 10 ^ guess
  · have hpoint : pointOf num den = guess := if_pos ((isBelow_iff num hden guess).2 h)
    rw [hpoint]
    exact ⟨hlow, h⟩
  · have hpoint : pointOf num den = guess + 1 := if_neg (mt (isBelow_iff num hden guess).1 h)
    rw [hpoint, add_sub_cancel_right]
    exact ⟨not_lt.1 h, hhigh⟩

/-! ### What a picked decimal reads as -/

/-- Every ratio of this value is rounded to the number of the mantissa and the exponent. -/
def ReadsAs (f : BinaryFormat) (m : ℕ) (e : ℤ) (x : ℚ) : Prop :=
  ∀ (negative : Bool) (num den : ℕ), 0 < den → (num : ℚ) / den = x →
    ofRatio f negative num den = .finite negative m e

section
variable {f : BinaryFormat} {m count : ℕ} {e : ℤ}

theorem ofRatio_of_sign {negative : Bool} {num den : ℕ} (hden : 0 < den)
    (h : ofRatio f negative num den = .finite negative m e) (negative' : Bool) :
    ofRatio f negative' num den = .finite negative' m e := by
  rcases Nat.eq_zero_or_pos num with rfl | hnum
  · simp only [ofRatio, zero, if_true, finite.injEq, true_and] at h ⊢
    exact h
  · obtain ⟨m', k, hk, hm, heq⟩ := exists_ofRatio_eq_settle f negative hnum hden
    rw [heq] at h
    rw [ofRatio_eq_settle hnum hden hk hm]
    simp only [settle] at h ⊢
    split_ifs at h ⊢ <;> simpa using h

theorem readsAs_of_ofRatio {negative : Bool} {num den : ℕ} (hden : 0 < den)
    (h : ofRatio f negative num den = .finite negative m e) :
    ReadsAs f m e ((num : ℚ) / den) := by
  intro negative' num' den' hden' heq
  rw [ofRatio_congr hden' hden heq]
  exact ofRatio_of_sign hden h negative'

/-- The decimal that is picked for a number on the grid of `count` digits. -/
def onGrid (count : ℕ) (point : ℤ) (c : ℕ) : Decimal :=
  if c = 10 ^ count then ⟨[1], point + 1⟩ else ⟨natDigits c, point⟩

theorem value_onGrid (point : ℤ) {c : ℕ} (hlow : 10 ^ count ≤ c) (hhigh : c ≤ 10 ^ (count + 1)) :
    (onGrid (count + 1) point c).value = c * 10 ^ (point - (count + 1 : ℕ)) := by
  rw [onGrid]
  split
  · next hc =>
    rw [hc, Nat.cast_pow, Nat.cast_ofNat, ← zpow_natCast, ← zpow_add₀ (by norm_num)]
    simp [Decimal.value, ofDigits]
  · next hc =>
    have hlength := length_natDigits_eq hlow (lt_of_le_of_ne hhigh hc)
    rw [Decimal.value, ofDigits_natDigits, hlength]

theorem roundRatio_eq_or (n d : ℕ) : roundRatio n d = n / d ∨ roundRatio n d = n / d + 1 := by
  simp only [roundRatio]
  split_ifs <;> simp

def pointAt (m : ℕ) (e : ℤ) : ℤ := pointOf (magnitude m e).1 (magnitude m e).2

/-- A number on the grid of `count` digits. -/
def scaled (m : ℕ) (e : ℤ) (count : ℕ) : ℕ × ℕ :=
  shiftRatio (magnitude m e).1 (magnitude m e).2 (count - pointAt m e)

/-- Whether a point of the grid of `count` digits reads back. -/
def ReadsBack (f : BinaryFormat) (m : ℕ) (e : ℤ) (count c : ℕ) : Prop :=
  ofRatio f false (shiftRatio c 1 (pointAt m e - count)).1 (shiftRatio c 1 (pointAt m e - count)).2 =
    .finite false m e

/-- A decimal on a grid is one of the two neighbours of the number, and it reads back. -/
theorem exists_of_digitsOn? {d : Decimal} (h : digitsOn? f m e count = some d) :
    ∃ c, (c = (scaled m e count).1 / (scaled m e count).2 ∨
        c = (scaled m e count).1 / (scaled m e count).2 + 1) ∧
      ReadsBack f m e count c ∧ d = onGrid count (pointAt m e) c := by
  have hpick (c : ℕ) (hc : (if c = Nat.pow 10 count then some ⟨[1], pointAt m e + 1⟩
      else some ⟨natDigits c, pointAt m e⟩) = some d) : d = onGrid count (pointAt m e) c := by
    rw [Nat.pow_eq] at hc
    rw [onGrid]
    split at hc
    · next heq => rw [if_pos heq, Option.some.inj hc]
    · next hne => rw [if_neg hne, Option.some.inj hc]
  simp only [digitsOn?] at h
  split at h
  · next hboth =>
    rw [Bool.and_eq_true, Bool.and_eq_true, decide_eq_true_iff, decide_eq_true_iff] at hboth
    rcases roundRatio_eq_or (scaled m e count).1 (scaled m e count).2 with hc | hc
    · exact ⟨_, .inl rfl, hboth.1.1, hpick _ (hc ▸ h)⟩
    · exact ⟨_, .inr rfl, hboth.1.2, hpick _ (hc ▸ h)⟩
  split at h
  · next hlower =>
    rw [decide_eq_true_iff] at hlower
    exact ⟨_, .inl rfl, hlower, hpick _ h⟩
  split at h
  · next hupper =>
    rw [decide_eq_true_iff] at hupper
    exact ⟨_, .inr rfl, hupper, hpick _ h⟩
  · cases h

/-- If one of the two neighbours reads back, then there is a decimal on the grid. -/
theorem isSome_digitsOn?
    (h : ReadsBack f m e count ((scaled m e count).1 / (scaled m e count).2) ∨
      ReadsBack f m e count ((scaled m e count).1 / (scaled m e count).2 + 1)) :
    (digitsOn? f m e count).isSome := by
  have hpick (c : ℕ) : (if c = Nat.pow 10 count then some (⟨[1], pointAt m e + 1⟩ : Decimal)
      else some ⟨natDigits c, pointAt m e⟩).isSome := by
    split <;> rfl
  simp only [digitsOn?]
  split
  · exact hpick _
  split
  · exact hpick _
  split
  · exact hpick _
  · next hlower hupper =>
    exact (h.elim (fun h => hlower (decide_eq_true h)) fun h => hupper (decide_eq_true h)).elim

theorem scaled_div (m : ℕ) (e : ℤ) (count : ℕ) :
    ((scaled m e count).1 : ℚ) / (scaled m e count).2 = m * 2 ^ e * 10 ^ (count - pointAt m e) := by
  rw [scaled, shiftRatio_div, magnitude_div]

theorem scaled_den_pos (m : ℕ) (e : ℤ) (count : ℕ) : 0 < (scaled m e count).2 :=
  shiftRatio_den_pos _ (scaleRatio_den_pos m Nat.one_pos (-e)) _

theorem pointAt_bounds (hm : 0 < m) (e : ℤ) :
    (10 : ℚ) ^ (pointAt m e - 1) ≤ m * 2 ^ e ∧ (m : ℚ) * 2 ^ e < 10 ^ pointAt m e := by
  have hmagnitude : 0 < (magnitude m e).1 := by
    rw [magnitude, scaleRatio]
    split
    · exact Nat.mul_pos hm (Nat.pow_pos (by decide))
    · exact hm
  rw [← magnitude_div]
  exact pointOf_bounds hmagnitude (scaleRatio_den_pos m Nat.one_pos (-e))

/-- The digits before the grid's last place: exactly `count + 1` of them. -/
theorem scaled_floor (hm : 0 < m) (e : ℤ) (count : ℕ) :
    10 ^ count ≤ (scaled m e (count + 1)).1 / (scaled m e (count + 1)).2 ∧
      (scaled m e (count + 1)).1 / (scaled m e (count + 1)).2 < 10 ^ (count + 1) := by
  have hden := scaled_den_pos m e (count + 1)
  have hd : (0 : ℚ) < (scaled m e (count + 1)).2 := by exact_mod_cast hden
  obtain ⟨hlow, hhigh⟩ := pointAt_bounds hm e
  have hscale : (0 : ℚ) < 10 ^ ((count + 1 : ℕ) - pointAt m e) := by positivity
  have hvalue := scaled_div m e (count + 1)
  rw [Nat.le_div_iff_mul_le hden, Nat.div_lt_iff_lt_mul hden]
  have hlow' : (10 : ℚ) ^ count ≤ (scaled m e (count + 1)).1 / (scaled m e (count + 1)).2 := by
    calc (10 : ℚ) ^ count = 10 ^ (pointAt m e - 1) * 10 ^ ((count + 1 : ℕ) - pointAt m e) := by
          rw [← zpow_add₀ (by norm_num), ← zpow_natCast]
          congr 1
          push_cast
          ring
      _ ≤ m * 2 ^ e * 10 ^ ((count + 1 : ℕ) - pointAt m e) := by gcongr
      _ = _ := hvalue.symm
  have hhigh' : ((scaled m e (count + 1)).1 : ℚ) / (scaled m e (count + 1)).2 < 10 ^ (count + 1) := by
    calc ((scaled m e (count + 1)).1 : ℚ) / (scaled m e (count + 1)).2
        = m * 2 ^ e * 10 ^ ((count + 1 : ℕ) - pointAt m e) := hvalue
      _ < 10 ^ pointAt m e * 10 ^ ((count + 1 : ℕ) - pointAt m e) := by gcongr
      _ = 10 ^ (count + 1) := by
          rw [← zpow_add₀ (by norm_num), ← zpow_natCast]
          congr 1
          ring
  rw [le_div_iff₀ hd] at hlow'
  rw [div_lt_iff₀ hd] at hhigh'
  exact ⟨by exact_mod_cast hlow', by exact_mod_cast hhigh'⟩

/-- The number lies between its two neighbours on the grid. -/
theorem floor_scaled (m : ℕ) (e : ℤ) (count : ℕ) :
    (((scaled m e count).1 / (scaled m e count).2 : ℕ) : ℚ) ≤
        m * 2 ^ e * 10 ^ (count - pointAt m e) ∧
      (m : ℚ) * 2 ^ e * 10 ^ (count - pointAt m e) <
        ((scaled m e count).1 / (scaled m e count).2 : ℕ) + 1 := by
  have hden : (0 : ℚ) < (scaled m e count).2 := by exact_mod_cast scaled_den_pos m e count
  rw [← scaled_div]
  refine ⟨Nat.cast_div_le, ?_⟩
  rw [div_lt_iff₀ hden]
  exact_mod_cast Nat.lt_mul_of_div_lt (Nat.lt_succ_self _) (scaled_den_pos m e count)

/-- Whatever is picked on a grid reads back. -/
theorem readsAs_of_digitsOn? (hm : 0 < m) {d : Decimal}
    (h : digitsOn? f m e (count + 1) = some d) :
    ReadsAs f m e d.value ∧ ofDigits d.digits ≠ 0 := by
  obtain ⟨c, hc, hback, rfl⟩ := exists_of_digitsOn? h
  obtain ⟨hlow, hhigh⟩ := scaled_floor hm e count
  have hclow : 10 ^ count ≤ c := by omega
  have hchigh : c ≤ 10 ^ (count + 1) := by omega
  constructor
  · have hreads := readsAs_of_ofRatio (shiftRatio_den_pos c Nat.one_pos _) hback
    rw [shiftRatio_div, Nat.cast_one, div_one] at hreads
    rw [value_onGrid (pointAt m e) hclow hchigh]
    exact hreads
  · rw [onGrid]
    split
    · exact Nat.one_ne_zero
    · rw [ofDigits_natDigits]
      have : 0 < 10 ^ count := by positivity
      omega

/-! ### Seventeen digits -/

/-- A point of the grid of seventeen digits within half a step of a double reads back. -/
theorem readsBack_of_near (hb : (Binary.finite false m e).BelongsTo .double) (hm : 0 < m) {c : ℕ}
    (hc : 0 < c) (hnear : |(c : ℚ) - m * 2 ^ e * 10 ^ (17 - pointAt m e)| ≤ 1 / 2) :
    ReadsBack .double m e 17 c := by
  have hmant : (m : ℚ) < 2 ^ 53 := by exact_mod_cast hb.2.2.1
  have hm' : (0 : ℚ) < m := by exact_mod_cast hm
  have he : (0 : ℚ) < 2 ^ e := by positivity
  set P := pointAt m e with hP
  set step : ℚ := 10 ^ (P - 17) / 2 ^ e with hstep
  have hpos : 0 < step := by positivity
  -- a step of the grid is less than the number by sixteen powers of ten
  have hsmall : step * 10 ^ 16 ≤ m := by
    have hlow := (pointAt_bounds hm e).1
    rw [← hP] at hlow
    rw [hstep, div_mul_eq_mul_div, div_le_iff₀ he]
    calc (10 : ℚ) ^ (P - 17) * 10 ^ 16 = 10 ^ (P - 1) := by
          rw [← zpow_natCast, ← zpow_add₀ (by norm_num)]
          congr 1
          push_cast
          ring
      _ ≤ m * 2 ^ e := hlow
  have hoff : (c : ℚ) * 10 ^ (P - 17) / 2 ^ e - m =
      (c - m * 2 ^ e * 10 ^ (17 - P)) * step := by
    have hinv : (10 : ℚ) ^ (17 - P) * 10 ^ (P - 17) = 1 := by
      rw [← zpow_add₀ (by norm_num)]
      simp
    rw [hstep]
    field_simp
    linear_combination (m : ℚ) * 2 ^ e * hinv
  have hdist : 2 * |(c : ℚ) * 10 ^ (P - 17) / 2 ^ e - m| ≤ step := by
    rw [hoff, abs_mul, abs_of_pos hpos]
    nlinarith
  have hratio : ((shiftRatio c 1 (P - 17)).1 : ℚ) / (shiftRatio c 1 (P - 17)).2 =
      c * 10 ^ (P - 17) := by
    rw [shiftRatio_div, Nat.cast_one, div_one]
  rw [ReadsBack]
  refine ofRatio_of_near (by decide) hb ?_ (shiftRatio_den_pos c Nat.one_pos _) ?_ (.inr ?_)
  · rw [shiftRatio]
    split
    · exact hc
    · exact Nat.mul_pos hc (Nat.pow_pos (by decide))
  · rw [← hP, Nat.cast_ofNat, hratio]
    linarith
  · by_cases hlarge : 2 ^ 53 < 2 * m
    · exact .inl hlarge
    · right
      have : (2 * m : ℚ) ≤ 2 ^ 53 := by exact_mod_cast not_lt.1 hlarge
      rw [← hP, Nat.cast_ofNat, hratio]
      linarith

theorem isSome_digitsOn?_seventeen (hb : (Binary.finite false m e).BelongsTo .double)
    (hm : 0 < m) : (digitsOn? .double m e 17).isSome := by
  apply isSome_digitsOn?
  obtain ⟨hfloor, -⟩ := scaled_floor hm e 16
  obtain ⟨hlower, hupper⟩ := floor_scaled m e 17
  set c := (scaled m e 17).1 / (scaled m e 17).2
  have hpos : 0 < c := lt_of_lt_of_le (by positivity) hfloor
  rw [Nat.cast_ofNat] at hlower hupper
  by_cases hhalf : (m : ℚ) * 2 ^ e * 10 ^ (17 - pointAt m e) ≤ c + 1 / 2
  · left
    refine readsBack_of_near hb hm hpos ?_
    rw [abs_le]
    constructor <;> linarith
  · right
    refine readsBack_of_near hb hm (Nat.succ_pos _) ?_
    rw [abs_le]
    push_cast
    constructor <;> linarith

/-- The search ends on a grid, at the latest on one within its bounds that has a decimal. -/
theorem exists_digitsOn?_eq (more count : ℕ) {last : ℕ}
    (hlast : count + 1 ≤ last ∧ last < count + 1 + more)
    (hsome : (digitsOn? f m e last).isSome) :
    ∃ k, k + 1 ≤ last ∧ digitsOn? f m e (k + 1) = some (digitsFrom f m e more (count + 1)) := by
  induction more generalizing count with
  | zero => omega
  | succ more ih =>
    rw [digitsFrom]
    cases h : digitsOn? f m e (count + 1) with
    | some d => exact ⟨count, hlast.1, h⟩
    | none =>
      refine ih (count + 1) ⟨?_, by omega⟩
      rcases hlast.1.lt_or_eq with hlt | rfl
      · exact hlt
      · rw [h] at hsome
        cases hsome

/-- The shortest decimal of a positive double reads back as the double. -/
theorem readsAs_shortest (hb : (Binary.finite false m e).BelongsTo .double) (hm : 0 < m) :
    ReadsAs .double m e (shortest .double m e).value ∧
      ofDigits (shortest .double m e).digits ≠ 0 := by
  obtain ⟨k, -, hk⟩ := exists_digitsOn?_eq 17 0 (by omega) (isSome_digitsOn?_seventeen hb hm)
  rw [shortest, if_neg hm.ne']
  exact readsAs_of_digitsOn? hm hk

end

end Binary

end OperationGraph
