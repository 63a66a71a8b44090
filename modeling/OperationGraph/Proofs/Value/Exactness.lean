import OperationGraph.Proofs.Number.Shortest
import OperationGraph.Proofs.Value.Conformance

/-! # Which numbers are coerced exactly

A finite number of a binary format is a rational number, and the infinities are none. An integral
number that fits into sixty-four bits is the word it is turned into. So coercion keeps every number that
it confines to a range; it does not confine numbers of single precision to the range of `Int`, nor those
of double precision to the words that an `ID` is written from (`coerce_exact_iff`). -/

namespace OperationGraph

namespace Binary

/-! ### The value of a binary number -/

/-- The exact value of a finite number. -/
def value? : Binary → Option ℚ
  | .finite negative m e => some ((if negative then -1 else 1) * (m * 2 ^ e))
  | _ => none

/-- The greatest integer of sixty-four bits. -/
def maxWord : ℤ := 0x7fffffffffffffff

/-- Whether a number has a value between two integers, the ends included. -/
def Between (lo hi : ℤ) (x : Binary) : Prop := ∃ q, x.value? = some q ∧ lo ≤ q ∧ q ≤ hi

section
variable {negative : Bool} {m : ℕ} {e k : ℤ} {x : Binary}

theorem value?_finite_eq (negative : Bool) (m : ℕ) (e : ℤ) :
    (Binary.finite negative m e).value? =
      some ((if negative then -1 else 1) * (((magnitude m e).1 : ℚ) / (magnitude m e).2)) := by
  rw [value?, magnitude_div]

/-- A finite number is an integer exactly if it has no fractional part, and then it is its integral
part. -/
theorem value?_finite_eq_intCast_iff :
    (Binary.finite negative m e).value? = some (k : ℚ) ↔
      (Binary.finite negative m e).isIntegral = true ∧ truncate negative m e = k := by
  have hpos : 0 < (magnitude m e).2 := Value.magnitude_den_pos m e
  rw [value?_finite_eq]
  simp only [isIntegral, truncate]
  generalize (magnitude m e).1 = n at *
  generalize (magnitude m e).2 = d at *
  have hd : (d : ℚ) ≠ 0 := by exact_mod_cast hpos.ne'
  rw [decide_eq_true_eq, Option.some.injEq]
  constructor
  · intro h
    -- the numerator is the denominator times the integer, up to the sign
    have hnat : n = d * k.natAbs := by
      have habs : (n : ℚ) / d = |(k : ℚ)| := by
        rw [← h]
        cases negative <;> simp [abs_of_nonneg (show (0 : ℚ) ≤ n / d by positivity)]
      rw [div_eq_iff hd, ← Int.cast_abs, Int.abs_eq_natAbs] at habs
      rw [Nat.mul_comm]
      exact_mod_cast habs
    have hsign : (if negative then -(k.natAbs : ℤ) else k.natAbs) = k := by
      rw [hnat, Nat.cast_mul, mul_div_cancel_left₀ _ hd] at h
      apply Int.cast_injective (α := ℚ)
      rw [← h]
      cases negative <;> simp
    rw [hnat, Nat.mul_div_cancel_left _ hpos]
    exact ⟨Nat.mul_mod_right d _, hsign⟩
  · rintro ⟨hmod, rfl⟩
    obtain ⟨q, rfl⟩ := Nat.dvd_of_mod_eq_zero hmod
    rw [Nat.mul_div_cancel_left _ hpos, Nat.cast_mul, mul_div_cancel_left₀ _ hd]
    cases negative <;> simp

theorem inRange_eq_true_iff {lo hi : ℤ} : x.inRange lo hi = true ↔ x.Between lo hi := by
  cases x with
  | nan => simp [inRange, Between, value?]
  | infinite s => simp [inRange, Between, value?]
  | finite s m e =>
    have hpos : (0 : ℚ) < (magnitude m e).2 := by exact_mod_cast Value.magnitude_den_pos m e
    simp only [inRange, Between, value?_finite_eq, Option.some.injEq, exists_eq_left',
      Bool.and_eq_true, decide_eq_true_eq]
    generalize (magnitude m e).1 = n at *
    generalize (magnitude m e).2 = d at *
    have hvalue : (if s then (-1 : ℚ) else 1) * (n / d) = ((if s then -(n : ℤ) else n : ℤ) : ℚ) / d := by
      cases s <;> simp [neg_div]
    rw [hvalue, le_div_iff₀ hpos, div_le_iff₀ hpos]
    exact_mod_cast Iff.rfl

theorem isIntegral_of_value? (h : x.value? = some (k : ℚ)) : x.isIntegral = true := by
  cases x with
  | nan => cases h
  | infinite s => rfl
  | finite s m e => exact (value?_finite_eq_intCast_iff.1 h).1

/-- An integer that fits into sixty-four bits is turned into the word that it is. -/
theorem toWord_of_value? (h : x.value? = some (k : ℚ)) (hlow : minWord ≤ k) (hhigh : k ≤ maxWord) :
    x.toWord = k := by
  cases x with
  | nan => cases h
  | infinite s => cases h
  | finite s m e =>
    obtain ⟨-, rfl⟩ := value?_finite_eq_intCast_iff.1 h
    apply if_pos
    rw [maxWord] at hhigh
    omega

/-- A number without a fractional part between two integers of sixty-four bits is the word that it is
turned into. -/
theorem toWord_eq_iff {lo hi : ℤ} (hlo : minWord ≤ lo) (hhi : hi ≤ maxWord) :
    x.isIntegral = true ∧ x.Between lo hi ∧ x.toWord = k ↔
      x.value? = some (k : ℚ) ∧ lo ≤ k ∧ k ≤ hi := by
  constructor
  · rintro ⟨hint, ⟨q, hq, hlow, hhigh⟩, rfl⟩
    cases x with
    | nan => cases hq
    | infinite s => cases hq
    | finite s m e =>
      have hvalue := value?_finite_eq_intCast_iff.2 ⟨hint, rfl⟩
      obtain rfl : ((truncate s m e : ℤ) : ℚ) = q := Option.some.inj (hvalue.symm.trans hq)
      have hlow : lo ≤ truncate s m e := by exact_mod_cast hlow
      have hhigh : truncate s m e ≤ hi := by exact_mod_cast hhigh
      rw [toWord_of_value? hvalue (hlo.trans hlow) (hhigh.trans hhi)]
      exact ⟨hvalue, hlow, hhigh⟩
  · rintro ⟨hvalue, hlow, hhigh⟩
    refine ⟨isIntegral_of_value? hvalue, ⟨k, hvalue, ?_, ?_⟩, ?_⟩
    · exact_mod_cast hlow
    · exact_mod_cast hhigh
    · exact toWord_of_value? hvalue (hlo.trans hlow) (hhigh.trans hhi)

end

end Binary

namespace Value

/-! ### Numbers and their coercion -/

def rational? : Value → Option ℚ
  | .int _ n => some n
  | .float _ x => x.value?
  | _ => none

/-- Numbers of the five kinds that are coerced; integers are within the bounds of their kind. -/
def IsNumber : Value → Prop
  | .int .plain n => Binary.minWord ≤ n ∧ n ≤ Binary.maxWord
  | .int .bits32 n => minInt ≤ n ∧ n ≤ maxInt
  | .int .bits64 n => Binary.minWord ≤ n ∧ n ≤ Binary.maxWord
  | .float _ _ => True
  | _ => False

/-- A number of single precision that is not in the range of the type `Int`. -/
def LeavesInt (v : Value) : Prop := ∃ x, v = .float .single x ∧ ¬ x.Between minInt maxInt

/-- A number of double precision that does not fit into sixty-four bits. -/
def LeavesWord (v : Value) : Prop :=
  ∃ x, v = .float .double x ∧ ¬ x.Between Binary.minWord Binary.maxWord

/-- Whether a value is a number of single precision, which is no `ID`. -/
def isSingle : Value → Bool
  | .float .single _ => true
  | _ => false

section
variable {v w : Value}

theorem not_leavesInt {width : IntWidth} {n : ℤ} : ¬ (Value.int width n).LeavesInt := by
  rintro ⟨x, hx, -⟩
  cases hx

theorem not_leavesInt_double {x : Binary} : ¬ (Value.float .double x).LeavesInt := by
  rintro ⟨y, hy, -⟩
  cases hy

theorem leavesInt_single_iff {x : Binary} :
    (Value.float .single x).LeavesInt ↔ ¬ x.Between minInt maxInt := by
  simp [LeavesInt]

theorem not_leavesWord {width : IntWidth} {n : ℤ} : ¬ (Value.int width n).LeavesWord := by
  rintro ⟨x, hx, -⟩
  cases hx

theorem leavesWord_double_iff {x : Binary} :
    (Value.float .double x).LeavesWord ↔ ¬ x.Between Binary.minWord Binary.maxWord := by
  simp [LeavesWord]

/-- What is made of the word of a number in a range is made of the integer that the number is. -/
theorem of_toWord_eq_iff (of : ℤ → Value) (x : Binary) {lo hi : ℤ} (hlo : Binary.minWord ≤ lo)
    (hhi : hi ≤ Binary.maxWord) :
    x.isIntegral = true ∧ x.Between lo hi ∧ of x.toWord = w ↔
      ∃ k : ℤ, w = of k ∧ x.value? = some (k : ℚ) ∧ lo ≤ k ∧ k ≤ hi := by
  constructor
  · rintro ⟨hint, hbetween, rfl⟩
    exact ⟨x.toWord, rfl, (Binary.toWord_eq_iff hlo hhi).1 ⟨hint, hbetween, rfl⟩⟩
  · rintro ⟨k, rfl, hk⟩
    obtain ⟨hint, hbetween, rfl⟩ := (Binary.toWord_eq_iff hlo hhi).2 hk
    exact ⟨hint, hbetween, rfl⟩

/-- Integers of thirty-two bits are in the range by their kind, and the others are checked for it. -/
theorem coerceInt_int_iff {width : IntWidth} {n : ℤ} (hv : (Value.int width n).IsNumber) :
    coerceInt (.int width n) = .ok w ↔ w = .int .plain n ∧ minInt ≤ n ∧ n ≤ maxInt := by
  have hchecked : (if inIntRange n then .ok (.int .plain n)
      else .error (.notBuiltin (.int width n) "int") : Coerced) = .ok w ↔
      w = .int .plain n ∧ minInt ≤ n ∧ n ≤ maxInt := by
    have hrange : inIntRange n = true ↔ minInt ≤ n ∧ n ≤ maxInt := by simp [inIntRange]
    rw [← hrange]
    split
    · next hn => simp [hn, eq_comm]
    · next hn => simp [hn]
  cases width with
  | plain => exact hchecked
  | bits64 => exact hchecked
  | unsigned => exact hv.elim
  | bits32 =>
    have hrange : minInt ≤ n ∧ n ≤ maxInt := hv
    simp [coerceInt, hrange, eq_comm]

/-- A number that is confined to the range of `Int` is coerced to itself or not at all. -/
theorem coerceInt_eq_ok_iff (hv : v.IsNumber) :
    coerceInt v = .ok w ∧ ¬ v.LeavesInt ↔
      ∃ k : ℤ, w = .int .plain k ∧ v.rational? = some (k : ℚ) ∧ minInt ≤ k ∧ k ≤ maxInt := by
  cases v with
  | int width n =>
    rw [and_iff_left not_leavesInt, coerceInt_int_iff hv, rational?]
    simp
  | float width x =>
    have hword := of_toWord_eq_iff (w := w) (Value.int .plain) x
      (show Binary.minWord ≤ minInt by decide) (show maxInt ≤ Binary.maxWord by decide)
    cases width with
    | double =>
      rw [and_iff_left not_leavesInt_double, rational?, ← hword, ← Binary.inRange_eq_true_iff]
      simp only [coerceInt]
      split <;> simp_all
    | single =>
      rw [leavesInt_single_iff, not_not, rational?, ← hword]
      simp only [coerceInt]
      split <;> simp_all [and_comm]
  | _ => exact hv.elim

/-- A number that is confined to the words is written as the integer that it is or not at all. -/
theorem coerceID_eq_ok_iff (hv : v.IsNumber) :
    coerceID v = .ok w ∧ ¬ v.LeavesWord ↔ v.isSingle = false ∧
      ∃ k : ℤ, w = .string (toString k) ∧ v.rational? = some (k : ℚ) ∧
        Binary.minWord ≤ k ∧ k ≤ Binary.maxWord := by
  cases v with
  | int width n =>
    have hrange : Binary.minWord ≤ n ∧ n ≤ Binary.maxWord := by
      cases width with
      | plain => exact hv
      | bits64 => exact hv
      | unsigned => exact hv.elim
      | bits32 =>
        simp only [IsNumber, minInt, maxInt] at hv
        simp only [Binary.minWord, Binary.maxWord]
        omega
    have htext : coerceID (.int width n) = .ok (.string (toString n)) := by
      cases width with
      | unsigned => exact hv.elim
      | _ => rfl
    rw [and_iff_left not_leavesWord, htext, rational?]
    simp [isSingle, hrange, eq_comm]
  | float width x =>
    cases width with
    | double =>
      have hword := of_toWord_eq_iff (w := w) (fun k => .string (toString k)) x
        (le_refl Binary.minWord) (le_refl Binary.maxWord)
      rw [leavesWord_double_iff, not_not, rational?, ← hword]
      simp only [coerceID, isSingle, true_and]
      split <;> simp_all [and_comm]
    | single => simp [coerceID, isSingle]
  | _ => exact hv.elim

end

/-- Coercion to `Int` gives the number itself, in the range of `Int`, and coercion to `ID` gives the
decimal numeral of the number itself, but for two kinds of numbers that are not checked: those of single
precision outside the range of `Int`, and those of double precision outside sixty-four bits. -/
theorem coerce_exact_iff (v : Value) (hv : v.IsNumber) (w : Value) :
    (coerceInt v = .ok w ∧ ¬ v.LeavesInt ↔
      ∃ k : ℤ, w = .int .plain k ∧ v.rational? = some (k : ℚ) ∧ minInt ≤ k ∧ k ≤ maxInt) ∧
    (coerceID v = .ok w ∧ ¬ v.LeavesWord ↔ v.isSingle = false ∧
      ∃ k : ℤ, w = .string (toString k) ∧ v.rational? = some (k : ℚ) ∧
        Binary.minWord ≤ k ∧ k ≤ Binary.maxWord) :=
  ⟨coerceInt_eq_ok_iff hv, coerceID_eq_ok_iff hv⟩

/-- The double `-2 ^ 63`, the least integer of sixty-four bits. -/
def leastWord : Value := .float .double (.finite true (2 ^ 52) 11)

/-- The least word is written as it is, and it is no `Int`. -/
theorem coerce_exact_iff_leastWord :
    leastWord.IsNumber ∧ coerceID leastWord = .ok (.string "-9223372036854775808") ∧
      (∃ k : ℤ, Value.string "-9223372036854775808" = .string (toString k) ∧
        leastWord.rational? = some (k : ℚ) ∧ Binary.minWord ≤ k ∧ k ≤ Binary.maxWord) ∧
      coerceInt leastWord = .error (.notBuiltin leastWord "int") := by
  have hID : coerceID leastWord = .ok (.string "-9223372036854775808") := rfl
  have hfits : ¬ leastWord.LeavesWord := by
    rw [leastWord, leavesWord_double_iff, not_not, ← Binary.inRange_eq_true_iff]
    rfl
  have hexact := (coerce_exact_iff leastWord trivial _).2.1 ⟨hID, hfits⟩
  exact ⟨trivial, hID, hexact.2, rfl⟩

/-- The single `3 * 10 ^ 9`, which is above the range of `Int`. -/
def threeBillion : Value := .float .single (.finite false 11718750 8)

/-- The double `10 ^ 20`, which has more than sixty-four bits. -/
def hundredQuintillion : Value := .float .double (.finite false 6103515625000000 14)

/-- Three billion are coerced to an `Int` out of its range, and a number that is too great for a word is
written as the least word. -/
theorem exists_coerce_inexact :
    (¬ ∀ v w, v.IsNumber → coerceInt v = .ok w →
      ∃ k : ℤ, w = .int .plain k ∧ v.rational? = some (k : ℚ) ∧ minInt ≤ k ∧ k ≤ maxInt) ∧
    ¬ ∀ v w, v.IsNumber → coerceID v = .ok w →
      ∃ k : ℤ, w = .string (toString k) ∧ v.rational? = some (k : ℚ) := by
  constructor
  · intro h
    have hint : coerceInt threeBillion = .ok (.int .plain 3000000000) := rfl
    obtain ⟨k, hk, -, -, hhigh⟩ := h threeBillion _ trivial hint
    cases hk
    exact absurd hhigh (by decide)
  · intro h
    have htext : coerceID hundredQuintillion = .ok (.string (toString Binary.minWord)) := rfl
    obtain ⟨k, hk, hvalue⟩ := h hundredQuintillion _ trivial htext
    -- the number is positive, and the text is that of a negative one
    have hsame : Binary.minWord = k := by
      apply Option.some.inj
      rw [← readInt?_toString, Value.string.inj hk, readInt?_toString]
    norm_num [hundredQuintillion, rational?, Binary.value?, ← hsame, Binary.minWord] at hvalue

end Value

end OperationGraph
