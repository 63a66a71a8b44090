import Mathlib.Algebra.Group.Nat.Defs
import OperationGraph.Number.Decimal
import OperationGraph.Value.OfLiteral

/-! # Decimal digits

The digits of a number write that number, and a text of digits is read as these digits. -/

namespace OperationGraph

/-! ### The digits of a number -/

theorem lt_ten_of_mem_natDigits {n d : Nat} (h : d ∈ natDigits n) : d < 10 := by
  obtain ⟨c, hc, rfl⟩ := List.mem_map.1 h
  have hdigit := Nat.isDigit_of_mem_toDigits (by decide) (by decide) hc
  simp only [Char.isDigit, ge_iff_le, Bool.and_eq_true, decide_eq_true_eq] at hdigit
  have hle : c.toNat ≤ '9'.toNat := hdigit.2
  have hnine : '9'.toNat = 57 := rfl
  have hzero : '0'.toNat = 48 := rfl
  omega

theorem natDigits_ne_nil (n : Nat) : natDigits n ≠ [] := by
  simp [natDigits, Nat.toDigits_ne_nil]

theorem ofDigits_natDigits (n : Nat) : ofDigits (natDigits n) = n := by
  have h := Nat.ofDigitChars_ten_toDigits (n := n)
  rw [Nat.ofDigitChars_eq_foldl] at h
  simpa [ofDigits, natDigits, List.foldl_map, Nat.mul_comm] using h

theorem foldl_digits (ds : List Nat) (n : Nat) :
    ds.foldl (fun n d => n * 10 + d) n = n * 10 ^ ds.length + ofDigits ds := by
  induction ds generalizing n with
  | nil => simp [ofDigits]
  | cons d rest ih =>
    have hrest := ih d
    simp only [ofDigits, List.foldl_cons, List.length_cons, Nat.zero_mul, Nat.zero_add] at hrest ⊢
    rw [ih, hrest, Nat.pow_succ, Nat.add_mul, Nat.mul_assoc, Nat.mul_comm (10 ^ rest.length) 10,
      Nat.add_assoc]
    rfl

theorem ofDigits_append (as bs : List Nat) :
    ofDigits (as ++ bs) = ofDigits as * 10 ^ bs.length + ofDigits bs := by
  rw [ofDigits, List.foldl_append, foldl_digits]
  rfl

theorem ofDigits_replicate_zero (n : Nat) : ofDigits (List.replicate n 0) = 0 := by
  induction n with
  | zero => rfl
  | succ n ih => simpa [ofDigits, List.replicate_succ] using ih

/-- A positive number lies between the powers of ten that the count of its digits gives. -/
theorem length_natDigits {n : Nat} (hn : 0 < n) :
    10 ^ ((natDigits n).length - 1) ≤ n ∧ n < 10 ^ (natDigits n).length := by
  have hlength : (natDigits n).length = (Nat.toDigits 10 n).length := List.length_map ..
  have hpos : 0 < (Nat.toDigits 10 n).length := Nat.length_toDigits_pos
  rw [hlength]
  constructor
  · apply Nat.le_of_not_lt
    intro hlt
    by_cases hone : (Nat.toDigits 10 n).length = 1
    · rw [hone] at hlt
      omega
    · have := (Nat.length_toDigits_le_iff (by decide) (by omega)).2 hlt
      omega
  · exact (Nat.length_toDigits_le_iff (by decide) hpos).1 (Nat.le_refl _)

theorem length_natDigits_eq {n k : Nat} (hlow : 10 ^ k ≤ n) (hhigh : n < 10 ^ (k + 1)) :
    (natDigits n).length = k + 1 := by
  have hpos : 0 < n := Nat.lt_of_lt_of_le (Nat.pow_pos (by decide)) hlow
  obtain ⟨hl, hh⟩ := length_natDigits hpos
  have h1 : k < (natDigits n).length :=
    (Nat.pow_lt_pow_iff_right (by decide)).1 (Nat.lt_of_le_of_lt hlow hh)
  have h2 : (natDigits n).length - 1 < k + 1 :=
    (Nat.pow_lt_pow_iff_right (by decide)).1 (Nat.lt_of_le_of_lt hl hhigh)
  omega

/-! ### The characters of digits -/

theorem isDigit_digitChar {d : Nat} (h : d < 10) : (Decimal.digitChar d).isDigit = true := by
  have : ∀ d < 10, (Decimal.digitChar d).isDigit = true := by decide
  exact this d h

theorem digit?_digitChar {d : Nat} (h : d < 10) : digit? (Decimal.digitChar d) = some d := by
  have : ∀ d < 10, digit? (Decimal.digitChar d) = some d := by decide
  exact this d h

theorem map_digitChar_natDigits (n : Nat) :
    (natDigits n).map Decimal.digitChar = Nat.toDigits 10 n := by
  rw [natDigits, List.map_map]
  refine (List.map_congr_left ?_).trans (List.map_id _)
  intro c hc
  have hdigit := Nat.isDigit_of_mem_toDigits (by decide) (by decide) hc
  simp only [Char.isDigit, ge_iff_le, Bool.and_eq_true, decide_eq_true_eq] at hdigit
  have hle : '0'.toNat ≤ c.toNat := hdigit.1
  rw [Function.comp_apply, Decimal.digitChar, Nat.add_sub_cancel' hle, Char.ofNat_toNat]
  rfl

/-- Digits are read up to the first character that is none. -/
theorem spanDigits_append {ds : List Nat} (h : ∀ d ∈ ds, d < 10) (rest : List Char)
    (hrest : ∀ c ∈ rest.head?, c.isDigit = false) :
    spanDigits (ds.map Decimal.digitChar ++ rest) = (ds, rest) := by
  have htake : rest.takeWhile Char.isDigit = [] := by
    cases rest with
    | nil => rfl
    | cons c _ => simp [hrest c (by simp)]
  have hdrop : rest.dropWhile Char.isDigit = rest := by
    cases rest with
    | nil => rfl
    | cons c _ => simp [hrest c (by simp)]
  induction ds with
  | nil => simp [spanDigits, htake, hdrop]
  | cons d ds ih =>
    have hd := h d List.mem_cons_self
    have hds := ih fun x hx => h x (List.mem_cons_of_mem d hx)
    simp only [spanDigits, Prod.mk.injEq] at hds ⊢
    simp [isDigit_digitChar hd, digit?_digitChar hd, hds]

theorem spanDigits_digits {ds : List Nat} (h : ∀ d ∈ ds, d < 10) :
    spanDigits (ds.map Decimal.digitChar) = (ds, []) := by
  simpa using spanDigits_append h [] (by simp)

theorem spanDigits_toDigits (n : Nat) : spanDigits (Nat.toDigits 10 n) = (natDigits n, []) := by
  rw [← map_digitChar_natDigits]
  exact spanDigits_digits fun d hd => lt_ten_of_mem_natDigits hd

/-- No sign is a digit. -/
theorem toDigits_ne_cons {c : Char} (hc : c.isDigit = false) (n : Nat) (cs : List Char) :
    Nat.toDigits 10 n ≠ c :: cs := by
  intro h
  have hdigit : c.isDigit = true :=
    Nat.isDigit_of_mem_toDigits (by decide) (by decide) (h ▸ List.mem_cons_self)
  rw [hc] at hdigit
  cases hdigit

/-- An integer is read from its decimal text. -/
theorem readInt?_toString (n : Int) : readInt? (toString n).toList = some n := by
  have hne := natDigits_ne_nil
  have hvalue := ofDigits_natDigits
  rw [Int.toString_eq_repr]
  cases n with
  | ofNat m =>
    have hchars : (Int.ofNat m).repr.toList = Nat.toDigits 10 m := by simp [Int.repr]
    obtain ⟨d, ds, hds⟩ := List.exists_cons_of_ne_nil (hne m)
    rw [hchars, readInt?, spanDigits_toDigits, hds]
    · change some ((ofDigits (d :: ds) : Nat) : Int) = some (Int.ofNat m)
      rw [← hds, hvalue]
      rfl
    · exact toDigits_ne_cons (by decide) m
    · exact toDigits_ne_cons (by decide) m
  | negSucc m =>
    have hchars : (Int.negSucc m).repr.toList = '-' :: Nat.toDigits 10 (m + 1) := by
      simp [Int.repr]
    obtain ⟨d, ds, hds⟩ := List.exists_cons_of_ne_nil (hne (m + 1))
    rw [hchars, readInt?, spanDigits_toDigits, hds]
    change some (-((ofDigits (d :: ds) : Nat) : Int)) = some (Int.negSucc m)
    rw [← hds, hvalue]
    rfl

/-! ### Shortest decimals -/

def Decimal.IsProper (d : Decimal) : Prop := ∀ x ∈ d.digits, x < 10

namespace Binary

theorem isProper_of_digitsOn? {f : BinaryFormat} {m : Nat} {e : Int} {count : Nat} {d : Decimal}
    (h : digitsOn? f m e count = some d) : d.IsProper := by
  -- whatever is picked has the digits of a number, or a single one
  have hpick (c : Nat) (point : Int) (h : (if c = Nat.pow 10 count then some ⟨[1], point + 1⟩
      else some ⟨natDigits c, point⟩) = some d) : d.IsProper := by
    split at h
    · obtain rfl := Option.some.inj h
      simp [Decimal.IsProper]
    · obtain rfl := Option.some.inj h
      exact fun x hx => lt_ten_of_mem_natDigits hx
  simp only [digitsOn?] at h
  split at h
  · exact hpick _ _ h
  · split at h
    · exact hpick _ _ h
    · split at h
      · exact hpick _ _ h
      · cases h

theorem isProper_digitsFrom (f : BinaryFormat) (m : Nat) (e : Int) (more count : Nat) :
    (digitsFrom f m e more count).IsProper := by
  induction more generalizing count with
  | zero => simp [digitsFrom, Decimal.IsProper]
  | succ more ih =>
    rw [digitsFrom]
    cases h : digitsOn? f m e count with
    | some d => exact isProper_of_digitsOn? h
    | none => exact ih (count + 1)

theorem isProper_shortest (f : BinaryFormat) (m : Nat) (e : Int) : (shortest f m e).IsProper := by
  unfold shortest
  split
  · simp [Decimal.IsProper]
  · exact isProper_digitsFrom f m e 17 1

end Binary

end OperationGraph
