import OperationGraph.Proofs.Number.Exchange

/-! # Whole numbers

A double without a fraction is written without a point, so its text may be read as an integer. The text of
that integer is the same (`toString_of_readInt?_text`), unless a negative zero was written. -/

namespace OperationGraph

/-! ### The digits that write a number -/

theorem ofDigits_cons (d : ℕ) (ds : List ℕ) : ofDigits (d :: ds) = d * 10 ^ ds.length + ofDigits ds := by
  have hone : ofDigits [d] = d := by simp [ofDigits]
  rw [← List.singleton_append, ofDigits_append, hone]

/-- Equally many digits write different numbers. -/
theorem eq_of_ofDigits_eq {as bs : List ℕ} (hlength : as.length = bs.length) (has : ∀ d ∈ as, d < 10)
    (hbs : ∀ d ∈ bs, d < 10) (h : ofDigits as = ofDigits bs) : as = bs := by
  induction as generalizing bs with
  | nil => exact (List.length_eq_zero_iff.1 hlength.symm).symm
  | cons a as ih =>
    cases bs with
    | nil => cases hlength
    | cons b bs =>
      have hrest : as.length = bs.length := by simpa using hlength
      have has' := (List.forall_mem_cons.1 has).2
      have hbs' := (List.forall_mem_cons.1 hbs).2
      have hlow := Binary.ofDigits_lt has'
      have hlow' := Binary.ofDigits_lt hbs'
      rw [ofDigits_cons, ofDigits_cons, ← hrest] at h
      rw [← hrest] at hlow'
      have hpos : 0 < 10 ^ as.length := Nat.pow_pos (by decide)
      have hfirst : a = b := by
        have ha : (a * 10 ^ as.length + ofDigits as) / 10 ^ as.length = a := by
          rw [Nat.mul_comm, Nat.mul_add_div hpos, Nat.div_eq_of_lt hlow, Nat.add_zero]
        have hb : (b * 10 ^ as.length + ofDigits bs) / 10 ^ as.length = b := by
          rw [Nat.mul_comm, Nat.mul_add_div hpos, Nat.div_eq_of_lt hlow', Nat.add_zero]
        rw [← ha, h, hb]
      subst hfirst
      rw [ih hrest has' hbs' (by omega)]

/-- Digits of which the first is not zero are those of the number that they write. -/
theorem natDigits_ofDigits {d : ℕ} {ds : List ℕ} (h : ∀ x ∈ d :: ds, x < 10) (hd : d ≠ 0) :
    natDigits (ofDigits (d :: ds)) = d :: ds := by
  have hlow : 10 ^ ds.length ≤ ofDigits (d :: ds) := by
    rw [ofDigits_cons]
    exact (Nat.le_mul_of_pos_left _ (Nat.pos_of_ne_zero hd)).trans (Nat.le_add_right _ _)
  have hhigh : ofDigits (d :: ds) < 10 ^ (ds.length + 1) := Binary.ofDigits_lt h
  apply eq_of_ofDigits_eq
  · exact length_natDigits_eq hlow hhigh
  · exact fun x hx => lt_ten_of_mem_natDigits hx
  · exact h
  · exact ofDigits_natDigits _

/-! ### Texts of integers -/

/-- A sign and digits are read as an integer if nothing follows. -/
theorem readInt?_digits (negative : Bool) {whole : List ℕ} (hne : whole ≠ []) (hwhole : ∀ x ∈ whole, x < 10)
    {rest : List Char} (hrest : ∀ c ∈ rest.head?, c.isDigit = false) :
    readInt? ((if negative then ['-'] else []) ++ (whole.map Decimal.digitChar ++ rest)) =
      if rest = [] then some (if negative then -(ofDigits whole : ℤ) else ofDigits whole) else none := by
  obtain ⟨d, ds, rfl⟩ := List.exists_cons_of_ne_nil hne
  have hspan := spanDigits_append hwhole rest hrest
  rw [List.map_cons, List.cons_append] at hspan ⊢
  have hdigit := isDigit_digitChar (hwhole d List.mem_cons_self)
  have hother (c : Char) (hc : c.isDigit = false) : Decimal.digitChar d ≠ c := by
    rintro rfl
    rw [hc] at hdigit
    cases hdigit
  cases negative with
  | true =>
    simp only [readInt?, if_true, List.singleton_append, hspan]
    cases rest <;> simp
  | false =>
    have hminus := hother '-' (by decide)
    have hplus := hother '+' (by decide)
    simp only [Bool.false_eq_true, if_false, List.nil_append]
    rw [readInt?]
    · simp only [hspan]
      cases rest <;> simp
    · simp [hminus]
    · simp [hplus]

theorem toList_toString_natCast (n : ℕ) : (toString (n : ℤ)).toList = (natDigits n).map Decimal.digitChar := by
  rw [map_digitChar_natDigits, Int.toString_eq_repr]
  simp [Int.repr]

theorem toList_toString_neg {n : ℕ} (hn : n ≠ 0) :
    (toString (-(n : ℤ))).toList = '-' :: (natDigits n).map Decimal.digitChar := by
  obtain ⟨m, rfl⟩ := Nat.exists_eq_succ_of_ne_zero hn
  rw [map_digitChar_natDigits, Int.toString_eq_repr]
  change (Int.negSucc m).repr.toList = _
  simp [Int.repr]

/-- A sign and digits without superfluous zeros are the text of the integer that they write. -/
theorem toList_toString_digits (negative : Bool) {whole : List ℕ} (hne : whole ≠ [])
    (hwhole : ∀ x ∈ whole, x < 10) (hhead : whole.head? ≠ some 0) :
    (toString (if negative then -(ofDigits whole : ℤ) else ofDigits whole)).toList =
      (if negative then ['-'] else []) ++ whole.map Decimal.digitChar := by
  obtain ⟨d, ds, rfl⟩ := List.exists_cons_of_ne_nil hne
  have hd : d ≠ 0 := by simpa using hhead
  have hdigits := natDigits_ofDigits hwhole hd
  cases negative with
  | true =>
    have hpos : ofDigits (d :: ds) ≠ 0 := by
      intro hzero
      rw [hzero] at hdigits
      obtain rfl : 0 = d := (List.cons.inj hdigits).1
      exact hd rfl
    rw [if_pos rfl, if_pos rfl, toList_toString_neg hpos, hdigits]
    rfl
  | false =>
    rw [if_neg Bool.false_ne_true, if_neg Bool.false_ne_true, toList_toString_natCast, hdigits,
      List.nil_append]

namespace Binary

/-- If the text of a double can be read as an integer, it is the text of that integer, but for the text of
negative zero. -/
theorem toString_of_readInt?_text {x : Binary} (hx : x.BelongsTo .double)
    (hzero : x.text .double .positional ≠ "-0") {n : ℤ}
    (h : readInt? (x.text .double .positional).toList = some n) :
    toString n = x.text .double .positional := by
  cases x with
  | nan =>
    have hnone : readInt? (Binary.nan.text .double .positional).toList = none := by decide
    rw [hnone] at h
    cases h
  | infinite negative =>
    have hnone : readInt? ((Binary.infinite negative).text .double .positional).toList = none := by
      cases negative <;> decide
    rw [hnone] at h
    cases h
  | finite negative m e =>
    have hb : (Binary.finite false m e).BelongsTo .double := hx
    rcases Nat.eq_zero_or_pos m with rfl | hm
    · cases negative with
      | true => exact absurd rfl hzero
      | false =>
        obtain rfl : e = -1074 := hx.2.2.2.resolve_right (by decide)
        obtain rfl : 0 = n := Option.some.inj h
        decide
    obtain ⟨whole, fraction, hlaid, hhead⟩ := exists_laidOut_shortest hb hm
    apply String.toList_injective
    rw [text, String.toList_ofList, Decimal.text_positional, hlaid.text_eq] at h ⊢
    rw [readInt?_digits negative hlaid.ne_nil hlaid.whole_lt (by split <;> simp)] at h
    -- nothing can follow the digits, so there is no fraction
    split at h
    · next hnone =>
      have hfraction : fraction = [] := by simpa using hnone
      subst hfraction
      have hfirst : whole.head? ≠ some 0 := by
        refine hhead.resolve_left fun hone => hlaid.ne_zero ?_
        rw [hone]
        rfl
      obtain rfl := Option.some.inj h
      rw [if_pos rfl, List.append_nil, toList_toString_digits negative hlaid.ne_nil hlaid.whole_lt hfirst]
    · cases h

end Binary

end OperationGraph
