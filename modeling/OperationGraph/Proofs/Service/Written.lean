import OperationGraph.Proofs.Number.Exchange
import OperationGraph.Proofs.Schema.Defaults
import OperationGraph.Proofs.Service.Canonical

/-! # Written variables read back

A value that a client may send is read back from its written form, as long as its texts hold no stray
bytes: these are all written alike. So the written variables of requests tell the variables. -/

namespace OperationGraph

/-! ### Numbers -/

namespace Incoming

theorem isNumberChar_of_isDigit {c : Char} (h : c.isDigit = true) : isNumberChar c = true := by
  simp [isNumberChar, h]

theorem isNumberChar_digits {ds : List ℕ} (h : ∀ d ∈ ds, d < 10) :
    ∀ c ∈ ds.map Decimal.digitChar, isNumberChar c = true := by
  intro c hc
  obtain ⟨d, hd, rfl⟩ := List.mem_map.1 hc
  exact isNumberChar_of_isDigit (isDigit_digitChar (h d hd))

theorem digitChar_ne_point {d : ℕ} (h : d < 10) : Decimal.digitChar d ≠ '.' := by
  have : ∀ d < 10, Decimal.digitChar d ≠ '.' := by decide
  exact this d h

section
variable {whole fraction : List ℕ} {power : List Char}
  (hwhole : ∀ x ∈ whole, x < 10) (hfraction : ∀ x ∈ fraction, x < 10)
  (hpower : power = [] ∨ ∃ x, power = Decimal.powerText x)

include hpower

theorem isNumberChar_power : ∀ c ∈ power, isNumberChar c = true ∧ c ≠ '.' := by
  rcases hpower with rfl | ⟨x, rfl⟩
  · simp
  · intro c hc
    simp only [Decimal.powerText, List.mem_cons] at hc
    rcases hc with rfl | rfl | hc
    · decide
    · split <;> decide
    · obtain ⟨d, hd, rfl⟩ := List.mem_map.1 hc
      have hten := Decimal.lt_ten_of_mem_powerDigits hd
      exact ⟨isNumberChar_of_isDigit (isDigit_digitChar hten), digitChar_ne_point hten⟩

include hwhole hfraction

theorem isNumberChar_numeral : ∀ c ∈ whole.map Decimal.digitChar ++
    ((if fraction = [] then [] else '.' :: fraction.map Decimal.digitChar) ++ power),
    isNumberChar c = true := by
  intro c hc
  rcases List.mem_append.1 hc with hc | hc
  · exact isNumberChar_digits hwhole c hc
  rcases List.mem_append.1 hc with hc | hc
  · split at hc
    · cases hc
    · rcases List.mem_cons.1 hc with rfl | hc
      · decide
      · exact isNumberChar_digits hfraction c hc
  · exact (isNumberChar_power hpower c hc).1

/-- A point is followed by a digit. -/
theorem pointIsFollowed_numeral : pointIsFollowed (whole.map Decimal.digitChar ++
    ((if fraction = [] then [] else '.' :: fraction.map Decimal.digitChar) ++ power)) = true := by
  have hdrop : ∀ cs, (whole.map Decimal.digitChar ++ cs).dropWhile (· ≠ '.') =
      cs.dropWhile (· ≠ '.') := by
    intro cs
    refine List.dropWhile_append_of_pos fun c hc => ?_
    obtain ⟨d, hd, rfl⟩ := List.mem_map.1 hc
    simpa using digitChar_ne_point (hwhole d hd)
  unfold pointIsFollowed
  rw [hdrop]
  cases fraction with
  | nil =>
    have hnone : (power ++ []).dropWhile (· ≠ '.') = [] :=
      List.dropWhile_append_of_pos fun c hc => by simpa using (isNumberChar_power hpower c hc).2
    rw [List.append_nil] at hnone
    rw [if_pos rfl, List.nil_append, hnone]
  | cons d ds => simp [isDigit_digitChar (hfraction d List.mem_cons_self)]

end

/-- What follows a number, if anything does, cannot belong to it. -/
def EndsNumber (rest : List Char) : Prop := ∀ c ∈ rest.head?, isNumberChar c = false

theorem EndsNumber.isDigit {rest : List Char} (h : EndsNumber rest) :
    ∀ c ∈ rest.head?, c.isDigit = false := by
  intro c hc
  by_contra hdigit
  have := isNumberChar_of_isDigit (Bool.eq_true_of_not_eq_false hdigit)
  rw [h c hc] at this
  cases this

theorem takeWhile_numeral {cs rest : List Char} (hcs : ∀ c ∈ cs, isNumberChar c = true)
    (hrest : EndsNumber rest) :
    (cs ++ rest).takeWhile isNumberChar = cs ∧ (cs ++ rest).dropWhile isNumberChar = rest := by
  rw [List.takeWhile_append_of_pos hcs, List.dropWhile_append_of_pos hcs]
  cases rest with
  | nil => simp
  | cons c _ => simp [hrest c rfl]

theorem hasLeadingZero_cons {c : Char} (h : c ≠ '0') (cs : List Char) :
    hasLeadingZero (c :: cs) = false := by
  unfold hasLeadingZero
  split
  · next heq => exact absurd (List.cons.inj heq).1 h
  · rfl

/-- The text of a double is read as the double. -/
theorem magnitude?_exchange {m : ℕ} {e : ℤ} (hb : (Binary.finite false m e).BelongsTo .double)
    (negative : Bool) {rest : List Char} (hrest : EndsNumber rest) :
    magnitude? .double negative ((Binary.shortest .double m e).text .exchange ++ rest) =
      some (.finite negative m e, rest) := by
  have hread := Binary.readUnsigned?_exchange hb negative
  obtain ⟨whole, fraction, power, hnil, hwhole, hfraction, hzero, hpower, htext⟩ :=
    Binary.exists_exchange_eq hb
  rw [htext] at hread ⊢
  have hpoint := pointIsFollowed_numeral hwhole hfraction hpower
  have hchars := isNumberChar_numeral hwhole hfraction hpower
  obtain ⟨htake, hdrop⟩ := takeWhile_numeral hchars hrest
  obtain ⟨d, ds, rfl⟩ := List.exists_cons_of_ne_nil hnil
  have hd : d < 10 := hwhole d List.mem_cons_self
  have hsign : ∀ d < 10, Decimal.digitChar d ≠ '+' ∧ (d ≠ 0 → Decimal.digitChar d ≠ '0') := by decide
  have hleading : hasLeadingZero ((d :: ds).map Decimal.digitChar ++
      ((if fraction = [] then [] else '.' :: fraction.map Decimal.digitChar) ++ power) ++ rest) =
      false := by
    rcases hzero with hzero | hzero
    · -- a zero on its own is followed by no digit
      obtain ⟨rfl, rfl⟩ := List.cons.inj hzero
      have hdigit : Decimal.digitChar 0 = '0' := rfl
      cases fraction with
      | cons _ _ => simp [hasLeadingZero, hdigit]
      | nil =>
        rcases hpower with rfl | ⟨x, rfl⟩
        · cases rest with
          | nil => rfl
          | cons c _ => simp [hasLeadingZero, hdigit, hrest.isDigit c rfl]
        · simp [hasLeadingZero, hdigit, Decimal.powerText]
    · exact hasLeadingZero_cons ((hsign d hd).2 fun h => hzero (by rw [h]; rfl)) _
  simp only [magnitude?, htake, hdrop, hleading, hpoint]
  simp only [List.map_cons, List.cons_append] at hread ⊢
  simp [digitChar_ne_point hd, (hsign d hd).1, hread]

/-! ### Texts -/

theorem hexNumber?_hexDigits (width n : ℕ) :
    Text.hexNumber? (Text.hexDigits width n) = some (n % 16 ^ width) := by
  have hvalue : ∀ d < 16, Text.hexValue? (Text.hexDigit d) = some d := by decide
  induction width generalizing n with
  | zero => simp [Text.hexDigits, Text.hexNumber?, Nat.mod_one]
  | succ width ih =>
    have hih := ih (n / 16)
    rw [Text.hexNumber?] at hih ⊢
    rw [Text.hexDigits, List.foldl_append, hih]
    simp only [List.foldl_cons, List.foldl_nil, Option.bind_some,
      hvalue (n % 16) (Nat.mod_lt n (by decide)), Option.map_some, Option.some.injEq]
    rw [Nat.pow_succ', Nat.mod_mul]
    omega

theorem isSurrogate_toNat (c : Char) : Json.isSurrogate c.toNat = false := by
  have hvalid : c.toNat < 0xD800 ∨ 0xDFFF < c.toNat ∧ c.toNat < 0x110000 := c.valid
  simp only [Json.isSurrogate, Bool.and_eq_false_iff, decide_eq_false_iff_not]
  omega

/-- An escape by code point is read as the character. -/
theorem readText_codeEscape {c : Char} (hc : c.toNat < 16 ^ 4) (escaped : Bool)
    (acc rest : List Char) :
    readText escaped none acc ('\\' :: 'u' :: Text.hexDigits 4 c.toNat ++ rest) =
      readText true none (c :: acc) rest := by
  have hhex := hexNumber?_hexDigits 4 c.toNat
  rw [Nat.mod_eq_of_lt hc] at hhex
  have hcode : Json.ofCode c.toNat = c := by
    rw [Json.ofCode, if_neg (by simp [isSurrogate_toNat]), Char.ofNat_toNat]
  simp only [Text.hexDigits, List.nil_append, List.cons_append] at hhex ⊢
  conv_lhs => unfold readText
  simp [hhex, isSurrogate_toNat, hcode]

theorem exists_readText_escapedChar {c : Char} (hc : Text.strayByte? c = none) (escaped : Bool)
    (acc rest : List Char) :
    ∃ escaped', readText escaped none acc (Json.escapedChar c ++ rest) =
      readText escaped' none (c :: acc) rest := by
  unfold Json.escapedChar
  split
  · next h => exact ⟨true, by subst h; simp [readText, Json.escape?, flush]⟩
  split
  · next h => exact ⟨true, by subst h; simp [readText, Json.escape?, flush]⟩
  split
  · next h => exact ⟨true, by subst h; simp [readText, Json.escape?, flush]⟩
  split
  · next h => exact ⟨true, by subst h; simp [readText, Json.escape?, flush]⟩
  split
  · next h => exact ⟨true, by subst h; simp [readText, Json.escape?, flush]⟩
  split
  · next h =>
    have hlow : c.toNat < 16 ^ 4 := by
      simp only [Bool.or_eq_true, decide_eq_true_eq] at h
      rcases h with ((((h | rfl) | rfl) | rfl) | rfl) | rfl
      · omega
      all_goals decide
    exact ⟨true, readText_codeEscape hlow escaped acc rest⟩
  · next hquote hslash _ _ _ hcontrol =>
    simp only [Bool.or_eq_true, decide_eq_true_eq, not_or] at hcontrol
    refine ⟨escaped, ?_⟩
    simp only [hc, Option.isSome_none, Bool.false_eq_true, if_false, List.singleton_append]
    rw [readText]
    · simp [hslash, hcontrol, flush]
    all_goals simp [hquote, hslash]

end Incoming

def Text.isWhole (s : String) : Bool := s.toList.all fun c => (strayByte? c).isNone

namespace Incoming

theorem readText_flatMap {cs : List Char} (h : ∀ c ∈ cs, Text.strayByte? c = none) (escaped : Bool)
    (acc rest : List Char) :
    readText escaped none acc (cs.flatMap Json.escapedChar ++ '"' :: rest) =
      some (String.ofList (acc.reverse ++ cs), rest) := by
  induction cs generalizing escaped acc with
  | nil => simp [readText, flush]
  | cons c cs ih =>
    obtain ⟨hc, hcs⟩ := List.forall_mem_cons.1 h
    obtain ⟨escaped', hread⟩ := exists_readText_escapedChar hc escaped acc
      (cs.flatMap Json.escapedChar ++ '"' :: rest)
    rw [List.flatMap_cons, List.append_assoc, hread, ih hcs]
    simp

/-- A text is read back from its written form. -/
theorem readText_escaped {s : String} (h : Text.isWhole s = true) (rest : List Char) :
    ∃ cs, (Json.escaped s).toList ++ rest = '"' :: cs ∧ readText false none [] cs = some (s, rest) := by
  have hwhole : ∀ c ∈ s.toList, Text.strayByte? c = none := by
    simpa [Text.isWhole] using h
  refine ⟨s.toList.flatMap Json.escapedChar ++ '"' :: rest, by simp [Json.escaped], ?_⟩
  rw [readText_flatMap hwhole]
  simp

end Incoming

/-! ### Values -/

namespace Value

/-- The values that clients send. -/
inductive Received : Value → Prop
  | null : Received .null
  | boolean (b : Bool) : Received (.boolean b)
  | float (negative : Bool) (m : ℕ) (e : ℤ) (h : (Binary.finite false m e).BelongsTo .double) :
    Received (.float .double (.finite negative m e))
  | string (s : String) : Received (.string s)
  | list (items : List Value) (h : ∀ v ∈ items, Received v) : Received (.list items)
  | object (entries : Entries) (ordered : Ordered Prod.fst entries)
    (h : ∀ e ∈ entries, Received e.2) : Received (.object entries)

mutual

/-- Whether the texts in a value hold no stray bytes. -/
def isWhole : Value → Bool
  | string s => Text.isWhole s
  | list items => areWhole items
  | object entries => entriesAreWhole entries
  | _ => true

/-- Whether the texts in values hold no stray bytes. -/
def areWhole : List Value → Bool
  | [] => true
  | v :: rest => isWhole v && areWhole rest

/-- Whether the names and the texts of entries hold no stray bytes. -/
def entriesAreWhole : List (String × Value) → Bool
  | [] => true
  | (k, v) :: rest => Text.isWhole k && isWhole v && entriesAreWhole rest

end

open Incoming

/-- A value has a written form, from which it is read back with enough steps and room. -/
def ReadsBack (v : Value) : Prop :=
  ∃ j steps, v.toJson? = some j ∧ (∃ c cs, j.compact.toList = c :: cs ∧ c ≠ ']' ∧ Json.isBlank c = false) ∧
    ∀ fuel, steps ≤ fuel → ∀ room, v.depth ≤ room → ∀ rest, EndsNumber rest →
      value? fuel room (j.compact.toList ++ rest) = some (v, rest)

theorem skip_cons {c : Char} (h : Json.isBlank c = false) (cs : List Char) :
    Json.skip (c :: cs) = c :: cs := by
  simp [Json.skip, h]

theorem readsBack_null : ReadsBack .null := by
  refine ⟨.null, 1, rfl, ⟨'n', ['u', 'l', 'l'], by simp [Json.compact], by decide, by decide⟩, ?_⟩
  intro fuel hfuel room _ rest _
  obtain ⟨n, rfl⟩ := Nat.exists_eq_add_of_le' hfuel
  simp [value?, Json.compact, skip_cons (c := 'n') (by decide)]

theorem readsBack_boolean (b : Bool) : ReadsBack (.boolean b) := by
  cases b with
  | true =>
    refine ⟨.bool true, 1, rfl, ⟨'t', ['r', 'u', 'e'], by simp [Json.compact], by decide, by decide⟩, ?_⟩
    intro fuel hfuel room _ rest _
    obtain ⟨n, rfl⟩ := Nat.exists_eq_add_of_le' hfuel
    simp [value?, Json.compact, skip_cons (c := 't') (by decide)]
  | false =>
    refine ⟨.bool false, 1, rfl, ⟨'f', ['a', 'l', 's', 'e'], by simp [Json.compact], by decide,
      by decide⟩, ?_⟩
    intro fuel hfuel room _ rest _
    obtain ⟨n, rfl⟩ := Nat.exists_eq_add_of_le' hfuel
    simp [value?, Json.compact, skip_cons (c := 'f') (by decide)]

theorem readsBack_string {s : String} (h : Text.isWhole s = true) : ReadsBack (.string s) := by
  refine ⟨.string s, 1, rfl, ⟨'"', s.toList.flatMap Json.escapedChar ++ ['"'],
    by simp [Json.compact, Json.escaped], by decide, by decide⟩, ?_⟩
  intro fuel hfuel room _ rest _
  obtain ⟨n, rfl⟩ := Nat.exists_eq_add_of_le' hfuel
  obtain ⟨cs, htext, hread⟩ := readText_escaped h rest
  rw [Json.compact, htext]
  simp [value?, skip_cons (c := '"') (by decide), hread]

theorem value?_number {c : Char} (hc : c = '-' ∨ c.isDigit = true) (fuel room : ℕ) (cs : List Char) :
    value? (fuel + 1) room (c :: cs) =
      (number? (c :: cs)).map fun (x, r) => (.float .double x, r) := by
  have hne (a : Char) (ha : a ≠ '-') (ha' : a.isDigit = false) : c ≠ a := by
    rintro rfl
    rcases hc with rfl | h
    · exact ha rfl
    · rw [ha'] at h
      cases h
  have hblank : Json.isBlank c = false := by
    simp [Json.isBlank, hne ' ' (by decide) (by decide), hne '\t' (by decide) (by decide),
      hne '\n' (by decide) (by decide), hne '\r' (by decide) (by decide)]
  unfold value?
  rw [skip_cons hblank]
  split
  · next h => exact absurd (List.cons.inj h).1 (hne 'n' (by decide) (by decide))
  · next h => exact absurd (List.cons.inj h).1 (hne 't' (by decide) (by decide))
  · next h => exact absurd (List.cons.inj h).1 (hne 'f' (by decide) (by decide))
  · next h => exact absurd (List.cons.inj h).1 (hne '"' (by decide) (by decide))
  · next h => exact absurd (List.cons.inj h).1 (hne '[' (by decide) (by decide))
  · next h => exact absurd (List.cons.inj h).1 (hne '\x7b' (by decide) (by decide))
  · next h =>
    obtain ⟨rfl, rfl⟩ := List.cons.inj h
    rw [if_pos (by simpa using hc)]
  · next h => cases h

theorem readsBack_float (negative : Bool) {m : ℕ} {e : ℤ}
    (h : (Binary.finite false m e).BelongsTo .double) :
    ReadsBack (.float .double (.finite negative m e)) := by
  obtain ⟨whole, fraction, power, hnil, hwhole, -, -, -, htext⟩ := Binary.exists_exchange_eq h
  obtain ⟨d, ds, rfl⟩ := List.exists_cons_of_ne_nil hnil
  have hdigit := isDigit_digitChar (hwhole d List.mem_cons_self)
  obtain ⟨cs, hcs⟩ : ∃ cs, (Binary.shortest .double m e).text .exchange =
      Decimal.digitChar d :: cs := ⟨_, htext⟩
  have hdecide : ∀ d < 10, Decimal.digitChar d ≠ ']' ∧ Decimal.digitChar d ≠ '-' ∧
      Json.isBlank (Decimal.digitChar d) = false := by decide
  obtain ⟨hbracket, hminus, hblank⟩ := hdecide d (hwhole d List.mem_cons_self)
  have hread (rest : List Char) (hrest : EndsNumber rest) := magnitude?_exchange h negative hrest
  rw [hcs] at hread
  cases negative with
  | true =>
    refine ⟨_, 1, rfl, ⟨'-', Decimal.digitChar d :: cs, ?_, by decide, by decide⟩, ?_⟩
    · simp [Json.compact, Binary.text, FloatWidth.format, hcs]
    · intro fuel hfuel room _ rest hrest
      obtain ⟨n, rfl⟩ := Nat.exists_eq_add_of_le' hfuel
      simp only [Json.compact, Binary.text, FloatWidth.format, hcs, if_true, String.toList_ofList,
        List.cons_append, List.nil_append]
      rw [value?_number (.inl rfl), number?, ← List.cons_append, hread rest hrest]
      rfl
  | false =>
    refine ⟨_, 1, rfl, ⟨Decimal.digitChar d, cs, ?_, hbracket, hblank⟩, ?_⟩
    · simp [Json.compact, Binary.text, FloatWidth.format, hcs]
    · intro fuel hfuel room _ rest hrest
      obtain ⟨n, rfl⟩ := Nat.exists_eq_add_of_le' hfuel
      simp only [Json.compact, Binary.text, FloatWidth.format, hcs, Bool.false_eq_true, if_false,
        String.toList_ofList, List.cons_append, List.nil_append]
      rw [value?_number (.inr hdigit), number?, ← List.cons_append, hread rest hrest]
      · rfl
      · intro _ h
        exact hminus (List.cons.inj h).1

/-! ### Lists and objects -/

theorem toList_intercalate_cons (part : String) {parts : List String} (h : parts ≠ []) :
    (",".intercalate (part :: parts)).toList =
      part.toList ++ ',' :: (",".intercalate parts).toList := by
  obtain ⟨q, rest, rfl⟩ := List.exists_cons_of_ne_nil h
  simp [String.toList_intercalate, List.intercalate]

theorem endsNumber_cons {c : Char} (h : isNumberChar c = false) (cs : List Char) :
    EndsNumber (c :: cs) := by
  simp [EndsNumber, h]

section
variable {fuel room : ℕ} {cs others rest : List Char} {v : Value}

theorem items?_last (h : value? fuel room cs = some (v, ']' :: rest)) :
    items? (fuel + 1) room cs = some ([v], rest) := by
  simp [items?, h, skip_cons (c := ']') (by decide)]

theorem items?_more {vs : List Value} (h : value? fuel room cs = some (v, ',' :: others))
    (hothers : items? fuel room others = some (vs, rest)) :
    items? (fuel + 1) room cs = some (v :: vs, rest) := by
  simp [items?, h, skip_cons (c := ',') (by decide), hothers]

theorem members?_last {text : List Char} {k : String} (hk : text? text = some (k, ':' :: cs))
    (h : value? fuel room cs = some (v, '\x7d' :: rest)) :
    members? (fuel + 1) room text = some ([(k, v)], rest) := by
  simp [members?, hk, skip_cons (c := ':') (by decide), h, skip_cons (c := '\x7d') (by decide)]

theorem members?_more {text : List Char} {k : String} {es : List (String × Value)}
    (hk : text? text = some (k, ':' :: cs)) (h : value? fuel room cs = some (v, ',' :: others))
    (hothers : members? fuel room others = some (es, rest)) :
    members? (fuel + 1) room text = some ((k, v) :: es, rest) := by
  simp [members?, hk, skip_cons (c := ':') (by decide), h, skip_cons (c := ',') (by decide), hothers]

end

/-- The items of a list are read back, up to the closing bracket. -/
theorem exists_items? {items : List Value} (hne : items ≠ []) (h : ∀ v ∈ items, v.ReadsBack) :
    ∃ js steps, toItems? items = some js ∧ js ≠ [] ∧
      (∃ c cs, (",".intercalate (Json.compactItems js)).toList = c :: cs ∧ c ≠ ']' ∧
        Json.isBlank c = false) ∧
      ∀ fuel, steps ≤ fuel → ∀ room, itemsDepth items ≤ room → ∀ rest,
        items? fuel room ((",".intercalate (Json.compactItems js)).toList ++ ']' :: rest) =
          some (items, rest) := by
  induction items with
  | nil => exact absurd rfl hne
  | cons v rest ih =>
    obtain ⟨hv, hrest⟩ := List.forall_mem_cons.1 h
    obtain ⟨j, steps, hj, ⟨c, cs, hc, hbracket, hblank⟩, hread⟩ := hv
    by_cases hnil : rest = []
    · subst hnil
      refine ⟨[j], steps + 1, by simp [toItems?, hj], by simp, ⟨c, cs, ?_, hbracket, hblank⟩, ?_⟩
      · simpa [Json.compactItems, String.toList_intercalate, List.intercalate] using hc
      · intro fuel hfuel room hroom more
        obtain ⟨n, rfl⟩ := Nat.exists_eq_add_of_le' (Nat.le_trans (Nat.le_add_left 1 steps) hfuel)
        have hfirst := hread n (by omega) room (Nat.le_trans (Nat.le_max_left _ _) hroom) (']' :: more)
          (endsNumber_cons (by decide) more)
        have htext : (",".intercalate (Json.compactItems [j])).toList = j.compact.toList := by
          simp [Json.compactItems]
        rw [htext]
        exact items?_last hfirst
    · obtain ⟨js, steps', hjs, hjne, -, hreads⟩ := ih hnil hrest
      have hparts : Json.compactItems js ≠ [] := by
        obtain ⟨k, ks, rfl⟩ := List.exists_cons_of_ne_nil hjne
        simp [Json.compactItems]
      have htext := toList_intercalate_cons j.compact hparts
      refine ⟨j :: js, max steps steps' + 1, by simp [toItems?, hj, hjs], by simp,
        ⟨c, cs ++ ',' :: (",".intercalate (Json.compactItems js)).toList, ?_, hbracket, hblank⟩, ?_⟩
      · rw [Json.compactItems, htext, hc, List.cons_append]
      · intro fuel hfuel room hroom more
        obtain ⟨n, rfl⟩ := Nat.exists_eq_add_of_le' (Nat.le_trans (Nat.le_add_left 1 _) hfuel)
        simp only [itemsDepth] at hroom
        have hfirst := hread n (by omega) room (by omega)
          (',' :: ((",".intercalate (Json.compactItems js)).toList ++ ']' :: more))
          (endsNumber_cons (by decide) _)
        have hothers := hreads n (by omega) room (by omega) more
        rw [Json.compactItems, htext, List.append_assoc, List.cons_append]
        exact items?_more hfirst hothers

theorem readsBack_list {items : List Value} (h : ∀ v ∈ items, v.ReadsBack) :
    ReadsBack (.list items) := by
  by_cases hnil : items = []
  · subst hnil
    refine ⟨.array [], 1, rfl, ⟨'[', [']'], ?_, by decide, by decide⟩, ?_⟩
    · simp [Json.compact, Json.compactItems]
    · intro fuel hfuel room hroom rest _
      obtain ⟨n, rfl⟩ := Nat.exists_eq_add_of_le' hfuel
      simp only [depth, itemsDepth] at hroom
      obtain ⟨k, rfl⟩ := Nat.exists_eq_add_of_le' hroom
      simp [Json.compact, Json.compactItems, value?, skip_cons (c := '[') (by decide),
        skip_cons (c := ']') (by decide)]
  · obtain ⟨js, steps, hjs, -, ⟨c, cs, hc, hbracket, hblank⟩, hreads⟩ := exists_items? hnil h
    refine ⟨.array js, steps + 1, by simp [toJson?, hjs],
      ⟨'[', (",".intercalate (Json.compactItems js)).toList ++ [']'], by simp [Json.compact],
        by decide, by decide⟩, ?_⟩
    intro fuel hfuel room hroom rest _
    obtain ⟨n, rfl⟩ := Nat.exists_eq_add_of_le' (Nat.le_trans (Nat.le_add_left 1 steps) hfuel)
    simp only [depth] at hroom
    obtain ⟨k, rfl⟩ := Nat.exists_eq_add_of_le' (Nat.le_trans (Nat.le_add_left 1 _) hroom)
    have hitems := hreads n (by omega) k (by omega) rest
    rw [hc, List.cons_append] at hitems
    simp [Json.compact, value?, skip_cons (c := '[') (by decide), hc, skip_cons hblank, hbracket,
      hitems]

theorem text?_escaped {s : String} (h : Text.isWhole s = true) (rest : List Char) :
    text? ((Json.escaped s).toList ++ rest) = some (s, rest) := by
  obtain ⟨cs, htext, hread⟩ := readText_escaped h rest
  rw [htext, text?, skip_cons (by decide)]
  exact hread

/-- The entries of an object are read back, up to the closing brace. -/
theorem exists_members? {entries : Entries} (hne : entries ≠ [])
    (h : ∀ e ∈ entries, Text.isWhole e.1 = true ∧ e.2.ReadsBack) :
    ∃ ms steps, toMembers? entries = some ms ∧ ms ≠ [] ∧
      (∃ cs, (",".intercalate (Json.compactMembers ms)).toList = '"' :: cs) ∧
      ∀ fuel, steps ≤ fuel → ∀ room, entriesDepth entries ≤ room → ∀ rest,
        members? fuel room ((",".intercalate (Json.compactMembers ms)).toList ++ '\x7d' :: rest) =
          some (entries, rest) := by
  induction entries with
  | nil => exact absurd rfl hne
  | cons e rest ih =>
    obtain ⟨k, v⟩ := e
    obtain ⟨⟨hk, hv⟩, hrest⟩ := List.forall_mem_cons.1 h
    obtain ⟨j, steps, hj, -, hread⟩ := hv
    dsimp only at hk hj hread
    have hpart (more : List Char) : (Json.escaped k ++ ":" ++ j.compact).toList ++ more =
        (Json.escaped k).toList ++ ':' :: (j.compact.toList ++ more) := by simp
    obtain ⟨quoted, hquoted⟩ : ∃ cs, (Json.escaped k).toList = '"' :: cs :=
      ⟨k.toList.flatMap Json.escapedChar ++ ['"'], by simp [Json.escaped]⟩
    have hhead : (Json.escaped k ++ ":" ++ j.compact).toList =
        '"' :: (quoted ++ ':' :: j.compact.toList) := by simp [hquoted]
    by_cases hnil : rest = []
    · subst hnil
      have htext : (",".intercalate (Json.compactMembers [(k, j)])).toList =
          (Json.escaped k ++ ":" ++ j.compact).toList := by
        simp [Json.compactMembers]
      refine ⟨[(k, j)], steps + 1, by simp [toMembers?, hj], by simp, ⟨_, htext.trans hhead⟩, ?_⟩
      · intro fuel hfuel room hroom more
        obtain ⟨n, rfl⟩ := Nat.exists_eq_add_of_le' (Nat.le_trans (Nat.le_add_left 1 steps) hfuel)
        have hvalue := hread n (by omega) room (Nat.le_trans (Nat.le_max_left _ _) hroom)
          ('\x7d' :: more) (endsNumber_cons (by decide) more)
        rw [htext, hpart]
        exact members?_last (text?_escaped hk _) hvalue
    · obtain ⟨ms, steps', hms, hmne, -, hreads⟩ := ih hnil hrest
      have hparts : Json.compactMembers ms ≠ [] := by
        obtain ⟨m, ms, rfl⟩ := List.exists_cons_of_ne_nil hmne
        simp [Json.compactMembers]
      have htext := toList_intercalate_cons (Json.escaped k ++ ":" ++ j.compact) hparts
      refine ⟨(k, j) :: ms, max steps steps' + 1, by simp [toMembers?, hj, hms], by simp,
        ⟨quoted ++ ':' :: j.compact.toList ++ ',' :: (",".intercalate (Json.compactMembers ms)).toList,
          ?_⟩, ?_⟩
      · rw [Json.compactMembers, htext, hhead, List.cons_append]
      · intro fuel hfuel room hroom more
        obtain ⟨n, rfl⟩ := Nat.exists_eq_add_of_le' (Nat.le_trans (Nat.le_add_left 1 _) hfuel)
        simp only [entriesDepth] at hroom
        have hvalue := hread n (by omega) room (by omega)
          (',' :: ((",".intercalate (Json.compactMembers ms)).toList ++ '\x7d' :: more))
          (endsNumber_cons (by decide) _)
        have hothers := hreads n (by omega) room (by omega) more
        rw [Json.compactMembers, htext, List.append_assoc, hpart, List.cons_append]
        exact members?_more (text?_escaped hk _) hvalue hothers

theorem readsBack_object {entries : Entries} (ordered : Ordered Prod.fst entries)
    (h : ∀ e ∈ entries, Text.isWhole e.1 = true ∧ e.2.ReadsBack) : ReadsBack (.object entries) := by
  by_cases hnil : entries = []
  · subst hnil
    refine ⟨.object [], 1, rfl, ⟨'\x7b', ['\x7d'], ?_, by decide, by decide⟩, ?_⟩
    · simp [Json.compact, Json.compactMembers]
    · intro fuel hfuel room hroom rest _
      obtain ⟨n, rfl⟩ := Nat.exists_eq_add_of_le' hfuel
      simp only [depth, entriesDepth] at hroom
      obtain ⟨k, rfl⟩ := Nat.exists_eq_add_of_le' hroom
      simp [Json.compact, Json.compactMembers, value?, skip_cons (c := '\x7b') (by decide),
        skip_cons (c := '\x7d') (by decide)]
  · obtain ⟨ms, steps, hms, -, ⟨cs, hc⟩, hreads⟩ := exists_members? hnil h
    refine ⟨.object ms, steps + 1, by simp [toJson?, hms],
      ⟨'\x7b', (",".intercalate (Json.compactMembers ms)).toList ++ ['\x7d'], by simp [Json.compact],
        by decide, by decide⟩, ?_⟩
    intro fuel hfuel room hroom rest _
    obtain ⟨n, rfl⟩ := Nat.exists_eq_add_of_le' (Nat.le_trans (Nat.le_add_left 1 steps) hfuel)
    simp only [depth] at hroom
    obtain ⟨k, rfl⟩ := Nat.exists_eq_add_of_le' (Nat.le_trans (Nat.le_add_left 1 _) hroom)
    have hmembers := hreads n (by omega) k (by omega) rest
    rw [hc, List.cons_append] at hmembers
    have htext : (Json.compact (.object ms)).toList ++ rest =
        '\x7b' :: '"' :: (cs ++ '\x7d' :: rest) := by
      simp [Json.compact, hc, -String.toList_intercalate]
    rw [htext, value?, skip_cons (by decide)]
    simp [skip_cons (c := '"') (by decide), hmembers, Entries.ofList_of_ordered ordered]

theorem isWhole_of_areWhole {items : List Value} (h : areWhole items = true) :
    ∀ v ∈ items, v.isWhole = true := by
  induction items with
  | nil => simp
  | cons v rest ih =>
    rw [areWhole, Bool.and_eq_true] at h
    exact List.forall_mem_cons.2 ⟨h.1, ih h.2⟩

theorem isWhole_of_entriesAreWhole {entries : Entries} (h : entriesAreWhole entries = true) :
    ∀ e ∈ entries, Text.isWhole e.1 = true ∧ e.2.isWhole = true := by
  induction entries with
  | nil => simp
  | cons e rest ih =>
    rw [entriesAreWhole, Bool.and_eq_true, Bool.and_eq_true] at h
    exact List.forall_mem_cons.2 ⟨h.1, ih h.2⟩

/-- A value that a client may send is read back from its written form. -/
theorem Received.readsBack {v : Value} (h : v.Received) (hwhole : v.isWhole = true) : v.ReadsBack := by
  induction h with
  | null => exact readsBack_null
  | boolean b => exact readsBack_boolean b
  | float negative m e h => exact readsBack_float negative h
  | string s => exact readsBack_string (by simpa [isWhole] using hwhole)
  | list items _ ih =>
    rw [isWhole] at hwhole
    exact readsBack_list fun v hv => ih v hv (isWhole_of_areWhole hwhole v hv)
  | object entries ordered _ ih =>
    rw [isWhole] at hwhole
    refine readsBack_object ordered fun e he => ?_
    obtain ⟨hk, hv⟩ := isWhole_of_entriesAreWhole hwhole e he
    exact ⟨hk, ih e he hv⟩

/-- Values that are written alike are the same. -/
theorem ReadsBack.eq_of_toJson? {v w : Value} (hv : v.ReadsBack) (hw : w.ReadsBack) {j k : Json}
    (hj : v.toJson? = some j) (hk : w.toJson? = some k) (h : j.compact = k.compact) : v = w := by
  obtain ⟨j', steps, hj', -, hreadv⟩ := hv
  obtain ⟨k', steps', hk', -, hreadw⟩ := hw
  obtain rfl : j' = j := Option.some.inj (hj'.symm.trans hj)
  obtain rfl : k' = k := Option.some.inj (hk'.symm.trans hk)
  have hends : EndsNumber [] := by simp [EndsNumber]
  have hfirst := hreadv (max steps steps') (by omega) (max v.depth w.depth) (by omega) [] hends
  have hsecond := hreadw (max steps steps') (by omega) (max v.depth w.depth) (by omega) [] hends
  rw [h, hsecond] at hfirst
  exact (Prod.mk.inj (Option.some.inj hfirst)).1.symm

end Value

/-! ### Requests -/

namespace AnalysisRequest

/-- The variables of requests are told by their written forms. -/
theorem variableValues_eq_of_variablesText_eq {q q' : AnalysisRequest}
    (hq : (Value.object q.variableValues).ReadsBack) (hq' : (Value.object q'.variableValues).ReadsBack)
    (h : q.variablesText = q'.variablesText) : q.variableValues = q'.variableValues := by
  have htext (r : AnalysisRequest) (hr : (Value.object r.variableValues).ReadsBack) :
      ∃ j, (Value.object r.variableValues).toJson? = some j ∧ r.variablesText = j.compact := by
    obtain ⟨j, -, hj, -⟩ := hr
    refine ⟨j, hj, ?_⟩
    rw [variablesText, hj]
    split
    · next hempty =>
      rw [List.isEmpty_iff.1 hempty] at hj
      obtain rfl := Option.some.inj hj
      simp [Json.compact, Json.compactMembers]
    · rfl
  obtain ⟨j, hj, hjtext⟩ := htext q hq
  obtain ⟨k, hk, hktext⟩ := htext q' hq'
  exact Value.object.inj (hq.eq_of_toJson? hq' hj hk (hjtext.symm.trans (h.trans hktext)))

end AnalysisRequest

end OperationGraph
