import OperationGraph.Proofs.Number.Nearest
import OperationGraph.Proofs.Schema.Respelling
import OperationGraph.Proofs.Value.Conformance

/-! # Defaults and their literals

The value of a default does not tell a string from the name of an enumeration value. The declared type
does, if it is followed into lists, single items that stand for lists, and fields of input objects. So a
value is had back from the literal that is written for it, and a literal of the form that its type asks for
is written again as it was, but for what does not matter and for numbers that are no doubles
(`Schema.defaults_survive`). -/

namespace OperationGraph

/-! ### Numerals -/

namespace Scan

theorem isDigit_of_mem_map {ds : List ℕ} (h : ∀ d ∈ ds, d < 10) :
    ∀ c ∈ ds.map Decimal.digitChar, c.isDigit = true := by
  intro c hc
  obtain ⟨d, hd, rfl⟩ := List.mem_map.1 hc
  exact isDigit_digitChar (h d hd)

theorem isWhole_digits {whole : List ℕ} (hwhole : ∀ d ∈ whole, d < 10) (hne : whole ≠ [])
    (hlead : whole = [0] ∨ whole.head? ≠ some 0) : isWhole (whole.map Decimal.digitChar) = true := by
  obtain ⟨d, ds, rfl⟩ := List.exists_cons_of_ne_nil hne
  have hall : ((d :: ds).map Decimal.digitChar).all Char.isDigit = true :=
    List.all_eq_true.2 (isDigit_of_mem_map hwhole)
  rw [List.map_cons] at hall ⊢
  rw [isWhole]
  split
  · next hzero =>
    have hd : d = 0 := by
      have hdigit := digit?_digitChar (hwhole d List.mem_cons_self)
      rw [hzero] at hdigit
      exact (Option.some.inj hdigit).symm
    rcases hlead with hone | hhead
    · simp_all
    · simp [hd] at hhead
  · exact hall

theorem isFraction_digits {fraction : List ℕ} (h : ∀ d ∈ fraction, d < 10) :
    isFraction (if fraction = [] then [] else '.' :: fraction.map Decimal.digitChar) = true := by
  split
  · rfl
  · next hne =>
    have hall : (fraction.map Decimal.digitChar).all Char.isDigit = true :=
      List.all_eq_true.2 (isDigit_of_mem_map h)
    simp [isFraction, hne, hall]

theorem readSign_digit (negative : Bool) {c : Char} (hc : c.isDigit = true) (cs : List Char) :
    (readSign {} ((if negative then ['-'] else []) ++ c :: cs)).2.2 = c :: cs := by
  cases negative with
  | true => rfl
  | false =>
    have hminus : c ≠ '-' := by
      rintro rfl
      cases hc
    simp only [Bool.false_eq_true, if_false, List.nil_append]
    rw [readSign]
    simp [hminus]

/-- A sign, digits without superfluous zeros and a fraction are a numeral. -/
theorem isNumeral_digits (negative : Bool) {whole fraction : List ℕ} (hne : whole ≠ [])
    (hwhole : ∀ d ∈ whole, d < 10) (hfraction : ∀ d ∈ fraction, d < 10)
    (hlead : whole = [0] ∨ whole.head? ≠ some 0) :
    isNumeral ((if negative then ['-'] else []) ++ (whole.map Decimal.digitChar ++
      if fraction = [] then [] else '.' :: fraction.map Decimal.digitChar)) = true := by
  set tail := if fraction = [] then [] else '.' :: fraction.map Decimal.digitChar with htail
  have hdigits := isDigit_of_mem_map hwhole
  have hpoint : tail.takeWhile Char.isDigit = [] ∧ tail.dropWhile Char.isDigit = tail := by
    rw [htail]
    split <;> simp
  have hsign : (readSign {} ((if negative then ['-'] else []) ++
      (whole.map Decimal.digitChar ++ tail))).2.2 = whole.map Decimal.digitChar ++ tail := by
    obtain ⟨d, ds, rfl⟩ := List.exists_cons_of_ne_nil hne
    exact readSign_digit negative (hdigits _ List.mem_cons_self) _
  rw [isNumeral, hsign, List.takeWhile_append_of_pos hdigits, List.dropWhile_append_of_pos hdigits,
    hpoint.1, hpoint.2, List.append_nil, isWhole_digits hwhole hne hlead, htail,
    isFraction_digits hfraction]
  rfl

end Scan

/-- The text of an integer is a sign and digits. -/
theorem exists_toList_toString_eq (n : ℤ) :
    ∃ (negative : Bool) (m : ℕ), n = (if negative then -1 else 1) * (m : ℤ) ∧
      (toString n).toList =
        (if negative then ['-'] else []) ++ (natDigits m).map Decimal.digitChar := by
  obtain ⟨m, rfl | rfl⟩ := n.eq_nat_or_neg
  · exact ⟨false, m, by simp, toList_toString_natCast m⟩
  · rcases Nat.eq_zero_or_pos m with rfl | hm
    · exact ⟨false, 0, by simp, by decide⟩
    · exact ⟨true, m, by simp, toList_toString_neg hm.ne'⟩

theorem isNumeral_toString (n : ℤ) : Scan.isNumeral (toString n).toList = true := by
  obtain ⟨negative, m, -, htext⟩ := exists_toList_toString_eq n
  have hlead : natDigits m = [0] ∨ (natDigits m).head? ≠ some 0 := by
    rcases Nat.eq_zero_or_pos m with rfl | hm
    · exact .inl rfl
    · obtain ⟨d, ds, hds, hd⟩ := Binary.head_natDigits hm
      exact .inr (by simpa [hds] using hd)
  have h := Scan.isNumeral_digits negative (natDigits_ne_nil m)
    (fun d hd => lt_ten_of_mem_natDigits hd) (by simp : ∀ d ∈ [], d < 10) hlead
  rw [htext]
  simpa using h

theorem Numeral.value?_toString (n : ℤ) : value? (toString n).toList = some (n : ℚ) := by
  obtain ⟨negative, m, rfl, htext⟩ := exists_toList_toString_eq n
  have h := value?_digits negative (natDigits_ne_nil m)
    (fun d hd => lt_ten_of_mem_natDigits hd) (by simp : ∀ d ∈ [], d < 10)
  rw [htext]
  simpa [ofDigits_natDigits] using h

/-- The text of a finite double is a numeral. -/
theorem Binary.isNumeral_text {negative : Bool} {m : ℕ} {e : ℤ}
    (h : (Binary.finite negative m e).BelongsTo .double) :
    Scan.isNumeral ((Binary.finite negative m e).text .double .positional).toList = true := by
  have hb : (Binary.finite false m e).BelongsTo .double := h
  rw [text, String.toList_ofList]
  rcases Nat.eq_zero_or_pos m with rfl | hm
  · have hzero : shortest .double 0 e = ⟨[0], 1⟩ := rfl
    rw [hzero]
    cases negative <;> decide
  · obtain ⟨whole, fraction, hlaid, hhead⟩ := exists_laidOut_shortest hb hm
    rw [Decimal.text_positional, hlaid.text_eq]
    exact Scan.isNumeral_digits negative hlaid.ne_nil hlaid.whole_lt hlaid.fraction_lt hhead

/-! ### The last pair of a name -/

/-- Of the pairs of a name the last one has this value. -/
def IsLast {α : Type} (ps : List (String × α)) (name : String) (a : α) : Prop :=
  ∃ before after, ps = before ++ (name, a) :: after ∧ name ∉ after.map (·.1)

theorem exists_isLast {α : Type} {ps : List (String × α)} {name : String}
    (h : name ∈ ps.map (·.1)) : ∃ a, IsLast ps name a := by
  induction ps with
  | nil => simp at h
  | cons p rest ih =>
    by_cases hrest : name ∈ rest.map (·.1)
    · obtain ⟨a, before, after, rfl, hafter⟩ := ih hrest
      exact ⟨a, p :: before, after, rfl, hafter⟩
    · obtain rfl : name = p.1 := by simpa [hrest] using h
      exact ⟨p.2, [], rest, rfl, hrest⟩

theorem IsLast.map {α β : Type} {ps : List (String × α)} {name : String} {a : α}
    (h : IsLast ps name a) (f : α → β) : IsLast (ps.map fun p => (p.1, f p.2)) name (f a) := by
  obtain ⟨before, after, rfl, hafter⟩ := h
  refine ⟨before.map fun p => (p.1, f p.2), after.map fun p => (p.1, f p.2), by simp, ?_⟩
  simpa [List.map_map, Function.comp_def] using hafter

theorem IsLast.mem {α : Type} {ps : List (String × α)} {name : String} {a : α}
    (h : IsLast ps name a) : (name, a) ∈ ps := by
  obtain ⟨before, after, rfl, -⟩ := h
  simp

namespace Entries

theorem find?_foldl_put {name : String} {ps : List (String × Value)}
    (h : name ∉ ps.map (·.1)) (es : Entries) :
    (ps.foldl (fun (es : Entries) p => es.put p.1 p.2) es).find? name = es.find? name := by
  induction ps generalizing es with
  | nil => rfl
  | cons p rest ih =>
    simp only [List.map_cons, List.mem_cons, not_or] at h
    rw [List.foldl_cons, ih h.2, find?_put, if_neg (Ne.symm h.1)]

/-- Of repeated names the last counts. -/
theorem find?_ofList {ps : List (String × Value)} {name : String} {v : Value}
    (h : IsLast ps name v) : (ofList ps).find? name = some v := by
  obtain ⟨before, after, rfl, hafter⟩ := h
  rw [ofList, List.foldl_append, List.foldl_cons, find?_foldl_put hafter, find?_put, if_pos rfl]

theorem mem_keys_ofList (ps : List (String × Value)) (name : String) :
    name ∈ (ofList ps).map (·.1) ↔ name ∈ ps.map (·.1) := by
  constructor
  · simp only [List.mem_map]
    rintro ⟨e, he, rfl⟩
    exact ⟨e, mem_of_mem_ofList he, rfl⟩
  · intro h
    obtain ⟨v, hv⟩ := exists_isLast h
    exact List.mem_map_of_mem (mem_of_find? (find?_ofList hv))

end Entries

/-! ### Literals of the form of a type -/

namespace Literal

/-- The number that a numeral denotes. -/
def number? : Literal → Option ℚ
  | .int raw => Numeral.value? raw.toList
  | .float raw => Numeral.value? raw.toList
  | _ => none

/-- A literal has the form that a type asks for, at every depth. A type is made of built-in scalars,
enumerations, input objects, lists and non-null wrappers, of which no two follow each other. A single
item may stand for a list. Whether numbers are in range, enumerations have the value and required fields
are given is not asked. -/
inductive HasForm (s : Schema) : TypeRef → Literal → Prop
  | null (t : TypeRef) (nullable : t.isNonNull = false) : HasForm s t .null
  | nonNull (t : TypeRef) (l : Literal) (once : t.isNonNull = false) (given : l ≠ .null)
      (of : HasForm s t l) : HasForm s (.nonNull t) l
  | list (t : TypeRef) (items : List Literal) (of : ∀ l ∈ items, HasForm s t l) :
      HasForm s (.list t) (.list items)
  | single (t : TypeRef) (l : Literal) (given : l ≠ .null) (one : ∀ items, l ≠ .list items)
      (of : HasForm s t l) : HasForm s (.list t) l
  | int (n raw : String) (scalar : ∀ k ∈ s.namedKind? (.named n), k = .scalar)
      (name : n ∈ ["Int", "Float", "ID"]) (whole : (readInt? raw.toList).isSome = true)
      (denotes : (Literal.int raw).number?.isSome = true) : HasForm s (.named n) (.int raw)
  | float (raw : String) (scalar : ∀ k ∈ s.namedKind? (.named "Float"), k = .scalar)
      (denotes : (Literal.float raw).number?.isSome = true) : HasForm s (.named "Float") (.float raw)
  | string (n v : String) (scalar : ∀ k ∈ s.namedKind? (.named n), k = .scalar)
      (name : n ∈ ["String", "ID"]) : HasForm s (.named n) (.string v)
  | block (n v : String) (scalar : ∀ k ∈ s.namedKind? (.named n), k = .scalar)
      (name : n ∈ ["String", "ID"]) : HasForm s (.named n) (.block v)
  | boolean (b : Bool) (scalar : ∀ k ∈ s.namedKind? (.named "Boolean"), k = .scalar) :
      HasForm s (.named "Boolean") (.boolean b)
  | enum (n v : String) (enum : s.namedKind? (.named n) = some .enum) :
      HasForm s (.named n) (.enum v)
  | object (n : String) (t : NamedType) (fields : List (String × Literal)) (type : s.type? n = some t)
      (input : t.kind = .inputObject) (known : ∀ f ∈ fields, (t.inputField? f.1).isSome = true)
      (of : ∀ k l, (k, l) ∈ fields → ∀ i, t.inputField? k = some i → HasForm s i.type l) :
      HasForm s (.named n) (.object fields)

/-- A numeral without a fraction denotes an integer of sixty-four bits. -/
def denotesWord : Literal → ℚ → Bool
  | .int _, x => x.den = 1 && isWord x.num
  | _, _ => false

/-- What becomes of the number that a numeral denotes: an integer of sixty-four bits is kept, and any other
number goes through the double nearest to it. -/
def rounded (l : Literal) (x : ℚ) : ℚ := if l.denotesWord x then x else Binary.viaDouble x

/-- A literal is written again as another. A number may be spelled in another way and denotes what becomes
of it, a block becomes a string, and of an object the order and the earlier fields of a repeated name do
not matter. Everything else is kept at every depth. -/
inductive RestatedAs (become : Literal → ℚ → ℚ) : Literal → Literal → Prop
  | number (l l' : Literal) (x : ℚ) (denotes : l.number? = some x)
      (again : l'.number? = some (become l x)) (numeral : Scan.isNumeral l'.raw.toList = true) :
      RestatedAs become l l'
  | string (v : String) : RestatedAs become (.string v) (.string v)
  | block (v : String) : RestatedAs become (.block v) (.string v)
  | boolean (b : Bool) : RestatedAs become (.boolean b) (.boolean b)
  | null : RestatedAs become .null .null
  | enum (v : String) : RestatedAs become (.enum v) (.enum v)
  | list (items items' : List Literal) (length : items.length = items'.length)
      (each : ∀ (i : Nat) l l', items[i]? = some l → items'[i]? = some l' → RestatedAs become l l') :
      RestatedAs become (.list items) (.list items')
  | object (fields fields' : List (String × Literal)) (once : (fields'.map (·.1)).Nodup)
      (names : ∀ k, k ∈ fields'.map (·.1) ↔ k ∈ fields.map (·.1))
      (each : ∀ k l l', IsLast fields k l → (k, l') ∈ fields' → RestatedAs become l l') :
      RestatedAs become (.object fields) (.object fields')

/-- The same literal but for the spelling: every number is kept. -/
abbrev RespelledAs : Literal → Literal → Prop := RestatedAs fun _ x => x

/-- A numeral stands in a literal, not in an earlier field of a repeated name. -/
inductive Counts : Literal → Literal → Prop
  | self (l : Literal) : Counts l l
  | item {items : List Literal} {l n : Literal} (mem : l ∈ items) (counts : Counts l n) :
      Counts (.list items) n
  | field {fields : List (String × Literal)} {k : String} {l n : Literal} (last : IsLast fields k l)
      (counts : Counts l n) : Counts (.object fields) n

/-- Every number that counts in a literal satisfies a condition. -/
def EachNumber (P : Literal → ℚ → Prop) (l : Literal) : Prop :=
  ∀ n x, l.Counts n → n.number? = some x → P n x

theorem EachNumber.mono {P Q : Literal → ℚ → Prop} {l : Literal} (h : l.EachNumber P)
    (hPQ : ∀ n x, P n x → Q n x) : l.EachNumber Q := fun n x hn hx => hPQ n x (h n x hn hx)

theorem eachNumber_list {P : Literal → ℚ → Prop} {items : List Literal}
    (h : ∀ l ∈ items, l.EachNumber P) : (Literal.list items).EachNumber P := by
  intro n x hn hx
  cases hn with
  | self => cases hx
  | item mem counts => exact h _ mem n x counts hx

theorem eachNumber_object {P : Literal → ℚ → Prop} {fields : List (String × Literal)}
    (h : ∀ f ∈ fields, f.2.EachNumber P) : (Literal.object fields).EachNumber P := by
  intro n x hn hx
  cases hn with
  | self => cases hx
  | field last counts => exact h _ last.mem n x counts hx

theorem eq_of_counts {l n : Literal} {x : ℚ} (hl : l.number? = some x) (h : l.Counts n) : n = l := by
  cases h with
  | self => rfl
  | item => cases hl
  | field => cases hl

theorem eachNumber_of_number? {P : Literal → ℚ → Prop} {l : Literal} {x : ℚ}
    (hl : l.number? = some x) (h : P l x) : l.EachNumber P := by
  intro n y hn hy
  obtain rfl := eq_of_counts hl hn
  obtain rfl : x = y := Option.some.inj (hl.symm.trans hy)
  exact h

theorem RestatedAs.number?_eq {become : Literal → ℚ → ℚ} {l l' : Literal} {x : ℚ}
    (h : l.RestatedAs become l') (hl : l.number? = some x) : l'.number? = some (become l x) := by
  cases h with
  | number _ _ y denotes again _ =>
    obtain rfl : x = y := Option.some.inj (hl.symm.trans denotes)
    exact again
  | _ => cases hl

section
variable {become other : Literal → ℚ → ℚ} {l l' : Literal}

/-- One literal is written again as another in two ways only if the same becomes of its numbers. -/
theorem RestatedAs.eachNumber_eq (h : l.RestatedAs become l') (hother : l.RestatedAs other l') :
    l.EachNumber fun n x => become n x = other n x := by
  induction h with
  | number l l' x denotes again _ =>
    have hsame := again.symm.trans (hother.number?_eq denotes)
    exact eachNumber_of_number? denotes (Option.some.inj hsame)
  | list items items' length _ ih =>
    cases hother with
    | number _ _ _ denotes _ _ => cases denotes
    | list _ _ _ each =>
      refine eachNumber_list fun l mem => ?_
      obtain ⟨i, hi, rfl⟩ := List.mem_iff_getElem.1 mem
      have hl := List.getElem?_eq_getElem hi
      have hl' := List.getElem?_eq_getElem (length ▸ hi)
      exact ih i _ _ hl hl' (each i _ _ hl hl')
  | object fields fields' _ names _ ih =>
    cases hother with
    | number _ _ _ denotes _ _ => cases denotes
    | object _ _ _ _ each =>
      intro n x hn hx
      cases hn with
      | self => cases hx
      | field last counts =>
        obtain ⟨⟨k, l'⟩, hl', rfl⟩ := List.mem_map.1 ((names _).2 (List.mem_map_of_mem last.mem))
        exact ih _ _ l' last hl' (each _ _ l' last hl') n x counts hx
  | _ =>
    intro n x hn hx
    cases hn
    cases hx

theorem RestatedAs.of_eachNumber (h : l.RestatedAs become l')
    (heach : l.EachNumber fun n x => become n x = other n x) : l.RestatedAs other l' := by
  induction h with
  | number l l' x denotes again numeral =>
    rw [heach l x (.self l) denotes] at again
    exact .number l l' x denotes again numeral
  | string v => exact .string v
  | block v => exact .block v
  | boolean b => exact .boolean b
  | null => exact .null
  | enum v => exact .enum v
  | list items items' length _ ih =>
    refine .list items items' length fun i l l' hl hl' => ih i l l' hl hl' ?_
    exact fun n x hn => heach n x (.item (List.mem_of_getElem? hl) hn)
  | object fields fields' once names _ ih =>
    refine .object fields fields' once names fun k l l' hl hl' => ih k l l' hl hl' ?_
    exact fun n x hn => heach n x (.field hl hn)

/-- A literal that is written again in one way is so in another way if the same becomes of its numbers. -/
theorem restatedAs_iff (h : l.RestatedAs become l') :
    l.RestatedAs other l' ↔ l.EachNumber fun n x => become n x = other n x :=
  ⟨h.eachNumber_eq, h.of_eachNumber⟩

end

/-- What is read from a numeral is an integer or a double. -/
theorem number_of_int (raw : String) :
    (∃ n, intValue raw = .int .plain n) ∨ ∃ x, intValue raw = .float .double x := by
  unfold intValue
  split
  · split
    · exact .inl ⟨_, rfl⟩
    · exact .inr ⟨_, rfl⟩
  · exact .inr ⟨_, rfl⟩

theorem toValue_ne_list {l : Literal} (h : ∀ items, l ≠ .list items) (vs : List Value) :
    l.toValue [] ≠ .list vs := by
  intro hvs
  cases l with
  | int raw => obtain ⟨n, hn⟩ | ⟨x, hx⟩ := number_of_int raw <;> simp_all [toValue]
  | list items => exact h items rfl
  | _ => cases hvs

/-- Null is the value of null only. -/
theorem HasForm.toValue_ne_null {s : Schema} {t : TypeRef} {l : Literal} (h : l.HasForm s t)
    (hne : l ≠ .null) : l.toValue [] ≠ .null := by
  induction h with
  | null t _ => exact absurd rfl hne
  | nonNull t l _ given _ ih => exact ih given
  | single t l given _ _ ih => exact ih given
  | int n raw _ _ _ _ => obtain ⟨n, hn⟩ | ⟨x, hx⟩ := number_of_int raw <;> simp_all [toValue]
  | _ => exact Value.noConfusion

end Literal

namespace Schema

/-- A literal depends on the type by the name in it and, for a list, by the type of the items. -/
theorem literal_congr (s : Schema) (t t' : TypeRef) (hname : t.baseName = t'.baseName) {v : Value}
    (hitem : ∀ items, v = .list items → itemType (nullable t) = itemType (nullable t')) :
    s.literal t v = s.literal t' v := by
  have hkind : s.namedKind? t = s.namedKind? t' := by rw [namedKind?, namedKind?, hname]
  have hentry (k : String) : s.entryType t k = s.entryType t' k := by
    rw [entryType, hname]
    rfl
  cases v with
  | list items => rw [literal, literal, hitem items rfl]
  | object entries => simp only [literal, literalFields_eq, hentry]
  | string text => rw [literal, literal, hkind]
  | int w n => cases w <;> rfl
  | float w x => cases w <;> rfl
  | _ => rfl

/-- A number that goes through a double is written as a numeral of what becomes of it. -/
theorem number?_floatValue (s : Schema) (t : TypeRef) {raw : String} {x : ℚ}
    (h : Numeral.value? raw.toList = some x) (hx : |x| < Binary.doubleBound) :
    (s.literal t (floatValue raw)).number? = some (Binary.viaDouble x) ∧
      Scan.isNumeral (s.literal t (floatValue raw)).raw.toList = true := by
  obtain ⟨negative, m, e, hread, hb, hvalue⟩ := Binary.exists_read?_of_value? h hx
  rw [floatValue, hread, Option.getD_some, literal]
  exact ⟨hvalue, Binary.isNumeral_text hb⟩

theorem restatedAs_int (s : Schema) (t : TypeRef) {raw : String} {x : ℚ}
    (hwhole : (readInt? raw.toList).isSome = true) (h : (Literal.int raw).number? = some x)
    (hx : |x| < Binary.doubleBound) :
    (Literal.int raw).RestatedAs Literal.rounded (s.literal t (intValue raw)) := by
  obtain ⟨n, hn⟩ := Option.isSome_iff_exists.1 hwhole
  obtain rfl : x = n := Numeral.eq_of_readInt? hn h
  simp only [intValue, hn]
  split
  · next hword =>
    refine .number _ _ _ h ?_ (isNumeral_toString n)
    rw [Literal.rounded, if_pos (by simpa [Literal.denotesWord] using hword)]
    exact Numeral.value?_toString n
  · next hword =>
    obtain ⟨hagain, hnumeral⟩ := s.number?_floatValue t h hx
    refine .number _ _ _ h ?_ hnumeral
    rwa [Literal.rounded, if_neg (by simpa [Literal.denotesWord] using hword)]

theorem restatedAs_float (s : Schema) (t : TypeRef) {raw : String} {x : ℚ}
    (h : (Literal.float raw).number? = some x) (hx : |x| < Binary.doubleBound) :
    (Literal.float raw).RestatedAs Literal.rounded (s.literal t (floatValue raw)) := by
  obtain ⟨hagain, hnumeral⟩ := s.number?_floatValue t h hx
  exact .number _ _ _ h hagain hnumeral

theorem nullable_of_isNonNull {t : TypeRef} (h : t.isNonNull = false) : nullable t = t := by
  cases t <;> first | rfl | cases h

/-- The fields of an object are written again, each once, by the types that the input object gives them. -/
theorem restatedAs_literalFields (s : Schema) {n : String} {t : NamedType} (htype : s.type? n = some t)
    {fields : List (String × Literal)} (hknown : ∀ f ∈ fields, (t.inputField? f.1).isSome = true)
    (h : ∀ k l, IsLast fields k l → ∀ i, t.inputField? k = some i →
      l.RestatedAs Literal.rounded (s.literal i.type (l.toValue []))) :
    (Literal.object fields).RestatedAs Literal.rounded
      (.object (s.literalFields (.named n) (Entries.ofList (Literal.toEntries [] fields)))) := by
  rw [Literal.toEntries_eq, literalFields_eq]
  set values := fields.map fun f => (f.1, f.2.toValue [])
  have hkeys : ((Entries.ofList values).map fun e =>
      (e.1, s.literal (s.entryType (.named n) e.1) e.2)).map (·.1) =
        (Entries.ofList values).map (·.1) := by
    rw [List.map_map]
    rfl
  refine .object _ _ ?_ (fun k => ?_) fun k l l' hl hl' => ?_
  · rw [hkeys]
    exact (Entries.ordered_ofList values).nodup_keys
  · rw [hkeys, Entries.mem_keys_ofList, List.map_map]
    rfl
  · obtain ⟨⟨k', v⟩, hv, hpair⟩ := List.mem_map.1 hl'
    obtain ⟨rfl : k' = k, rfl⟩ := Prod.mk.inj hpair
    -- The entry of a name has the value of its last field.
    obtain rfl : l.toValue [] = v := by
      have hfind := (Entries.find?_eq_some_iff (Entries.ordered_ofList values)).2 hv
      exact Option.some.inj ((Entries.find?_ofList (hl.map (Literal.toValue []))).symm.trans hfind)
    obtain ⟨i, hi⟩ := Option.isSome_iff_exists.1 (hknown _ hl.mem)
    have hentry : s.entryType (.named n) k' = i.type := by
      simp [entryType, TypeRef.baseName, htype, hi]
    rw [hentry]
    exact h k' l hl i hi

/-- A literal of the form of a type is written again as it was, with what becomes of its numbers. -/
theorem restatedAs_of_hasForm {s : Schema} {t : TypeRef} {l : Literal} (h : l.HasForm s t)
    (hrange : l.EachNumber fun _ x => |x| < Binary.doubleBound) :
    l.RestatedAs Literal.rounded (s.literal t (l.toValue [])) := by
  have hstring {n : String} (v : String) (hscalar : ∀ k ∈ s.namedKind? (.named n), k = .scalar) :
      s.literal (.named n) (.string v) = .string v := by
    refine if_neg fun henum => ?_
    cases hscalar _ henum
  induction h with
  | null t _ => exact .null
  | nonNull t l once given _ ih =>
    have hitem : itemType (nullable (.nonNull t)) = itemType (nullable t) := by
      rw [nullable_of_isNonNull once]
      rfl
    rw [literal_congr s (.nonNull t) t rfl fun _ _ => hitem]
    exact ih hrange
  | list t items _ ih =>
    rw [Literal.toValue, literal, Literal.toValues_eq, literals_eq]
    refine .list _ _ (by simp) fun i l l' hl hl' => ?_
    obtain rfl : s.literal t (l.toValue []) = l' := by simpa [hl, nullable, itemType] using hl'
    have hmem := List.mem_of_getElem? hl
    exact ih l hmem fun n x hn => hrange n x (.item hmem hn)
  | single t l given one _ ih =>
    rw [literal_congr s (.list t) t rfl fun vs hvs => absurd hvs (Literal.toValue_ne_list one vs)]
    exact ih hrange
  | int n raw _ _ whole denotes =>
    obtain ⟨x, hx⟩ := Option.isSome_iff_exists.1 denotes
    exact s.restatedAs_int _ whole hx (hrange _ x (.self _) hx)
  | float raw _ denotes =>
    obtain ⟨x, hx⟩ := Option.isSome_iff_exists.1 denotes
    exact s.restatedAs_float _ hx (hrange _ x (.self _) hx)
  | string n v scalar _ =>
    rw [Literal.toValue, hstring v scalar]
    exact .string v
  | block n v scalar _ =>
    rw [Literal.toValue, hstring v scalar]
    exact .block v
  | boolean b _ => exact .boolean b
  | enum n v henum =>
    rw [Literal.toValue, literal, if_pos henum]
    exact .enum v
  | object n t fields htype _ hknown _ ih =>
    rw [Literal.toValue, literal]
    exact s.restatedAs_literalFields htype hknown fun k l hl i hi =>
      ih k l hl.mem i hi fun n x hn => hrange n x (.field hl hn)

/-- A value is had back from its literal, whatever the type. A literal of the form of its type, other than
null and without a number beyond all doubles, is written again as it was, with what becomes of its numbers.
So it is the same but for the spelling exactly if every number in it stays what it is. An integer of
sixty-four bits does, and a number of few digits. -/
theorem defaults_survive (s : Schema) (t : TypeRef) :
    (∀ v : Value, v.Written → defaultOf (s.defaultLiteral? t v) = v) ∧
      ∀ l : Literal, l.HasForm s t → l ≠ .null →
        (l.EachNumber fun _ x => |x| < Binary.doubleBound) →
        ∃ l', s.defaultLiteral? t (l.toValue []) = some l' ∧ l.RestatedAs Literal.rounded l' ∧
          (l.RespelledAs l' ↔ l.EachNumber fun n x => n.rounded x = x) ∧
          ((l.EachNumber fun n x => n.denotesWord x = true ∨ Binary.HasFewDigits x) →
            l.RespelledAs l') := by
  refine ⟨fun v hv => defaultOf_of_written s t hv, fun l hl hne hrange => ?_⟩
  have hrestated := restatedAs_of_hasForm hl hrange
  have hrespelled : l.RespelledAs _ ↔ _ := Literal.restatedAs_iff hrestated
  refine ⟨s.literal t (l.toValue []), ?_, hrestated, hrespelled, fun hkept => hrespelled.2 ?_⟩
  · have hnull : (l.toValue []).isNull = false := by
      have hvalue := hl.toValue_ne_null hne
      cases h : l.toValue [] <;> first | rfl | exact absurd h hvalue
    simp [defaultLiteral?, hnull]
  · intro n x hn hx
    rw [Literal.rounded]
    split
    · rfl
    · next hword =>
      exact Binary.viaDouble_of_hasFewDigits ((hkept n x hn hx).resolve_left hword)
        (hrange n x hn hx)

end Schema

/-- An input type with an enumeration, a text, numbers and a list of its own kind. -/
def Pets.choice : NamedType where
  name := "Choice"
  kind := .inputObject
  inputFields :=
    [{ name := "kinds", type := .nonNull (.list (.nonNull (.named "Kind"))) },
     { name := "name", type := .named "String" },
     { name := "not", type := .list (.named "Choice") },
     { name := "weights", type := .list (.named "Float") }]

def Pets.choices : Schema where
  types := [Pets.choice, Pets.kind]

namespace Schema

/-- One choice in place of a list of them. It has one kind in place of a list, and a name twice. One of the
weights is an integer that is no double. -/
def chosen : Literal :=
  .object [("name", .string "Tom"), ("not", .list [.null, .object [("kinds", .list [.enum "DOG"])]]),
    ("name", .block "CAT"), ("kinds", .enum "CAT"),
    ("weights", .list [.float "2.50", .int "9007199254740993", .float "1e-3"])]

theorem number?_weights :
    (Literal.float "2.50").number? = some (5 / 2) ∧
      (Literal.int "9007199254740993").number? = some 9007199254740993 ∧
      (Literal.float "1e-3").number? = some (1 / 1000) := by
  decide +kernel

theorem hasForm_chosen : chosen.HasForm Pets.choices (.list (.named "Choice")) := by
  have hkind (v : String) : (Literal.enum v).HasForm Pets.choices (.nonNull (.named "Kind")) :=
    .nonNull _ _ rfl (by simp) (.enum _ v rfl)
  have hscalar {n : String} (hn : n ∈ ["String", "Float"]) :
      ∀ k ∈ Pets.choices.namedKind? (.named n), k = .scalar := by
    simp only [List.mem_cons, List.not_mem_nil, or_false] at hn
    rcases hn with rfl | rfl <;>
    · intro k hk
      cases hk
  have hinner : (Literal.object [("kinds", .list [.enum "DOG"])]).HasForm Pets.choices
      (.named "Choice") := by
    refine .object "Choice" Pets.choice _ rfl rfl (by decide) fun k l hl i hi => ?_
    obtain ⟨rfl, rfl⟩ := Prod.mk.inj (List.mem_singleton.1 hl)
    cases hi
    refine .nonNull _ _ rfl (by simp) (.list _ _ fun l hl => ?_)
    rw [List.mem_singleton.1 hl]
    exact hkind "DOG"
  obtain ⟨hfirst, hsecond, hthird⟩ := number?_weights
  refine .single _ _ (by simp [chosen]) (by simp [chosen]) ?_
  refine .object "Choice" Pets.choice _ rfl rfl (by decide) fun k l hl i hi => ?_
  simp only [List.mem_cons, Prod.mk.injEq, List.not_mem_nil, or_false] at hl
  rcases hl with ⟨rfl, rfl⟩ | ⟨rfl, rfl⟩ | ⟨rfl, rfl⟩ | ⟨rfl, rfl⟩ | ⟨rfl, rfl⟩ <;> cases hi
  · exact .string _ _ (hscalar (by decide)) (by decide)
  · refine .list _ _ fun l hl => ?_
    simp only [List.mem_cons, List.not_mem_nil, or_false] at hl
    rcases hl with rfl | rfl
    · exact .null _ rfl
    · exact hinner
  · exact .block _ _ (hscalar (by decide)) (by decide)
  · exact .nonNull _ _ rfl (by simp) (.single _ _ (by simp) (by simp) (hkind "CAT"))
  · refine .list _ _ fun l hl => ?_
    simp only [List.mem_cons, List.not_mem_nil, or_false] at hl
    rcases hl with rfl | rfl | rfl
    · exact .float _ (hscalar (by decide)) (by rw [hfirst]; rfl)
    · exact .int _ _ (hscalar (by decide)) (by decide) (by decide) (by rw [hsecond]; rfl)
    · exact .float _ (hscalar (by decide)) (by rw [hthird]; rfl)

theorem eachNumber_chosen :
    chosen.EachNumber fun n x => |x| < Binary.doubleBound ∧
      (n.denotesWord x = true ∨ Binary.HasFewDigits x) := by
  have hplain {P : Literal → ℚ → Prop} {l : Literal} (h : l = .null ∨ (∃ v, l = .string v) ∨
      (∃ v, l = .block v) ∨ ∃ v, l = .enum v) : l.EachNumber P := by
    intro n x hn hx
    rcases h with rfl | ⟨v, rfl⟩ | ⟨v, rfl⟩ | ⟨v, rfl⟩ <;>
    · cases hn
      cases hx
  obtain ⟨hfirst, hsecond, hthird⟩ := number?_weights
  refine Literal.eachNumber_object ?_
  simp only [List.forall_mem_cons, List.not_mem_nil, false_imp_iff, implies_true, and_true]
  refine ⟨hplain (by simp), Literal.eachNumber_list ?_, hplain (by simp), hplain (by simp),
    Literal.eachNumber_list ?_⟩
  · simp only [List.forall_mem_cons, List.not_mem_nil, false_imp_iff, implies_true, and_true]
    refine ⟨hplain (by simp), Literal.eachNumber_object ?_⟩
    simp only [List.forall_mem_cons, List.not_mem_nil, false_imp_iff, implies_true, and_true]
    exact Literal.eachNumber_list (by simpa using hplain (by simp))
  · simp only [List.forall_mem_cons, List.not_mem_nil, false_imp_iff, implies_true, and_true]
    have hsmall : (2 : ℚ) ^ (-1022 : ℤ) ≤ 2 ^ (-10 : ℤ) :=
      zpow_le_zpow_right₀ (by norm_num) (by norm_num)
    refine ⟨Literal.eachNumber_of_number? hfirst ⟨Binary.lt_doubleBound (by norm_num), .inr (.inr ?_)⟩,
      Literal.eachNumber_of_number? hsecond ⟨Binary.lt_doubleBound (by norm_num), .inl (by rfl)⟩,
      Literal.eachNumber_of_number? hthird ⟨Binary.lt_doubleBound (by norm_num), .inr (.inr ?_)⟩⟩
    · exact ⟨hsmall.trans (by norm_num), 25, -1, by decide, by norm_num⟩
    · exact ⟨hsmall.trans (by norm_num), 1, -3, by decide, by norm_num⟩

theorem defaults_survive_chosen :
    chosen.HasForm Pets.choices (.list (.named "Choice")) ∧
      defaultOf (Pets.choices.defaultLiteral? (.list (.named "Choice")) (chosen.toValue [])) =
        chosen.toValue [] ∧
      ∃ l', Pets.choices.defaultLiteral? (.list (.named "Choice")) (chosen.toValue []) = some l' ∧
        chosen.RespelledAs l' := by
  obtain ⟨hvalues, hliterals⟩ := defaults_survive Pets.choices (.list (.named "Choice"))
  obtain ⟨l', hl', -, -, hrespelled⟩ := hliterals chosen hasForm_chosen (by simp [chosen])
    (eachNumber_chosen.mono fun _ _ h => h.1)
  exact ⟨hasForm_chosen, hvalues _ chosen.written_toValue, l', hl',
    hrespelled (eachNumber_chosen.mono fun _ _ h => h.2)⟩

example : Pets.choices.defaultLiteral? (.list (.named "Choice")) (chosen.toValue []) =
    some (.object [("kinds", .enum "CAT"), ("name", .string "CAT"),
      ("not", .list [.null, .object [("kinds", .list [.enum "DOG"])]]),
      ("weights", .list [.float "2.5", .int "9007199254740993", .float "0.001"])]) := by
  rfl

def longIdentifier : Literal := .int "99999999999999999999"

/-- Such an identifier is not kept: it is written again as the double nearest to it. -/
theorem longIdentifier_not_respelled :
    longIdentifier.HasForm Pets.choices (.named "ID") ∧
      Pets.choices.defaultLiteral? (.named "ID") (longIdentifier.toValue []) =
        some (.float "100000000000000000000") ∧
      ¬ longIdentifier.RespelledAs (.float "100000000000000000000") := by
  have hid : (Literal.int "99999999999999999999").number? = some 99999999999999999999 := by
    decide +kernel
  refine ⟨?_, rfl, fun h => ?_⟩
  · refine .int _ _ (fun k hk => ?_) (by decide) (by decide) (by rw [hid]; rfl)
    cases hk
  · exact absurd (h.number?_eq hid) (by decide +kernel)

end Schema

end OperationGraph
