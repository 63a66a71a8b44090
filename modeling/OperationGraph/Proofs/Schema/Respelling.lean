import OperationGraph.Proofs.Definition.Recall
import OperationGraph.Proofs.Definition.Spelling
import OperationGraph.Proofs.Number.Whole
import OperationGraph.Proofs.Schema.Defaults

/-! # Defaults written again

A default that was read from the text of a schema may be another value than the one that was written: a
number without a point is an integer, and a name may be a truth value. It is written like that one all the
same (`notationText_literal_reread`), by any schema that knows the same enumerations at the same places, but
for negative zero and for an enumeration value that is called null. -/

namespace OperationGraph

namespace Literal

/-! ### Settled literals -/

mutual

def isSteady : Literal → Bool
  | .float r => r ≠ "-0"
  | .list items => itemsSteady items
  | .object fields => fieldsSteady fields
  | _ => true

def itemsSteady : List Literal → Bool
  | [] => true
  | l :: rest => l.isSteady && itemsSteady rest

def fieldsSteady : List (String × Literal) → Bool
  | [] => true
  | (_, l) :: rest => l.isSteady && fieldsSteady rest

end

theorem itemsSteady_iff {items : List Literal} :
    itemsSteady items = true ↔ ∀ l ∈ items, l.isSteady = true := by
  induction items with
  | nil => simp [itemsSteady]
  | cons l rest ih => simp [itemsSteady, ih]

theorem fieldsSteady_iff {fields : List (String × Literal)} :
    fieldsSteady fields = true ↔ ∀ f ∈ fields, f.2.isSteady = true := by
  induction fields with
  | nil => simp [fieldsSteady]
  | cons f rest ih => simp [fieldsSteady, ih]

def isNullName : Literal → Bool
  | .enum n => n = "null"
  | _ => false

def isSettled (l : Literal) : Bool := l.isSteady && !l.isNullName

/-! ### Values of what is read -/

theorem toValues_eq (items : List Literal) : toValues [] items = items.map (toValue []) := by
  induction items with
  | nil => rfl
  | cons l rest ih => rw [toValues, List.map_cons, ih]

theorem toEntries_eq (fields : List (String × Literal)) :
    toEntries [] fields = fields.map fun f => (f.1, f.2.toValue []) := by
  induction fields with
  | nil => rfl
  | cons f rest ih => rw [toEntries, List.map_cons, ih]

end Literal

/-- The text of an integer is that of an integer token. -/
theorem numeralKind_toString (n : ℤ) : Scan.numeralKind (toString n).toList = .int := by
  have hall (m : ℕ) : (Nat.toDigits 10 m).dropWhile Char.isDigit = [] := by
    rw [← List.append_nil (Nat.toDigits 10 m), List.dropWhile_append_of_pos]
    · rfl
    · exact fun c hc => Nat.isDigit_of_mem_toDigits (by decide) (by decide) hc
  rw [Int.toString_eq_repr]
  cases n with
  | ofNat m =>
    have hchars : (Int.ofNat m).repr.toList = Nat.toDigits 10 m := by simp [Int.repr]
    have hsign : Scan.readSign {} (Nat.toDigits 10 m) = ([], {}, Nat.toDigits 10 m) := by
      rw [Scan.readSign]
      exact toDigits_ne_cons (by decide) m
    rw [hchars, Scan.numeralKind, hsign, hall]
    rfl
  | negSucc m =>
    have hchars : (Int.negSucc m).repr.toList = '-' :: Nat.toDigits 10 (m + 1) := by simp [Int.repr]
    rw [hchars, Scan.numeralKind, Scan.readSign, hall]
    rfl

namespace Schema

theorem literals_eq (s : Schema) (t : TypeRef) (items : List Value) :
    s.literals t items = items.map (s.literal t) := by
  induction items with
  | nil => rfl
  | cons v rest ih => rw [literals, List.map_cons, ih]

theorem literalFields_eq (s : Schema) (t : TypeRef) (entries : Entries) :
    s.literalFields t entries = entries.map fun e => (e.1, s.literal (s.entryType t e.1) e.2) := by
  induction entries with
  | nil => rfl
  | cons e rest ih => rw [literalFields, List.map_cons, ih]

/-! ### Schemas that know the same enumerations -/

/-- References that lead to enumerations in the same places, whatever parts of a value are looked at. -/
structure Matches (s s' : Schema) (R : TypeRef → TypeRef → Prop) : Prop where
  enum : ∀ t t', R t t' → (s'.namedKind? t' = some .enum ↔ s.namedKind? t = some .enum)
  item : ∀ t t', R t t' → R (itemType (nullable t)) (itemType (nullable t'))
  entry : ∀ t t' key, R t t' → R (s.entryType t key) (s'.entryType t' key)

section
variable {s s' : Schema}

/-- An integer is written again as it was. -/
theorem literal_reread_int (s' : Schema) (t' : TypeRef) {n : ℤ} (hn : isWord n = true) :
    s'.literal t' ((Literal.int (toString n)).reread.toValue []) = .int (toString n) := by
  rw [Literal.reread, if_pos (numeralKind_toString n), Literal.toValue, intValue, readInt?_toString]
  simp only [hn, if_true, literal]

/-- A double is written again as it was, as an integer if it has no fraction. -/
theorem notationText_literal_reread_float (s' : Schema) (t' : TypeRef) {x : Binary}
    (hx : x.BelongsTo .double) (hzero : x.text .double .positional ≠ "-0") :
    (s'.literal t' ((Literal.float (x.text .double .positional)).reread.toValue [])).notationText =
      x.text .double .positional := by
  have hfloat : (s'.literal t' (floatValue (x.text .double .positional))).notationText =
      x.text .double .positional := by
    rw [floatValue, Binary.read?_text hx]
    rfl
  rw [Literal.reread]
  split
  · rw [Literal.toValue, intValue]
    split
    · next n hn =>
      split
      · exact Binary.toString_of_readInt?_text hx hzero hn
      · exact hfloat
    · exact hfloat
  · exact hfloat

/-- A text is written again as it was, quoted or as a name. -/
theorem notationText_literal_reread_string {t t' : TypeRef}
    (h : s'.namedKind? t' = some .enum ↔ s.namedKind? t = some .enum) (v : String) :
    (s'.literal t' ((s.literal t (.string v)).reread.toValue [])).notationText =
      (s.literal t (.string v)).notationText := by
  by_cases henum : s.namedKind? t = some .enum
  · rw [literal, if_pos henum, Literal.reread, Literal.ofWord]
    split_ifs with htrue hfalse hnull
    · exact htrue.symm
    · exact hfalse.symm
    · exact hnull.symm
    · rw [Literal.toValue, literal, if_pos (h.2 henum)]
  · rw [literal, if_neg henum, Literal.reread, Literal.toValue, literal, if_neg (mt h.1 henum)]

/-- What is read from the notation of a value is null only if the value is, or is called so. -/
theorem isNull_toValue_reread (s : Schema) (t : TypeRef) {v : Value} (hv : v.Written) (hnull : v.isNull = false)
    (hname : (s.literal t v).isNullName = false) : ((s.literal t v).reread.toValue []).isNull = false := by
  have hint (r : String) : (intValue r).isNull = false := by
    unfold intValue
    split
    · split <;> rfl
    · rfl
  cases hv with
  | null => cases hnull
  | boolean b => rfl
  | int n hn =>
    rw [literal, Literal.reread]
    split
    · exact hint _
    · rfl
  | float x hx =>
    rw [literal, Literal.reread]
    split
    · exact hint _
    · rfl
  | string w =>
    by_cases henum : s.namedKind? t = some .enum
    · have hw : w ≠ "null" := by simpa [literal, henum, Literal.isNullName] using hname
      rw [literal, if_pos henum, Literal.reread, Literal.ofWord, if_neg hw]
      split_ifs <;> rfl
    · rw [literal, if_neg henum]
      rfl
  | list items _ => rfl
  | object entries _ _ => rfl

variable {R : TypeRef → TypeRef → Prop} (hR : s.Matches s' R)
include hR

/-- What is read from the notation of a value is written like the value. -/
theorem Matches.notationText_literal_reread {v : Value} (hv : v.Written) {t t' : TypeRef} (h : R t t')
    (hsteady : (s.literal t v).isSteady = true) :
    (s'.literal t' ((s.literal t v).reread.toValue [])).notationText = (s.literal t v).notationText := by
  induction hv generalizing t t' with
  | null => rfl
  | boolean b => cases b <;> rfl
  | int n hn =>
    rw [literal, literal_reread_int s' t' hn]
  | float x hx =>
    exact notationText_literal_reread_float s' t' hx (by simpa [literal, Literal.isSteady] using hsteady)
  | string v => exact notationText_literal_reread_string (hR.enum t t' h) v
  | list items _ ih =>
    rw [literal, literals_eq] at hsteady ⊢
    rw [Literal.isSteady, Literal.itemsSteady_iff, List.forall_mem_map] at hsteady
    rw [Literal.reread, Literal.rereadItems_eq, Literal.toValue, Literal.toValues_eq, literal, literals_eq,
      Literal.notationText, Literal.notationText, Literal.itemTexts_eq, Literal.itemTexts_eq]
    have htexts := List.map_congr_left fun v hv => ih v hv (hR.item t t' h) (hsteady v hv)
    simp only [List.map_map, Function.comp_def, htexts]
  | object entries ordered _ ih =>
    rw [literal, literalFields_eq] at hsteady ⊢
    rw [Literal.isSteady, Literal.fieldsSteady_iff, List.forall_mem_map] at hsteady
    -- the names stay in order, so no entry is lost
    have hordered : Ordered Prod.fst (entries.map fun e =>
        (e.1, (s.literal (s.entryType t e.1) e.2).reread.toValue [])) := List.pairwise_map.2 ordered
    rw [Literal.reread, Literal.rereadFields_eq, Literal.toValue, Literal.toEntries_eq]
    simp only [List.map_map, Function.comp_def]
    rw [Entries.ofList_of_ordered hordered, literal, literalFields_eq,
      Literal.notationText, Literal.notationText, Literal.fieldTexts_eq, Literal.fieldTexts_eq]
    have htexts := List.map_congr_left fun e he =>
      congrArg (e.1 ++ ":" ++ ·) (ih e he (hR.entry t t' e.1 h) (hsteady e he))
    simp only [List.map_map, Function.comp_def, htexts]

/-- A default that is read is written like the default that it was read from. -/
theorem Matches.spelled_defaultLiteral? {t t' : TypeRef} (h : R t t') {v : Value} (hv : v.Written)
    (hsettled : (s.defaultLiteral? t v).all Literal.isSettled = true) :
    (s'.defaultLiteral? t' (defaultOf ((s.defaultLiteral? t v).map Literal.reread))).map Literal.spelled =
      (s.defaultLiteral? t v).map Literal.spelled := by
  unfold defaultLiteral? at hsettled ⊢
  by_cases hnull : v.isNull = true
  · rw [if_pos hnull]
    rfl
  · rw [if_neg hnull] at hsettled ⊢
    rw [Option.all_some, Literal.isSettled, Bool.and_eq_true, Bool.not_eq_true'] at hsettled
    have htext := hR.notationText_literal_reread hv h hsettled.1
    have hkeeps := isNull_toValue_reread s t hv (Bool.not_eq_true _ ▸ hnull) hsettled.2
    simp only [Option.map_some, defaultOf, Option.getD_some, hkeeps, Bool.false_eq_true, if_false,
      Literal.spelled, htext]

end

end Schema

end OperationGraph
