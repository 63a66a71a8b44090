import OperationGraph.Proofs.Number.Digits
import OperationGraph.Service.Fingerprint

/-! # Canonical texts

NUL characters divide the parts of a canonical text. The variables are written without control
characters, so the last division is found again in every text. A query may bring NUL characters of its
own, and then the text does not tell where the query ends. -/

namespace OperationGraph

/-- Characters none of which is a control character. -/
def Text.Plain (cs : List Char) : Prop := ∀ c ∈ cs, 0x20 ≤ c.toNat

namespace Text

@[simp] theorem plain_nil : Plain [] := by simp [Plain]

@[simp] theorem plain_cons {c : Char} {cs : List Char} :
    Plain (c :: cs) ↔ 0x20 ≤ c.toNat ∧ Plain cs := by simp [Plain]

@[simp] theorem plain_append {as bs : List Char} : Plain (as ++ bs) ↔ Plain as ∧ Plain bs := by
  simp only [Plain, List.mem_append]
  exact ⟨fun h => ⟨fun c hc => h c (.inl hc), fun c hc => h c (.inr hc)⟩,
    fun h c hc => hc.elim (h.1 c) (h.2 c)⟩

theorem Plain.of_subset {as bs : List Char} (h : Plain bs) (hsub : as ⊆ bs) : Plain as :=
  fun c hc => h c (hsub hc)

theorem plain_flatMap {f : Char → List Char} (h : ∀ c, Plain (f c)) (cs : List Char) :
    Plain (cs.flatMap f) := by
  intro c hc
  obtain ⟨d, -, hd⟩ := List.mem_flatMap.1 hc
  exact h d c hd

theorem plain_intercalate (sep : List Char) (hsep : Plain sep) {parts : List (List Char)}
    (h : ∀ p ∈ parts, Plain p) : Plain (sep.intercalate parts) := by
  induction parts with
  | nil => simp [List.intercalate]
  | cons p rest ih =>
    simp only [List.mem_cons, forall_eq_or_imp] at h
    cases rest with
    | nil => simpa [List.intercalate] using h.1
    | cons q rest =>
      have hcons : sep.intercalate (p :: q :: rest) = p ++ (sep ++ sep.intercalate (q :: rest)) := by
        simp [List.intercalate]
      rw [hcons, plain_append, plain_append]
      exact ⟨h.1, hsep, ih h.2⟩

theorem plain_hexDigits (width n : Nat) : Plain (hexDigits width n) := by
  induction width generalizing n with
  | zero => simp [hexDigits]
  | succ width ih =>
    have hdigit : ∀ d < 16, 0x20 ≤ (hexDigit d).toNat := by decide
    simp only [hexDigits, plain_append, plain_cons, plain_nil, and_true]
    exact ⟨ih (n / 16), hdigit (n % 16) (Nat.mod_lt n (by decide))⟩

theorem plain_toDigits (n : Nat) : Plain (Nat.toDigits 10 n) := by
  intro c hc
  have hdigit := Nat.isDigit_of_mem_toDigits (by decide) (by decide) hc
  simp only [Char.isDigit, ge_iff_le, Bool.and_eq_true, decide_eq_true_eq] at hdigit
  have hle : '0'.toNat ≤ c.toNat := hdigit.1
  have hzero : '0'.toNat = 48 := rfl
  omega

end Text

/-! ### Numerals -/

namespace Decimal

theorem plain_digits {d : Decimal} (h : d.IsProper) : Text.Plain (d.digits.map digitChar) := by
  have hdigit : ∀ x < 10, 0x20 ≤ (digitChar x).toNat := by decide
  intro c hc
  obtain ⟨x, hx, rfl⟩ := List.mem_map.1 hc
  exact hdigit x (h x hx)

theorem plain_replicate_zero (n : Nat) : Text.Plain (List.replicate n '0') := by
  intro c hc
  rw [List.eq_of_mem_replicate hc]
  decide

theorem plain_positionalText {d : Decimal} (h : d.IsProper) : Text.Plain d.positionalText := by
  have hds := plain_digits h
  have htake := fun n => hds.of_subset (List.take_subset n _)
  have hdrop := fun n => hds.of_subset (List.drop_subset n _)
  simp only [positionalText]
  (repeat' split) <;> simp [hds, htake, hdrop, plain_replicate_zero]

theorem plain_scientificText {d : Decimal} (h : d.IsProper) : Text.Plain d.scientificText := by
  have hds := plain_digits h
  have hpower := Text.plain_toDigits (d.point - 1).natAbs
  simp only [scientificText, Nat.toString_eq_repr, Nat.toList_repr]
  rw [Text.plain_append, Text.plain_cons, Text.plain_cons]
  refine ⟨?_, by decide, ?_, ?_⟩
  · (repeat' split) <;> simp_all
  · split <;> decide
  · split <;> simp [hpower]

theorem plain_text {d : Decimal} (h : d.IsProper) (layout : NumeralLayout) :
    Text.Plain (d.text layout) := by
  unfold text
  split
  · exact plain_scientificText h
  · exact plain_positionalText h

end Decimal

theorem plain_int (n : Int) : Text.Plain (toString n).toList := by
  rw [Int.toString_eq_repr]
  cases n with
  | ofNat m => simpa [Int.repr] using Text.plain_toDigits m
  | negSucc m => simpa [Int.repr] using Text.plain_toDigits (m + 1)

/-! ### Written values -/

theorem Json.plain_escapedChar (c : Char) : Text.Plain (escapedChar c) := by
  unfold escapedChar
  (repeat' split) <;> simp_all [Text.plain_hexDigits]

theorem Json.plain_escaped (s : String) : Text.Plain (escaped s).toList := by
  simp [escaped, Text.plain_flatMap plain_escapedChar]

namespace Value

mutual

/-- A value is written without control characters. -/
theorem plain_compact {v : Value} {j : Json} (h : v.toJson? = some j) :
    Text.Plain j.compact.toList := by
  match v with
  | .null =>
    obtain rfl := Option.some.inj h
    simp [Json.compact]
  | .boolean b =>
    obtain rfl := Option.some.inj h
    cases b <;> simp [Json.compact]
  | .int _ n =>
    obtain rfl := Option.some.inj h
    exact plain_int n
  | .float w (.finite s m e) =>
    obtain rfl := Option.some.inj h
    have hdigits := Decimal.plain_text (Binary.isProper_shortest w.format m e) .exchange
    cases s <;> simpa [Json.compact, Binary.text] using hdigits
  | .string s =>
    obtain rfl := Option.some.inj h
    exact Json.plain_escaped s
  | .list items =>
    obtain ⟨js, hjs, rfl⟩ := Option.map_eq_some_iff.1 h
    have hparts := Text.plain_intercalate [','] (by simp) (plain_compactItems hjs)
    simpa [Json.compact, String.toList_intercalate] using hparts
  | .object entries =>
    obtain ⟨ms, hms, rfl⟩ := Option.map_eq_some_iff.1 h
    have hparts := Text.plain_intercalate [','] (by simp) (plain_compactMembers hms)
    simpa [Json.compact, String.toList_intercalate] using hparts

theorem plain_compactItems {items : List Value} {js : List Json} (h : toItems? items = some js) :
    ∀ p ∈ (Json.compactItems js).map String.toList, Text.Plain p := by
  match items with
  | [] =>
    obtain rfl := Option.some.inj h
    simp [Json.compactItems]
  | v :: rest =>
    rw [toItems?] at h
    cases hv : v.toJson? with
    | none => simp [hv] at h
    | some j =>
      cases hrest : toItems? rest with
      | none => simp [hv, hrest] at h
      | some js =>
        simp only [hv, hrest] at h
        obtain rfl := Option.some.inj h
        simp only [Json.compactItems, List.map_cons, List.mem_cons, forall_eq_or_imp]
        exact ⟨plain_compact hv, plain_compactItems hrest⟩

theorem plain_compactMembers {entries : List (String × Value)} {ms : List (String × Json)}
    (h : toMembers? entries = some ms) :
    ∀ p ∈ (Json.compactMembers ms).map String.toList, Text.Plain p := by
  match entries with
  | [] =>
    obtain rfl := Option.some.inj h
    simp [Json.compactMembers]
  | (k, v) :: rest =>
    rw [toMembers?] at h
    cases hv : v.toJson? with
    | none => simp [hv] at h
    | some j =>
      cases hrest : toMembers? rest with
      | none => simp [hv, hrest] at h
      | some ms =>
        simp only [hv, hrest] at h
        obtain rfl := Option.some.inj h
        simp only [Json.compactMembers, List.map_cons, List.mem_cons, forall_eq_or_imp]
        refine ⟨?_, plain_compactMembers hrest⟩
        simpa using ⟨Json.plain_escaped k, plain_compact hv⟩

end

end Value

/-! ### Divided texts -/

/-- Two texts that are divided by a character agree in both parts if as many of that character stand
before the division. -/
theorem append_cons_inj_of_count_eq {α : Type} [DecidableEq α] {sep : α} {as bs cs ds : List α}
    (h : as ++ sep :: bs = cs ++ sep :: ds) (hcount : as.count sep = cs.count sep) :
    as = cs ∧ bs = ds := by
  induction as generalizing cs with
  | nil =>
    cases cs with
    | nil => exact ⟨rfl, by simpa using h⟩
    | cons c cs =>
      obtain ⟨rfl, -⟩ := List.cons.inj h
      simp at hcount
  | cons a as ih =>
    cases cs with
    | nil =>
      obtain ⟨rfl, -⟩ := List.cons.inj h
      simp at hcount
    | cons c cs =>
      obtain ⟨rfl, htail⟩ := List.cons.inj h
      obtain ⟨rfl, rfl⟩ := ih htail (by simpa [List.count_cons] using hcount)
      exact ⟨rfl, rfl⟩

namespace AnalysisRequest

theorem plain_variablesText (r : AnalysisRequest) : Text.Plain r.variablesText.toList := by
  unfold variablesText
  split
  · simp
  · split
    · next h => exact Value.plain_compact h
    · simp

theorem count_variablesText (r : AnalysisRequest) : r.variablesText.toList.count '\x00' = 0 := by
  apply List.count_eq_zero_of_not_mem
  intro h
  exact absurd (r.plain_variablesText _ h) (by decide)

theorem toList_canonical (r : AnalysisRequest) :
    r.canonical.toList =
      (r.query.toList ++ '\x00' :: r.operationName.toList) ++ '\x00' :: r.variablesText.toList := by
  simp [canonical]

/-- A canonical text tells the variables, but the query and the name only together. -/
theorem canonical_eq_iff {r r' : AnalysisRequest} :
    r.canonical = r'.canonical ↔
      r.query.toList ++ '\x00' :: r.operationName.toList =
          r'.query.toList ++ '\x00' :: r'.operationName.toList ∧
        r.variablesText = r'.variablesText := by
  rw [← String.toList_inj, toList_canonical, toList_canonical]
  constructor
  · intro h
    have hcount := congrArg (List.count '\x00') h
    simp only [List.count_append, List.count_cons, count_variablesText] at hcount
    obtain ⟨hleft, hright⟩ := append_cons_inj_of_count_eq h (by
      simp only [List.count_append, List.count_cons]
      omega)
    exact ⟨hleft, String.toList_inj.1 hright⟩
  · rintro ⟨hleft, hright⟩
    rw [hleft, hright]

def queryNuls (r : AnalysisRequest) : Nat := r.query.toList.count '\x00'

theorem query_eq_of_canonical_eq {r r' : AnalysisRequest} (h : r.canonical = r'.canonical)
    (hnuls : r.queryNuls = r'.queryNuls) :
    r.query = r'.query ∧ r.operationName = r'.operationName := by
  obtain ⟨hquery, hname⟩ := append_cons_inj_of_count_eq (canonical_eq_iff.1 h).1 hnuls
  exact ⟨String.toList_inj.1 hquery, String.toList_inj.1 hname⟩

/-- Requests with one canonical text have the same written variables. They have the same query and the
same name exactly if NUL characters are as frequent in one query as in the other. -/
theorem canonical_eq_same_iff (r r' : AnalysisRequest) (h : r.canonical = r'.canonical) :
    r.variablesText = r'.variablesText ∧
      ((r.query = r'.query ∧ r.operationName = r'.operationName) ↔ r.queryNuls = r'.queryNuls) := by
  refine ⟨(canonical_eq_iff.1 h).2, ?_, query_eq_of_canonical_eq h⟩
  rintro ⟨hquery, -⟩
  simp only [queryNuls, hquery]

namespace Divided

/-- A query without a NUL character, and a name with one. -/
def inName : AnalysisRequest := { query := "\x7b a \x7d", operationName := "x\x00y" }

/-- The same characters, divided at the other NUL. -/
def inQuery : AnalysisRequest := { query := "\x7b a \x7d\x00x", operationName := "y" }

theorem canonical_inName : inName.canonical = inQuery.canonical := by
  decide

end Divided

theorem canonical_eq_same_iff_divided :
    Divided.inName.canonical = Divided.inQuery.canonical ∧
      Divided.inName.variablesText = Divided.inQuery.variablesText ∧
      ((Divided.inName.query = Divided.inQuery.query ∧
          Divided.inName.operationName = Divided.inQuery.operationName) ↔
        Divided.inName.queryNuls = Divided.inQuery.queryNuls) :=
  ⟨Divided.canonical_inName, canonical_eq_same_iff _ _ Divided.canonical_inName⟩

end AnalysisRequest

/-- The requests that were read; none from what could not be read. -/
def Submission.requests : Except RequestFault Submission → List AnalysisRequest
  | .ok (.single r) => [r]
  | .ok (.batch rs) => rs
  | .error _ => []

/-- Two bodies ask for different queries under different names, and the canonical text is the same. -/
theorem Submission.ofBody_canonical_collision :
    ∃ r ∈ requests (ofBody
        "\x7b\"query\":\"\x7b a \x7d\",\"operationName\":\"x\\u0000y\"\x7d"),
      ∃ r' ∈ requests (ofBody
        "\x7b\"query\":\"\x7b a \x7d\\u0000x\",\"operationName\":\"y\"\x7d"),
        r.canonical = r'.canonical ∧ r.query ≠ r'.query ∧ r.operationName ≠ r'.operationName := by
  decide

end OperationGraph
