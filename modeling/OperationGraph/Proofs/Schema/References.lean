import OperationGraph.Schema.TypeRef

/-! # Type references and their written forms

A reference is a name under wrappers, and a non-null wrapper is a part of it. A written type has a mark at
each level instead. Well-formed references and written types are two forms of the same thing: each can be
had from the other, and the text of a reference tells the reference (`TypeRef.converts_without_loss`). -/

namespace OperationGraph

def TypeExpr.unplaced : TypeExpr → TypeExpr
  | named n b _ => .named n b default
  | list e b _ => .list e.unplaced b default

namespace TypeRef

/-- Whether a character may stand in a name within a text of a reference. -/
def isNamePart (c : Char) : Bool := c ≠ '[' && c ≠ ']' && c ≠ '!'

/-- Nothing is left out, names can be told from wrappers, and null is not excluded twice. -/
inductive WellFormed : TypeRef → Prop
  | named (n : String) (nonempty : n ≠ "") (parts : ∀ c ∈ n.toList, isNamePart c = true) :
    WellFormed (.named n)
  | list (t : TypeRef) (of : WellFormed t) : WellFormed (.list t)
  | nonNull (t : TypeRef) (of : WellFormed t) (once : t.isNonNull = false) : WellFormed (.nonNull t)

/-- A reference is a name under wrappers. -/
inductive Wraps (n : String) : TypeRef → Prop
  | named : Wraps n (.named n)
  | list (t : TypeRef) (of : Wraps n t) : Wraps n (.list t)
  | nonNull (t : TypeRef) (of : Wraps n t) : Wraps n (.nonNull t)

/-! ### Written types -/

/-- Below a non-null wrapper the mark is not set yet. -/
theorem ofExpr_markNonNull {e : TypeExpr} (h : (ofExpr e).isNonNull = false) :
    ofExpr (markNonNull e) = nonNull (ofExpr e) := by
  cases e with
  | named n b p => cases b <;> simp_all [ofExpr, markNonNull, isNonNull]
  | list e b p => cases b <;> simp_all [ofExpr, markNonNull, isNonNull]

theorem ofExpr_toExpr {t : TypeRef} (h : t.WellFormed) : ofExpr t.toExpr = t := by
  induction h with
  | named n _ _ => rfl
  | list t _ ih => simp [toExpr, ofExpr, ih]
  | nonNull t _ once ih => rw [toExpr, ofExpr_markNonNull (by rw [ih, once]), ih]

theorem toExpr_ofExpr (e : TypeExpr) : toExpr (ofExpr e) = e.unplaced := by
  induction e with
  | named n b p => cases b <;> rfl
  | list e b p ih => cases b <;> simp [ofExpr, toExpr, markNonNull, TypeExpr.unplaced, ih]

theorem text_ofExpr (e : TypeExpr) : (ofExpr e).text = e.text := by
  induction e with
  | named n b p => cases b <;> simp [ofExpr, text, TypeExpr.text]
  | list e b p ih => cases b <;> simp [ofExpr, text, TypeExpr.text, ih]

/-! ### Texts -/

/-- How many lists are around the name of a reference. -/
def nesting : TypeRef → Nat
  | list t => t.nesting + 1
  | nonNull t => t.nesting
  | _ => 0

theorem nesting_le_length (t : TypeRef) : t.nesting ≤ t.text.toList.length := by
  induction t with
  | absent => simp [nesting]
  | named n => simp [nesting]
  | list t ih =>
    simp [nesting, text]
    omega
  | nonNull t ih =>
    simp [nesting, text]
    omega

/-- What has been read once the mark that may follow is taken in; a second one is not. -/
def marked : TypeRef → List Char → TypeRef × List Char
  | nonNull t, rest => (nonNull t, rest)
  | t, '!' :: rest => (nonNull t, rest)
  | t, rest => (t, rest)

theorem marked_of_ne (t : TypeRef) {rest : List Char} (h : rest.head? ≠ some '!') :
    marked t rest = (t, rest) := by
  unfold marked
  split
  · rfl
  · simp at h
  · rfl

theorem marked_mark {t : TypeRef} (h : t.isNonNull = false) (rest : List Char) :
    marked t ('!' :: rest) = (nonNull t, rest) := by
  cases t with
  | nonNull t => cases h
  | _ => rfl

theorem match_mark {t : TypeRef} (h : t.isNonNull = false) (rest : List Char) :
    (match some (t, rest) with
      | some (t, '!' :: rest) => some (nonNull t, rest)
      | other => other) = some (marked t rest) := by
  by_cases hmark : rest.head? = some '!'
  · obtain ⟨rest, rfl⟩ := List.head?_eq_some_iff.1 hmark
    rw [marked_mark h]
    rfl
  · rw [marked_of_ne t hmark]
    split
    · simp_all
    · rfl

theorem readAt_named (fuel : Nat) {n : String} (hne : n ≠ "")
    (hn : ∀ c ∈ n.toList, isNamePart c = true) {rest : List Char}
    (hrest : ∀ c ∈ rest.head?, isNamePart c = false) :
    readAt (fuel + 1) (n.toList ++ rest) = some (marked (.named n) rest) := by
  have htake : (n.toList ++ rest).takeWhile isNamePart = n.toList := by
    rw [List.takeWhile_append_of_pos hn]
    cases rest with
    | nil => simp
    | cons c cs => simp [hrest c rfl]
  have hdrop : (n.toList ++ rest).dropWhile isNamePart = rest := by
    rw [List.dropWhile_append_of_pos hn]
    cases rest with
    | nil => rfl
    | cons c cs => simp [hrest c rfl]
  have hbracket : ∀ cs, n.toList ++ rest ≠ '[' :: cs := by
    intro cs heq
    obtain ⟨c, cs', hcs⟩ := List.exists_cons_of_ne_nil (by simpa using hne : n.toList ≠ [])
    obtain rfl : c = '[' := by
      rw [hcs] at heq
      exact (List.cons.inj heq).1
    have hpart := hn '[' (by simp [hcs])
    simp [isNamePart] at hpart
  unfold readAt
  split
  · next cs heq => exact absurd heq (hbracket cs)
  · have hmark := match_mark (t := .named n) rfl rest
    change (match some (TypeRef.named (String.ofList ((n.toList ++ rest).takeWhile isNamePart)),
        (n.toList ++ rest).dropWhile isNamePart) with
      | some (t, '!' :: rest) => some (nonNull t, rest)
      | other => other) = _
    rw [htake, hdrop, String.ofList_toList]
    exact hmark

theorem readAt_list (fuel : Nat) {t : TypeRef} {cs rest : List Char}
    (h : readAt fuel cs = some (t, ']' :: rest)) :
    readAt (fuel + 1) ('[' :: cs) = some (marked (.list t) rest) := by
  simp only [readAt, h]
  exact match_mark rfl rest

/-- A reference is read up to a character that cannot continue it. -/
theorem readAt_text {t : TypeRef} (h : t.WellFormed) {fuel : Nat} (hfuel : t.nesting < fuel)
    (rest : List Char) (hrest : ∀ c ∈ rest.head?, isNamePart c = false) :
    readAt fuel (t.text.toList ++ rest) = some (marked t rest) := by
  induction h generalizing fuel rest with
  | named n nonempty parts =>
    obtain ⟨fuel, rfl⟩ := Nat.exists_eq_succ_of_ne_zero (Nat.ne_zero_of_lt hfuel)
    exact readAt_named fuel nonempty parts hrest
  | list t of ih =>
    obtain ⟨fuel, rfl⟩ := Nat.exists_eq_succ_of_ne_zero (Nat.ne_zero_of_lt hfuel)
    have hitem : readAt fuel (t.text.toList ++ ']' :: rest) = some (t, ']' :: rest) := by
      rw [ih (Nat.lt_of_succ_lt_succ hfuel) _ (by simp [isNamePart]), marked_of_ne t (by simp)]
    simpa [text] using readAt_list fuel hitem
  | nonNull t of once ih =>
    -- the mark belongs to what is left to read after the inner reference
    have hinner := ih hfuel ('!' :: rest) (by simp [isNamePart])
    rw [marked_mark once] at hinner
    simpa [text, marked] using hinner

theorem read?_text {t : TypeRef} (h : t.WellFormed) : read? t.text = some t := by
  have hfuel : t.nesting < t.text.length + 1 := by
    rw [← String.length_toList]
    exact Nat.lt_succ_of_le t.nesting_le_length
  have hread := readAt_text h hfuel [] (by simp)
  rw [List.append_nil, marked_of_ne t (by simp)] at hread
  simp [read?, hread]

theorem text_injective {t u : TypeRef} (ht : t.WellFormed) (hu : u.WellFormed)
    (h : t.text = u.text) : t = u := by
  have hread : some t = some u := by rw [← read?_text ht, h, read?_text hu]
  exact Option.some.inj hread

theorem wraps_iff {t : TypeRef} (h : t.WellFormed) (n : String) : t.Wraps n ↔ n = t.baseName := by
  constructor
  · intro hwraps
    induction hwraps with
    | named => rfl
    | list t _ ih => cases h with | list _ of => exact ih of
    | nonNull t _ ih => cases h with | nonNull _ of _ => exact ih of
  · rintro rfl
    induction h with
    | named n _ _ => exact .named
    | list t _ ih => exact .list t ih
    | nonNull t _ _ ih => exact .nonNull t ih

/-- References and written types are two forms of one thing, and the text of a reference tells it. -/
theorem converts_without_loss {t u : TypeRef} (ht : t.WellFormed) (hu : u.WellFormed) (e : TypeExpr) :
    ofExpr t.toExpr = t ∧ toExpr (ofExpr e) = e.unplaced ∧
      (t.text = u.text ↔ t = u) ∧ (ofExpr e).text = e.text ∧
      ∀ n, t.Wraps n ↔ n = t.baseName :=
  ⟨ofExpr_toExpr ht, toExpr_ofExpr e, ⟨text_injective ht hu, congrArg text⟩, text_ofExpr e,
    wraps_iff ht⟩

/-- A list of lists that excludes null at two of its levels, and one that excludes it at another. -/
theorem converts_without_loss_nested :
    let t : TypeRef := .nonNull (.list (.list (.nonNull (.named "Pet"))))
    let u : TypeRef := .list (.nonNull (.list (.named "Pet")))
    let p : Position := { line := 3, column := 7 }
    let e : TypeExpr := .list (.named "Pet" true p) true p
    t.WellFormed ∧ u.WellFormed ∧ t.text = "[[Pet!]]!" ∧ u.text = "[[Pet]!]" ∧
      ofExpr t.toExpr = t ∧ toExpr (ofExpr e) = e.unplaced ∧ (t.text = u.text ↔ t = u) ∧
      (ofExpr e).text = "[Pet!]!" ∧ t.Wraps "Pet" := by
  intro t u p e
  have hname : (TypeRef.named "Pet").WellFormed := .named "Pet" (by simp) (by simp [isNamePart])
  have ht : t.WellFormed := .nonNull _ (.list _ (.list _ (.nonNull _ hname rfl))) rfl
  have hu : u.WellFormed := .list _ (.nonNull _ (.list _ hname) rfl)
  obtain ⟨hrefs, hexprs, htexts, hshown, hwraps⟩ := converts_without_loss ht hu e
  exact ⟨ht, hu, by decide, by decide, hrefs, hexprs, htexts, hshown.trans (by decide),
    (hwraps "Pet").2 rfl⟩

end TypeRef

end OperationGraph
