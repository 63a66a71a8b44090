import OperationGraph.Proofs.Number.Numeral
import OperationGraph.Proofs.Text.Ordered
import OperationGraph.Schema.Build
import OperationGraph.Schema.Render

/-! # Defaults read back

A default comes from a literal, so it is made of plain integers, doubles, texts, truth values, lists
and ordered objects (`Value.Written`). The literal that a schema writes for such a value has that value
again, whether a text is written as a string or as the name of an enumeration value. -/

namespace OperationGraph

/-! ### Entries of pairs -/

theorem putOrdered_of_forall_lt {α : Type} {key : α → String} {a : α} {xs : List α}
    (h : ∀ b ∈ xs, key b < key a) : putOrdered key a xs = xs ++ [a] := by
  induction xs with
  | nil => rfl
  | cons b rest ih =>
    rw [putOrdered, if_pos (h b List.mem_cons_self), ih fun c hc => h c (List.mem_cons_of_mem b hc)]
    rfl

namespace Entries

theorem foldl_put_of_ordered (es ps : Entries) (h : Ordered Prod.fst (es ++ ps)) :
    ps.foldl (fun es p => es.put p.1 p.2) es = es ++ ps := by
  induction ps generalizing es with
  | nil => simp
  | cons p rest ih =>
    have hlast : es.put p.1 p.2 = es ++ [p] := by
      refine putOrdered_of_forall_lt ?_
      intro b hb
      exact (List.pairwise_append.1 h).2.2 b hb p List.mem_cons_self
    rw [List.foldl_cons, hlast, ih _ (by simpa using h), List.append_assoc, List.singleton_append]

theorem ofList_of_ordered {es : Entries} (h : Ordered Prod.fst es) : ofList es = es := by
  simpa [ofList] using foldl_put_of_ordered [] es (by simpa using h)

/-- What every step of putting in pairs keeps. -/
theorem foldl_put_spec (ps : List (String × Value)) {es : Entries} (h : Ordered Prod.fst es) :
    Ordered Prod.fst (ps.foldl (fun (es : Entries) p => es.put p.1 p.2) es) ∧
      ∀ e ∈ ps.foldl (fun (es : Entries) p => es.put p.1 p.2) es, e ∈ ps ∨ e ∈ es := by
  induction ps generalizing es with
  | nil => exact ⟨h, fun e he => .inr he⟩
  | cons p rest ih =>
    have hput : Ordered Prod.fst (es.put p.1 p.2) := ordered_putOrdered (p.1, p.2) h
    obtain ⟨hordered, hmem⟩ := ih hput
    refine ⟨hordered, fun e he => ?_⟩
    rcases hmem e he with hrest | hput
    · exact .inl (List.mem_cons_of_mem p hrest)
    · rcases mem_putOrdered hput with rfl | hes
      · exact .inl List.mem_cons_self
      · exact .inr hes

theorem ordered_ofList (ps : List (String × Value)) : Ordered Prod.fst (ofList ps) :=
  (foldl_put_spec ps Ordered.nil).1

theorem mem_of_mem_ofList {ps : List (String × Value)} {e : String × Value} (h : e ∈ ofList ps) :
    e ∈ ps :=
  ((foldl_put_spec ps Ordered.nil).2 e h).resolve_right List.not_mem_nil

end Entries

/-! ### Values of literals -/

/-- The values that literals without variables have. -/
inductive Value.Written : Value → Prop
  | null : Written .null
  | boolean (b : Bool) : Written (.boolean b)
  | int (n : Int) (h : isWord n = true) : Written (.int .plain n)
  | float (x : Binary) (h : x.BelongsTo .double) : Written (.float .double x)
  | string (s : String) : Written (.string s)
  | list (items : List Value) (h : ∀ v ∈ items, Written v) : Written (.list items)
  | object (entries : Entries) (ordered : Ordered Prod.fst entries)
      (h : ∀ e ∈ entries, Written e.2) : Written (.object entries)

theorem written_floatValue (raw : String) : (floatValue raw).Written := by
  refine .float _ ?_
  cases h : Binary.read? .double raw.toList with
  | none => exact Binary.belongsTo_zero (by decide) false
  | some x => exact Binary.belongsTo_read? h

theorem written_intValue (raw : String) : (intValue raw).Written := by
  unfold intValue
  split
  · split
    · next h => exact .int _ h
    · exact written_floatValue raw
  · exact written_floatValue raw

namespace Literal

mutual

theorem written_toValue : ∀ l : Literal, (l.toValue []).Written
  | .variable _ => .null
  | .int raw => written_intValue raw
  | .float raw => written_floatValue raw
  | .string s => .string s
  | .block s => .string s
  | .boolean b => .boolean b
  | .null => .null
  | .enum n => .string n
  | .list items => .list _ (written_toValues items)
  | .object fields =>
    .object _ (Entries.ordered_ofList _) fun e he =>
      written_toEntries fields e (Entries.mem_of_mem_ofList he)

theorem written_toValues : ∀ items : List Literal, ∀ v ∈ toValues [] items, v.Written
  | [], _, hv => absurd hv List.not_mem_nil
  | l :: rest, v, hv => by
    rcases List.mem_cons.1 hv with rfl | hv
    · exact written_toValue l
    · exact written_toValues rest v hv

theorem written_toEntries :
    ∀ fields : List (String × Literal), ∀ e ∈ toEntries [] fields, e.2.Written
  | [], _, he => absurd he List.not_mem_nil
  | (k, l) :: rest, e, he => by
    rcases List.mem_cons.1 he with rfl | he
    · exact written_toValue l
    · exact written_toEntries rest e he

end

end Literal

namespace Schema

theorem toValues_literals {s : Schema} {items : List Value}
    (h : ∀ v ∈ items, ∀ t, (s.literal t v).toValue [] = v) (t : TypeRef) :
    Literal.toValues [] (s.literals t items) = items := by
  induction items with
  | nil => rfl
  | cons v rest ih =>
    rw [literals, Literal.toValues, h v List.mem_cons_self,
      ih fun w hw => h w (List.mem_cons_of_mem v hw)]

theorem toEntries_literalFields {s : Schema} {entries : Entries}
    (h : ∀ e ∈ entries, ∀ t, (s.literal t e.2).toValue [] = e.2) (t : TypeRef) :
    Literal.toEntries [] (s.literalFields t entries) = entries := by
  induction entries with
  | nil => rfl
  | cons e rest ih =>
    obtain ⟨k, v⟩ := e
    rw [literalFields, Literal.toEntries, h (k, v) List.mem_cons_self,
      ih fun w hw => h w (List.mem_cons_of_mem _ hw)]

/-- The literal that a schema writes for a value has the value. -/
theorem toValue_literal (s : Schema) {v : Value} (h : v.Written) (t : TypeRef) :
    (s.literal t v).toValue [] = v := by
  induction h generalizing t with
  | null => rfl
  | boolean b => rfl
  | int n hn =>
    rw [literal, Literal.toValue, intValue, readInt?_toString]
    exact if_pos hn
  | float x hx => simp [literal, Literal.toValue, floatValue, Binary.read?_text hx]
  | string text =>
    rw [literal]
    split <;> rfl
  | list items _ ih => rw [literal, Literal.toValue, toValues_literals ih]
  | object entries ordered _ ih =>
    rw [literal, Literal.toValue, toEntries_literalFields ih, Entries.ofList_of_ordered ordered]

theorem defaultOf_of_written (s : Schema) (t : TypeRef) {v : Value} (h : v.Written) :
    defaultOf (s.defaultLiteral? t v) = v := by
  rw [defaultLiteral?]
  split
  · next hnull => cases v <;> first | rfl | cases hnull
  · exact s.toValue_literal h t

/-- A default is read back from the literal that writes it. -/
theorem defaultOf_defaultLiteral? (s : Schema) (t : TypeRef) (l : Option Literal) :
    defaultOf (s.defaultLiteral? t (defaultOf l)) = defaultOf l := by
  refine defaultOf_of_written s t ?_
  cases l with
  | none => exact .null
  | some l => exact l.written_toValue

end Schema

end OperationGraph
