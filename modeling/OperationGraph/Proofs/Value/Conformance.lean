import OperationGraph.Proofs.Text.Ordered
import OperationGraph.Schema.Builtin
import OperationGraph.Value.Coerce

/-! # Coerced values conform to their types

`Conforms s t v` says what a value of a type looks like at every depth. A value that coercion gives
conforms to the type it was coerced to, and a value that conforms is left as it is, whatever was
wrapped into lists or filled in from defaults before. -/

namespace OperationGraph

/-! ### Entries -/

namespace Entries

theorem find?_put (es : Entries) (name : String) (v : Value) (k : String) :
    (es.put name v).find? k = if name = k then some v else es.find? k := by
  rw [find?, put, find?_putOrdered]
  split <;> rfl

def put? (es : Entries) (name : String) (v? : Option Value) : Entries := v?.elim es (es.put name)

theorem find?_put? (es : Entries) (name : String) (v? : Option Value) (k : String) :
    (es.put? name v?).find? k = if name = k then v?.or (es.find? k) else es.find? k := by
  cases v? with
  | none => simp [put?]
  | some v => simp [put?, find?_put]

theorem ordered_put? {es : Entries} (h : Ordered Prod.fst es) (name : String)
    (v? : Option Value) : Ordered Prod.fst (es.put? name v?) := by
  cases v? with
  | none => exact h
  | some v => exact ordered_putOrdered (name, v) h

theorem find?_eq_some_iff {es : Entries} (h : Ordered Prod.fst es) {k : String} {v : Value} :
    es.find? k = some v ↔ (k, v) ∈ es := by
  rw [mem_iff_find?_key h.nodup_keys, find?, Option.map_eq_some_iff]
  constructor
  · rintro ⟨⟨k', v'⟩, hfind, rfl⟩
    obtain rfl : k' = k := by simpa using List.find?_some hfind
    exact hfind
  · intro hfind
    exact ⟨(k, v), hfind, rfl⟩

theorem mem_of_find? {es : Entries} {k : String} {v : Value} (h : es.find? k = some v) :
    (k, v) ∈ es := by
  obtain ⟨⟨k', v'⟩, hfind, rfl⟩ := Option.map_eq_some_iff.1 h
  obtain rfl : k' = k := by simpa using List.find?_some hfind
  exact List.mem_of_find?_eq_some hfind

/-- Ordered entries are determined by the value of each name. -/
theorem ext_find? {xs ys : Entries} (hx : Ordered Prod.fst xs) (hy : Ordered Prod.fst ys)
    (h : ∀ k, xs.find? k = ys.find? k) : xs = ys := by
  refine hx.ext hy ?_
  rintro ⟨k, v⟩
  rw [← find?_eq_some_iff hx, ← find?_eq_some_iff hy, h]

end Entries

namespace Value

theorem depth_le_itemsDepth {v : Value} {items : List Value} (h : v ∈ items) :
    v.depth ≤ itemsDepth items := by
  induction items with
  | nil => cases h
  | cons w rest ih =>
    rw [itemsDepth]
    rcases List.mem_cons.1 h with rfl | h
    · omega
    · have := ih h
      omega

theorem depth_le_entriesDepth {k : String} {v : Value} {entries : Entries}
    (h : (k, v) ∈ entries) : v.depth ≤ entriesDepth entries := by
  induction entries with
  | nil => cases h
  | cons e rest ih =>
    obtain ⟨k', w⟩ := e
    rw [entriesDepth]
    rcases List.mem_cons.1 h with heq | h
    · cases heq
      omega
    · have := ih h
      omega

/-! ### Raw and conforming values -/

/-- A raw value whose numbers of thirty-two bits are in their range and that holds no number of
single precision. -/
inductive Sized : Value → Prop
  | null : Sized .null
  | boolean (b : Bool) : Sized (.boolean b)
  | int (w : IntWidth) (n : Int) (h : w = .bits32 → inIntRange n = true) : Sized (.int w n)
  | double (x : Binary) : Sized (.float .double x)
  | string (s : String) : Sized (.string s)
  | list (items : List Value) (h : ∀ v ∈ items, Sized v) : Sized (.list items)
  | object (entries : Entries) (h : ∀ e ∈ entries, Sized e.2) : Sized (.object entries)
  | moment (m : Moment) : Sized (.moment m)
  | mapping (entries : List (Value × Value)) (hkeys : ∀ e ∈ entries, Sized e.1)
      (hvalues : ∀ e ∈ entries, Sized e.2) : Sized (.mapping entries)

/-- What a value of a type looks like at every depth. -/
inductive Conforms (s : Schema) : TypeRef → Value → Prop
  | null (t : TypeRef) (nullable : t.isNonNull = false) : Conforms s t .null
  | nonNull (t : TypeRef) (v : Value) (notNull : v.isNull = false) (inner : Conforms s t v) :
      Conforms s (.nonNull t) v
  | list (t : TypeRef) (items : List Value) (each : ∀ v ∈ items, Conforms s t v) :
      Conforms s (.list t) (.list items)
  | int (n : Int) (low : minInt ≤ n) (high : n ≤ maxInt) :
      Conforms s (.named "Int") (.int .plain n)
  | float (x : Binary) : Conforms s (.named "Float") (.float .double x)
  | string (text : String) : Conforms s (.named "String") (.string text)
  | boolean (b : Bool) : Conforms s (.named "Boolean") (.boolean b)
  | id (text : String) : Conforms s (.named "ID") (.string text)
  | enum (name : String) (t : NamedType) (declaration : EnumValue)
      (own : builtinScalar? name = none) (found : s.type? name = some t) (kind : t.kind = .enum)
      (declared : declaration ∈ t.enumValues) : Conforms s (.named name) (.string declaration.name)
  | scalar (name : String) (t : NamedType) (v : Value)
      (own : builtinScalar? name = none) (found : s.type? name = some t)
      (kind : t.kind = .scalar) : Conforms s (.named name) v
  | inputObject (name : String) (t : NamedType) (entries : Entries)
      (own : builtinScalar? name = none) (found : s.type? name = some t)
      (kind : t.kind = .inputObject)
      (ordered : Ordered Prod.fst entries)
      (declared : ∀ e ∈ entries, ∃ f ∈ t.inputFields, f.name = e.1)
      (each : ∀ f ∈ t.inputFields, ∀ v, Entries.find? entries f.name = some v →
        Conforms s f.type v)
      (present : ∀ f ∈ t.inputFields, f.type.isNonNull = true ∨ f.default.isNull = false →
        (Entries.find? entries f.name).isSome)
      (single : t.oneOf = true → entries.length = 1) : Conforms s (.named name) (.object entries)

end Value

/-- Input fields of a type have distinct names, and defaults conform to the types of their fields. -/
structure Schema.DefaultsConform (s : Schema) : Prop where
  distinct : ∀ t ∈ s.types, (t.inputFields.map (·.name)).Nodup
  conforms : ∀ t ∈ s.types, ∀ f ∈ t.inputFields, f.default.isNull = false →
    f.default.Conforms s f.type

theorem Schema.mem_of_type? {s : Schema} {name : String} {t : NamedType}
    (h : s.type? name = some t) : t ∈ s.types := by
  rw [Schema.type?] at h
  split at h
  · cases h
  · exact List.mem_of_find?_eq_some h

namespace Value

/-! ### Built-in scalars -/

theorem builtinCoercion?_eq_none_iff (name : String) :
    builtinCoercion? name = none ↔ builtinScalar? name = none := by
  simp only [builtinCoercion?, builtinScalar?, builtinScalars, scalarType, List.find?_eq_none]
  split <;> simp_all
  grind

theorem magnitude_den_pos (m : Nat) (e : Int) : 0 < (Binary.magnitude m e).2 := by
  rw [Binary.magnitude, scaleRatio]
  split
  · exact Nat.one_pos
  · rw [Nat.one_mul]
    exact Nat.pow_pos (by decide)

/-- The integral part of an integral number lies in every range that the number lies in. -/
theorem truncate_mem_of_inRange {negative : Bool} {m : Nat} {e lo hi : Int}
    (hint : (Binary.finite negative m e).isIntegral = true)
    (hrange : (Binary.finite negative m e).inRange lo hi = true) :
    lo ≤ Binary.truncate negative m e ∧ Binary.truncate negative m e ≤ hi := by
  have hpos := magnitude_den_pos m e
  rcases hr : Binary.magnitude m e with ⟨n, d⟩
  simp only [Binary.isIntegral, hr, decide_eq_true_eq] at hint
  simp only [Binary.inRange, hr, Bool.and_eq_true, decide_eq_true_eq] at hrange
  simp only [hr] at hpos
  simp only [Binary.truncate, hr]
  obtain ⟨q, rfl⟩ := Nat.dvd_of_mod_eq_zero hint
  rw [Nat.mul_div_cancel_left q hpos]
  have hd : (0 : Int) < d := Int.natCast_pos.2 hpos
  -- the signed numerator is the denominator times the signed quotient
  have hcancel : ∀ k : Int, lo * d ≤ d * k ∧ d * k ≤ hi * d → lo ≤ k ∧ k ≤ hi := by
    rintro k ⟨hlow, hhigh⟩
    rw [Int.mul_comm] at hlow
    rw [Int.mul_comm hi] at hhigh
    exact ⟨Int.le_of_mul_le_mul_left hlow hd, Int.le_of_mul_le_mul_left hhigh hd⟩
  cases negative with
  | true =>
    simp only [if_true, Int.natCast_mul, ← Int.mul_neg] at hrange ⊢
    exact hcancel _ hrange
  | false =>
    simp only [Bool.false_eq_true, if_false, Int.natCast_mul] at hrange ⊢
    exact hcancel _ hrange

theorem toWord_mem_of_inRange {x : Binary} (hint : x.isIntegral = true)
    (hrange : x.inRange minInt maxInt = true) : minInt ≤ x.toWord ∧ x.toWord ≤ maxInt := by
  cases x with
  | nan => cases hint
  | infinite _ => cases hrange
  | finite negative m e =>
    have hmem := truncate_mem_of_inRange hint hrange
    have hword : (Binary.finite negative m e).toWord = Binary.truncate negative m e := by
      refine if_pos ?_
      simp only [minInt, maxInt, Binary.minWord] at hmem ⊢
      omega
    rw [hword]
    exact hmem

theorem conforms_of_coerceInt {s : Schema} {v w : Value} (hv : v.Sized)
    (h : coerceInt v = .ok w) : w.Conforms s (.named "Int") := by
  have hrange : ∀ n : Int, inIntRange n = true → Conforms s (.named "Int") (.int .plain n) := by
    intro n hn
    simp only [inIntRange, Bool.and_eq_true, decide_eq_true_eq] at hn
    exact .int n hn.1 hn.2
  unfold coerceInt at h
  split at h
  · next n =>
    cases h
    cases hv with
    | int _ _ hsized => exact hrange n (hsized rfl)
  · cases h
  · next w' n _ _ =>
    split at h
    · next hn =>
      cases h
      exact hrange n hn
    · cases h
  · next x =>
    split at h
    · next hx =>
      cases h
      rw [Bool.and_eq_true] at hx
      obtain ⟨hlow, hhigh⟩ := toWord_mem_of_inRange hx.1 hx.2
      exact .int _ hlow hhigh
    · cases h
  · cases hv
  · cases h

theorem conforms_of_coerceID {s : Schema} {v w : Value} (h : coerceID v = .ok w) :
    w.Conforms s (.named "ID") := by
  unfold coerceID at h
  split at h
  · cases h
    exact .id _
  · cases h
  · cases h
    exact .id _
  · split at h
    · cases h
      exact .id _
    · cases h
  · cases h

theorem conforms_of_coerceFloat {s : Schema} {v w : Value} (h : coerceFloat v = .ok w) :
    w.Conforms s (.named "Float") := by
  unfold coerceFloat at h
  split at h <;> cases h <;> exact .float _

theorem conforms_of_builtinCoercion {s : Schema} {name : String} {coerce : Value → Coerced}
    {v w : Value} (hc : builtinCoercion? name = some coerce) (hv : v.Sized)
    (h : coerce v = .ok w) : w.Conforms s (.named name) := by
  unfold builtinCoercion? at hc
  split at hc
  · next hn =>
    cases hc
    exact hn ▸ conforms_of_coerceInt hv h
  split at hc
  · next hn =>
    cases hc
    exact hn ▸ conforms_of_coerceFloat h
  split at hc
  · next hn =>
    cases hc
    unfold coerceString at h
    split at h <;> cases h
    exact hn ▸ .string _
  split at hc
  · next hn =>
    cases hc
    unfold coerceBoolean at h
    split at h <;> cases h
    exact hn ▸ .boolean _
  split at hc
  · next hn =>
    cases hc
    exact hn ▸ conforms_of_coerceID h
  · cases hc

/-! ### Named types -/

/-- The ways in which a value is brought into the form of a named type. -/
theorem coerceNamed_eq_ok_iff (s : Schema) (fuel : Nat) (name : String) (v w : Value) :
    coerceNamed s fuel name v = .ok w ↔
      (∃ coerce, builtinCoercion? name = some coerce ∧ coerce v = .ok w) ∨
      builtinCoercion? name = none ∧ ∃ t, s.type? name = some t ∧
        (t.kind = .enum ∧ coerceEnum t v = .ok w ∨ t.kind = .scalar ∧ v = w ∨
          t.kind = .inputObject ∧ ∃ less, fuel = less + 1 ∧
            coerceInputObject (coerceRef (coerceNamed s less)) t v = .ok w) := by
  unfold coerceNamed
  cases builtinCoercion? name with
  | some coerce => simp
  | none =>
    cases s.type? name with
    | none => simp
    | some t =>
      cases fuel <;> cases hk : t.kind <;> simp [hk]

theorem isNull_of_builtinCoercion {name : String} {coerce : Value → Coerced} {v w : Value}
    (hc : builtinCoercion? name = some coerce) (h : coerce v = .ok w) : w.isNull = false := by
  unfold builtinCoercion? at hc
  split at hc
  · cases hc
    unfold coerceInt at h
    grind [isNull]
  split at hc
  · cases hc
    unfold coerceFloat at h
    grind [isNull]
  split at hc
  · cases hc
    unfold coerceString at h
    grind [isNull]
  split at hc
  · cases hc
    unfold coerceBoolean at h
    grind [isNull]
  split at hc
  · cases hc
    unfold coerceID at h
    grind [isNull]
  · cases hc

/-- Coercing a value that is not null to a named type gives one that is not null. -/
theorem isNull_of_coerceNamed {s : Schema} {fuel : Nat} {name : String} {v w : Value}
    (hv : v.isNull = false) (h : coerceNamed s fuel name v = .ok w) : w.isNull = false := by
  rcases (coerceNamed_eq_ok_iff s fuel name v w).1 h with
    ⟨coerce, hc, hw⟩ | ⟨-, t, -, ⟨-, hw⟩ | ⟨-, rfl⟩ | ⟨-, less, -, hw⟩⟩
  · exact isNull_of_builtinCoercion hc hw
  · unfold coerceEnum at hw
    grind [isNull]
  · exact hv
  · unfold coerceInputObject at hw
    grind [isNull]

/-! ### References -/

theorem isNull_of_coerceRef {s : Schema} {fuel : Nat} {t : TypeRef} {v w : Value}
    (hv : v.isNull = false) (h : coerceRef (coerceNamed s fuel) t v = .ok w) :
    w.isNull = false := by
  induction t generalizing v w with
  | absent =>
    simp only [coerceRef, hv, Bool.false_eq_true, if_false] at h
    exact isNull_of_coerceNamed hv h
  | named n =>
    simp only [coerceRef, hv, Bool.false_eq_true, if_false] at h
    exact isNull_of_coerceNamed hv h
  | nonNull t ih =>
    simp only [coerceRef, hv, Bool.false_eq_true, if_false] at h
    exact ih hv h
  | list t ih =>
    unfold coerceRef at h
    split at h
    · cases hv
    · split at h <;> cases h
      rfl
    · split at h <;> cases h
      rfl

/-- Each coerced item comes from an item of the list. -/
theorem exists_of_mem_coerceItems {coerce : Value → Coerced} {index : Nat} {vs ws : List Value}
    (h : coerceItems coerce index vs = .ok ws) {w : Value} (hw : w ∈ ws) :
    ∃ v ∈ vs, coerce v = .ok w := by
  induction vs generalizing index ws with
  | nil =>
    cases h
    cases hw
  | cons v rest ih =>
    unfold coerceItems at h
    split at h
    · cases h
    · next w' hv =>
      split at h
      · cases h
      · next ws' hrest =>
        cases h
        rcases List.mem_cons.1 hw with rfl | hw
        · exact ⟨v, List.mem_cons_self, hv⟩
        · obtain ⟨u, hu, huw⟩ := ih hrest hw
          exact ⟨u, List.mem_cons_of_mem v hu, huw⟩

theorem coerceItems_of_forall {coerce : Value → Coerced} {vs : List Value}
    (h : ∀ v ∈ vs, coerce v = .ok v) (index : Nat) : coerceItems coerce index vs = .ok vs := by
  induction vs generalizing index with
  | nil => rfl
  | cons v rest ih =>
    have hv := h v List.mem_cons_self
    have hrest := ih (fun u hu => h u (List.mem_cons_of_mem v hu)) (index + 1)
    simp only [coerceItems, hv, hrest]

/-- Coercing to a reference gives conforming values if coercing to named types does. -/
theorem conforms_of_coerceRef {s : Schema} {fuel : Nat}
    (hnamed : ∀ {name v w}, v.Sized → coerceNamed s fuel name v = .ok w →
      w.Conforms s (.named name))
    {t : TypeRef} {v w : Value} (hv : v.Sized) (h : coerceRef (coerceNamed s fuel) t v = .ok w) :
    w.Conforms s t := by
  induction t generalizing v w with
  | absent =>
    unfold coerceRef at h
    split at h
    · cases h
      exact .null _ rfl
    · -- no type has the empty name
      simp [coerceNamed_eq_ok_iff, builtinCoercion?, Schema.type?] at h
  | named n =>
    unfold coerceRef at h
    split at h
    · cases h
      exact .null _ rfl
    · exact hnamed hv h
  | nonNull t ih =>
    unfold coerceRef at h
    split at h
    · cases h
    · next hnull =>
      rw [Bool.not_eq_true] at hnull
      exact .nonNull t w (isNull_of_coerceRef hnull h) (ih hv h)
  | list t ih =>
    unfold coerceRef at h
    split at h
    · cases h
      exact .null _ rfl
    · next items =>
      split at h
      · cases h
      · next ws hitems =>
        cases h
        refine .list t ws ?_
        intro w hw
        obtain ⟨v, hmem, hvw⟩ := exists_of_mem_coerceItems hitems hw
        cases hv with
        | list _ hsized => exact ih (hsized v hmem) hvw
    · split at h
      · cases h
      · next w' hw =>
        cases h
        refine .list t [w'] ?_
        intro u hu
        rw [List.mem_singleton.1 hu]
        exact ih hv hw

/-! ### Input objects -/

section
variable {coerce : TypeRef → Value → Coerced} {t : NamedType} {entries out out' : Entries}
  {fields : List InputValue}

theorem coerceFields_cons_of_ok {f : InputValue} {w? : Option Value}
    (hf : coerceField coerce t entries f = .ok w?) :
    coerceFields coerce t entries (f :: fields) out =
      coerceFields coerce t entries fields (out.put? f.name w?) := by
  rw [coerceFields, hf]
  cases w? <;> rfl

theorem exists_of_coerceFields_cons {f : InputValue}
    (h : coerceFields coerce t entries (f :: fields) out = .ok out') :
    ∃ w?, coerceField coerce t entries f = .ok w? ∧
      coerceFields coerce t entries fields (out.put? f.name w?) = .ok out' := by
  cases hf : coerceField coerce t entries f with
  | error e => simp [coerceFields, hf] at h
  | ok w? => exact ⟨w?, rfl, coerceFields_cons_of_ok hf ▸ h⟩

theorem ordered_coerceFields (hout : Ordered Prod.fst out)
    (h : coerceFields coerce t entries fields out = .ok out') : Ordered Prod.fst out' := by
  induction fields generalizing out with
  | nil =>
    cases h
    exact hout
  | cons f rest ih =>
    obtain ⟨w?, -, hrest⟩ := exists_of_coerceFields_cons h
    exact ih (Entries.ordered_put? hout f.name w?) hrest

theorem find?_coerceFields_of_not_mem {k : String} (hk : k ∉ fields.map InputValue.name)
    (h : coerceFields coerce t entries fields out = .ok out') : out'.find? k = out.find? k := by
  induction fields generalizing out with
  | nil =>
    cases h
    rfl
  | cons f rest ih =>
    rw [List.map_cons, List.mem_cons, not_or] at hk
    obtain ⟨w?, -, hrest⟩ := exists_of_coerceFields_cons h
    rw [ih hk.2 hrest, Entries.find?_put?, if_neg (Ne.symm hk.1)]

/-- Under the name of each field stands what the field contributes. -/
theorem coerceField_of_coerceFields (hdistinct : (fields.map InputValue.name).Nodup)
    {f : InputValue} (hf : f ∈ fields) (hnew : out.find? f.name = none)
    (h : coerceFields coerce t entries fields out = .ok out') :
    coerceField coerce t entries f = .ok (out'.find? f.name) := by
  induction fields generalizing out with
  | nil => cases hf
  | cons g rest ih =>
    obtain ⟨hg, hdistinct⟩ := List.nodup_cons.1 hdistinct
    obtain ⟨w?, hw, hrest⟩ := exists_of_coerceFields_cons h
    rcases List.mem_cons.1 hf with rfl | hf
    · rw [find?_coerceFields_of_not_mem hg hrest, hw, Entries.find?_put?, if_pos rfl, hnew,
        Option.or_none]
    · have hne : g.name ≠ f.name := fun heq => hg (heq ▸ List.mem_map_of_mem hf)
      refine ih hdistinct hf ?_ hrest
      rw [Entries.find?_put?, if_neg hne, hnew]

/-- Fields that contribute what the entries hold already copy these entries. -/
theorem exists_coerceFields_of_forall
    (h : ∀ f ∈ fields, coerceField coerce t entries f = .ok (entries.find? f.name))
    (hout : Ordered Prod.fst out) :
    ∃ out', coerceFields coerce t entries fields out = .ok out' ∧ Ordered Prod.fst out' ∧
      ∀ k, out'.find? k =
        if k ∈ fields.map InputValue.name then (entries.find? k).or (out.find? k)
        else out.find? k := by
  induction fields generalizing out with
  | nil => exact ⟨out, rfl, hout, fun k => by simp⟩
  | cons f rest ih =>
    have hf := h f List.mem_cons_self
    obtain ⟨out', hout', hordered, hfind⟩ :=
      ih (fun g hg => h g (List.mem_cons_of_mem f hg))
        (Entries.ordered_put? hout f.name (entries.find? f.name))
    refine ⟨out', ?_, hordered, ?_⟩
    · rw [coerceFields_cons_of_ok hf, hout']
    · intro k
      rw [hfind k, Entries.find?_put?]
      by_cases hk : f.name = k
      · subst hk
        cases entries.find? f.name <;> simp
      · simp [hk, Ne.symm hk]

/-- A field of an object that was coerced conforms, given that coercion conforms to references. -/
theorem conforms_of_coerceField {s : Schema} {f : InputValue} {w : Value}
    (hcoerce : ∀ {r v w}, v.Sized → coerce r v = .ok w → w.Conforms s r)
    (hsized : ∀ e ∈ entries, e.2.Sized)
    (hdefault : f.default.isNull = false → f.default.Conforms s f.type)
    (h : coerceField coerce t entries f = .ok (some w)) : w.Conforms s f.type := by
  unfold coerceField at h
  split at h
  · next raw hraw =>
    split at h
    · cases h
    · next w' hw =>
      cases h
      exact hcoerce (hsized _ (Entries.mem_of_find? hraw)) hw
  · split at h
    · next hnull =>
      cases h
      exact hdefault (by simpa using hnull)
    · split at h <;> cases h

theorem coerceField_eq_none {f : InputValue}
    (h : coerceField coerce t entries f = .ok none) :
    f.type.isNonNull = false ∧ f.default.isNull = true := by
  unfold coerceField at h
  grind

theorem conforms_of_coerceInputObject {s : Schema} {name : String} {v w : Value}
    (hs : s.DefaultsConform) (hcoerce : ∀ {r v w}, v.Sized → coerce r v = .ok w → w.Conforms s r)
    (own : builtinScalar? name = none) (found : s.type? name = some t)
    (kind : t.kind = .inputObject) (hv : v.Sized) (h : coerceInputObject coerce t v = .ok w) :
    w.Conforms s (.named name) := by
  have ht := Schema.mem_of_type? found
  cases hv with
  | object entries hsized =>
    simp only [coerceInputObject] at h
    split at h
    · cases h
    split at h
    · cases h
    · next out hout =>
      split at h
      · cases h
      · next hone =>
        cases h
        have hfield : ∀ f ∈ t.inputFields,
            coerceField coerce t entries f = .ok (out.find? f.name) :=
          fun f hf => coerceField_of_coerceFields (hs.distinct t ht) hf rfl hout
        have hordered : Ordered Prod.fst out := ordered_coerceFields Ordered.nil hout
        refine .inputObject name t out own found kind hordered ?_ ?_ ?_ ?_
        · rintro ⟨k, v⟩ he
          apply Classical.byContradiction
          intro hk
          have hfind := find?_coerceFields_of_not_mem (k := k) (by simpa using hk) hout
          rw [(Entries.find?_eq_some_iff hordered).2 he] at hfind
          cases hfind
        · intro f hf v hv
          exact conforms_of_coerceField hcoerce hsized (hs.conforms t ht f hf) (hv ▸ hfield f hf)
        · intro f hf hneeded
          cases hfind : out.find? f.name with
          | some v => rfl
          | none =>
            have := coerceField_eq_none (hfind ▸ hfield f hf)
            simp [this] at hneeded
        · intro honeOf
          simpa [honeOf] using hone
  | _ => cases h

/-- An object that conforms to its type is coerced to itself. -/
theorem coerceInputObject_of_conforms
    (hordered : Ordered Prod.fst entries)
    (hdeclared : ∀ e ∈ entries, ∃ f ∈ t.inputFields, f.name = e.1)
    (heach : ∀ f ∈ t.inputFields, ∀ v, entries.find? f.name = some v → coerce f.type v = .ok v)
    (hpresent : ∀ f ∈ t.inputFields, f.type.isNonNull = true ∨ f.default.isNull = false →
      (entries.find? f.name).isSome)
    (hsingle : t.oneOf = true → entries.length = 1) :
    coerceInputObject coerce t (.object entries) = .ok (.object entries) := by
  have hknown : List.find? (fun e => (t.inputField? e.1).isNone) entries = none := by
    rw [List.find?_eq_none]
    intro e he
    obtain ⟨f, hf, hname⟩ := hdeclared e he
    simpa [NamedType.inputField?] using ⟨f, hf, hname⟩
  have hfield : ∀ f ∈ t.inputFields,
      coerceField coerce t entries f = .ok (entries.find? f.name) := by
    intro f hf
    cases hv : entries.find? f.name with
    | some v => simp [coerceField, hv, heach f hf v hv]
    | none =>
      have hneeded := mt (hpresent f hf) (by simp [hv])
      rw [not_or, Bool.not_eq_true, Bool.not_eq_false] at hneeded
      simp [coerceField, hv, hneeded]
  obtain ⟨out, hout, hordered', hfind⟩ := exists_coerceFields_of_forall hfield Ordered.nil
  have hsame : out = entries := by
    refine Entries.ext_find? hordered' hordered ?_
    intro k
    rw [hfind k]
    split
    · simp [Entries.find?]
    · next hk =>
      cases hv : entries.find? k with
      | none => rfl
      | some v =>
        obtain ⟨f, hf, hname⟩ := hdeclared _ (Entries.mem_of_find? hv)
        exact absurd (List.mem_map.2 ⟨f, hf, hname⟩) hk
  have hone : (t.oneOf && decide (entries.length ≠ 1)) = false := by
    cases ho : t.oneOf with
    | false => rfl
    | true => simp [hsingle ho]
  simp only [coerceInputObject, hknown, hout, hsame, hone, Bool.false_eq_true, if_false]

end

/-! ### Coercion -/

theorem conforms_of_coerceNamed {s : Schema} (hs : s.DefaultsConform) {fuel : Nat} {name : String}
    {v w : Value} (hv : v.Sized) (h : coerceNamed s fuel name v = .ok w) :
    w.Conforms s (.named name) := by
  induction fuel using Nat.strongRecOn generalizing name v w with
  | ind fuel ih =>
    rcases (coerceNamed_eq_ok_iff s fuel name v w).1 h with
      ⟨coerce, hc, hw⟩ | ⟨hb, t, ht, ⟨hk, hw⟩ | ⟨hk, rfl⟩ | ⟨hk, less, rfl, hw⟩⟩
    · exact conforms_of_builtinCoercion hc hv hw
    · rw [builtinCoercion?_eq_none_iff] at hb
      unfold coerceEnum at hw
      split at hw
      · split at hw
        · next hany =>
          cases hw
          obtain ⟨declaration, hmem, hname⟩ := List.any_eq_true.1 hany
          obtain rfl := of_decide_eq_true hname
          exact .enum name t declaration hb ht hk hmem
        · cases hw
      · cases hw
    · exact .scalar name t v ((builtinCoercion?_eq_none_iff name).1 hb) ht hk
    · rw [builtinCoercion?_eq_none_iff] at hb
      refine conforms_of_coerceInputObject hs ?_ hb ht hk hv hw
      exact conforms_of_coerceRef (ih less (Nat.lt_succ_self less))

/-- A value that conforms to a type is coerced to itself. -/
theorem coerceRef_of_conforms {s : Schema} {t : TypeRef} {w : Value} (h : w.Conforms s t)
    {fuel : Nat} (hfuel : w.depth ≤ fuel) : coerceRef (coerceNamed s fuel) t w = .ok w := by
  induction h generalizing fuel with
  | null t nullable =>
    cases t with
    | nonNull t => cases nullable
    | _ => rfl
  | nonNull t v notNull _ ih => simp [coerceRef, notNull, ih hfuel]
  | list t items _ ih =>
    have hitems : coerceItems (coerceRef (coerceNamed s fuel) t) 0 items = .ok items := by
      refine coerceItems_of_forall ?_ 0
      intro v hv
      refine ih v hv ?_
      have := depth_le_itemsDepth hv
      rw [depth] at hfuel
      omega
    simp only [coerceRef, hitems]
  | int n low high =>
    simp [coerceRef, isNull, coerceNamed, builtinCoercion?, coerceInt, inIntRange, low, high]
  | float x => simp [coerceRef, isNull, coerceNamed, builtinCoercion?, coerceFloat]
  | string text => simp [coerceRef, isNull, coerceNamed, builtinCoercion?, coerceString]
  | boolean b => simp [coerceRef, isNull, coerceNamed, builtinCoercion?, coerceBoolean]
  | id text => simp [coerceRef, isNull, coerceNamed, builtinCoercion?, coerceID]
  | enum name t declaration own found kind declared =>
    rw [coerceRef, if_neg (by simp [isNull]), coerceNamed_eq_ok_iff]
    refine .inr ⟨(builtinCoercion?_eq_none_iff name).2 own, t, found, .inl ⟨kind, ?_⟩⟩
    rw [coerceEnum, if_pos (List.any_eq_true.2 ⟨declaration, declared, by simp⟩)]
  | scalar name t v own found kind =>
    rw [coerceRef]
    split
    · next hnull => cases v <;> simp_all [isNull]
    · exact (coerceNamed_eq_ok_iff ..).2
        (.inr ⟨(builtinCoercion?_eq_none_iff name).2 own, t, found, .inr (.inl ⟨kind, rfl⟩)⟩)
  | inputObject name t entries own found kind ordered declared _ present single ih =>
    rw [coerceRef, if_neg (by simp [isNull]), coerceNamed_eq_ok_iff]
    rw [depth] at hfuel
    obtain ⟨less, rfl⟩ : ∃ less, fuel = less + 1 := ⟨fuel - 1, by omega⟩
    refine .inr ⟨(builtinCoercion?_eq_none_iff name).2 own, t, found,
      .inr (.inr ⟨kind, less, rfl, ?_⟩)⟩
    refine coerceInputObject_of_conforms ordered declared ?_ present single
    intro f hf v hv
    have := depth_le_entriesDepth (Entries.mem_of_find? hv)
    exact ih f hf v hv (by omega)

/-- A coerced value conforms to the type, and coercing it again leaves it as it is. -/
theorem conforms_of_coerce {s : Schema} (hs : s.DefaultsConform) {t : TypeRef} {v w : Value}
    (hv : v.Sized) (h : v.coerce s t = .ok w) : w.Conforms s t ∧ w.coerce s t = .ok w := by
  have hw : w.Conforms s t := conforms_of_coerceRef (conforms_of_coerceNamed hs) hv h
  exact ⟨hw, coerceRef_of_conforms hw (Nat.le_refl _)⟩

end Value

/-- An input type that holds itself, with a default for a list of numbers. -/
def Pets.filter : NamedType where
  name := "Filter"
  kind := .inputObject
  inputFields :=
    [{ name := "ages", type := .list (.nonNull (.named "Int")), default := .list [.int .plain 1] },
     { name := "not", type := .named "Filter" },
     { name := "kind", type := .nonNull (.named "Kind") }]

def Pets.kind : NamedType where
  name := "Kind"
  kind := .enum
  enumValues := [{ name := "CAT" }, { name := "DOG" }]

def Pets.filters : Schema where
  types := [Pets.filter, Pets.kind]

theorem Pets.defaultsConform_filters : Pets.filters.DefaultsConform where
  distinct := by decide
  conforms := by
    intro t ht f hf hnull
    simp only [Pets.filters, List.mem_cons, List.not_mem_nil, or_false] at ht
    rcases ht with rfl | rfl
    · simp only [Pets.filter, List.mem_cons, List.not_mem_nil, or_false] at hf
      rcases hf with rfl | rfl | rfl
      · refine .list _ _ ?_
        intro v hv
        rw [List.mem_singleton.1 hv]
        exact .nonNull _ _ rfl (.int 1 (by decide) (by decide))
      · cases hnull
      · cases hnull
    · cases hf

namespace Value

/-- A filter as it comes in: one age for a list of them, and no ages in the filter inside. -/
def rawFilter : Value :=
  .object [("ages", .float .double (.finite false 7 0)), ("kind", .string "CAT"),
    ("not", .object [("kind", .string "DOG")])]

def coercedFilter : Value :=
  .object [("ages", .list [.int .plain 7]), ("kind", .string "CAT"),
    ("not", .object [("ages", .list [.int .plain 1]), ("kind", .string "DOG")])]

theorem conforms_of_coerce_filter :
    rawFilter.coerce Pets.filters (.nonNull (.named "Filter")) = .ok coercedFilter ∧
      coercedFilter.Conforms Pets.filters (.nonNull (.named "Filter")) ∧
      coercedFilter.coerce Pets.filters (.nonNull (.named "Filter")) = .ok coercedFilter := by
  have hsized : rawFilter.Sized := by
    refine .object _ ?_
    simp only [List.mem_cons, List.not_mem_nil, or_false]
    rintro e (rfl | rfl | rfl)
    · exact .double _
    · exact .string _
    · refine .object _ ?_
      simp only [List.mem_cons, List.not_mem_nil, or_false]
      rintro e rfl
      exact .string _
  have hcoerce :
      rawFilter.coerce Pets.filters (.nonNull (.named "Filter")) = .ok coercedFilter := rfl
  exact ⟨hcoerce, conforms_of_coerce Pets.defaultsConform_filters hsized hcoerce⟩

end Value

end OperationGraph
