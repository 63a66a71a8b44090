import OperationGraph.Proofs.Value.Conformance

/-! # Objects with exactly one entry

Coercion goes down into lists and objects. `Produces` says which entries it brings into the form of which
input object type on the way, and every such object was coerced by itself. So an object of a type that
asks for exactly one field has exactly one entry. That entry may be null: it is so exactly if null was
given for it (`single_of_produces`). -/

namespace OperationGraph

namespace Value

/-- In bringing a value into the form of a reference, the entries `es` are brought into the form `out` of
the input object type `t`, here or at some depth. Where a type has several fields of a name, the last one
counts. -/
inductive Produces (s : Schema) (t : NamedType) (es out : Entries) : TypeRef → Value → Value → Prop
  | here {name : String} (own : builtinScalar? name = none) (found : s.type? name = some t)
      (kind : t.kind = .inputObject) : Produces s t es out (.named name) (.object es) (.object out)
  | nonNull {r : TypeRef} {v w : Value} (h : Produces s t es out r v w) :
      Produces s t es out (.nonNull r) v w
  | item {r : TypeRef} {vs ws : List Value} {v w : Value} (i : Nat) (hv : vs[i]? = some v)
      (hw : ws[i]? = some w) (h : Produces s t es out r v w) :
      Produces s t es out (.list r) (.list vs) (.list ws)
  | only {r : TypeRef} {v w : Value} (hv : ∀ vs, v ≠ .list vs) (h : Produces s t es out r v w) :
      Produces s t es out (.list r) v (.list [w])
  | field {name : String} {u : NamedType} {before after : List InputValue} {f : InputValue}
      {entries coerced : Entries} {v w : Value} (own : builtinScalar? name = none)
      (found : s.type? name = some u) (kind : u.kind = .inputObject)
      (split : u.inputFields = before ++ f :: after) (last : f.name ∉ after.map (·.name))
      (hv : entries.find? f.name = some v) (hw : coerced.find? f.name = some w)
      (h : Produces s t es out f.type v w) :
      Produces s t es out (.named name) (.object entries) (.object coerced)

/-! ### Items and fields -/

theorem coerce_of_getElem? {coerce : Value → Coerced} {index i : Nat} {vs ws : List Value} {v w : Value}
    (h : coerceItems coerce index vs = .ok ws) (hv : vs[i]? = some v) (hw : ws[i]? = some w) :
    coerce v = .ok w := by
  induction vs generalizing index i ws with
  | nil => simp at hv
  | cons u rest ih =>
    unfold coerceItems at h
    split at h
    · cases h
    · next x hx =>
      split at h
      · cases h
      · next xs hxs =>
        cases h
        cases i with
        | zero =>
          cases hv
          cases hw
          exact hx
        | succ i => exact ih hxs hv hw

section
variable {coerce : TypeRef → Value → Coerced} {t : NamedType} {entries out out' : Entries}
  {fields before after : List InputValue} {f : InputValue}

/-- Whatever stands under a name was there before, or is what a field of that name contributes. -/
theorem exists_coerceField_of_find? {k : String} {x : Value}
    (h : coerceFields coerce t entries fields out = .ok out') (hx : out'.find? k = some x) :
    out.find? k = some x ∨ ∃ f ∈ fields, f.name = k ∧ coerceField coerce t entries f = .ok (some x) := by
  induction fields generalizing out with
  | nil =>
    cases h
    exact .inl hx
  | cons g rest ih =>
    obtain ⟨w?, hg, hrest⟩ := exists_of_coerceFields_cons h
    rcases ih hrest with hput | ⟨f, hf, hname, hfield⟩
    · rw [Entries.find?_put?] at hput
      split at hput
      · next hk =>
        cases w? with
        | none => exact .inl hput
        | some w =>
          cases hput
          exact .inr ⟨g, List.mem_cons_self, hk, hg⟩
      · exact .inl hput
    · exact .inr ⟨f, List.mem_cons_of_mem g hf, hname, hfield⟩

/-- What the last field of a name contributes stands under that name. -/
theorem exists_coerceField_of_last (last : f.name ∉ after.map (·.name))
    (h : coerceFields coerce t entries (before ++ f :: after) out = .ok out') :
    ∃ w? old, coerceField coerce t entries f = .ok w? ∧ out'.find? f.name = w?.or old := by
  induction before generalizing out with
  | nil =>
    obtain ⟨w?, hf, hrest⟩ := exists_of_coerceFields_cons h
    refine ⟨w?, out.find? f.name, hf, ?_⟩
    rw [find?_coerceFields_of_not_mem last hrest, Entries.find?_put?, if_pos rfl]
  | cons g rest ih =>
    obtain ⟨w?, -, hrest⟩ := exists_of_coerceFields_cons h
    exact ih hrest

/-- What is given for the last field of a name is coerced to what stands under that name. -/
theorem coerce_of_last {v w : Value} (last : f.name ∉ after.map (·.name))
    (h : coerceFields coerce t entries (before ++ f :: after) out = .ok out')
    (hv : entries.find? f.name = some v) (hw : out'.find? f.name = some w) :
    coerce f.type v = .ok w := by
  obtain ⟨w?, old, hf, hfind⟩ := exists_coerceField_of_last last h
  rw [coerceField, hv] at hf
  dsimp only at hf
  split at hf
  · cases hf
  · next x hx =>
    cases hf
    rw [hfind] at hw
    cases hw
    exact hx

theorem exists_of_coerceInputObject {coerced : Entries}
    (h : coerceInputObject coerce t (.object entries) = .ok (.object coerced)) :
    coerceFields coerce t entries t.inputFields [] = .ok coerced ∧
      (t.oneOf = true → coerced.length = 1) := by
  simp only [coerceInputObject] at h
  split at h
  · cases h
  split at h
  · cases h
  · next out hout =>
    split at h
    · cases h
    · next hone =>
      cases h
      exact ⟨hout, fun honeOf => by simpa [honeOf] using hone⟩

end

/-! ### Objects at every depth -/

section
variable {s : Schema} {t : NamedType} {es out : Entries} {r : TypeRef} {v w : Value}

theorem exists_coerceInputObject_of_coerceRef {fuel : Nat} {name : String} {u : NamedType}
    {entries : Entries} (own : builtinScalar? name = none) (found : s.type? name = some u)
    (kind : u.kind = .inputObject)
    (h : coerceRef (coerceNamed s fuel) (.named name) (.object entries) = .ok w) :
    ∃ less, coerceInputObject (coerceRef (coerceNamed s less)) u (.object entries) = .ok w := by
  have hnamed : coerceNamed s fuel name (.object entries) = .ok w := h
  rcases (coerceNamed_eq_ok_iff s fuel name _ w).1 hnamed with
    ⟨coerce, hcoerce, -⟩ | ⟨-, u', hu', hkinds⟩
  · rw [(builtinCoercion?_eq_none_iff name).2 own] at hcoerce
    cases hcoerce
  · obtain rfl : u = u' := Option.some.inj (found.symm.trans hu')
    rcases hkinds with ⟨hk, -⟩ | ⟨hk, -⟩ | ⟨-, less, -, hobject⟩
    · simp [kind] at hk
    · simp [kind] at hk
    · exact ⟨less, hobject⟩

/-- Every object on the way is coerced by itself. -/
theorem Produces.exists_coerceInputObject (hp : Produces s t es out r v w) {fuel : Nat}
    (h : coerceRef (coerceNamed s fuel) r v = .ok w) :
    ∃ less, coerceInputObject (coerceRef (coerceNamed s less)) t (.object es) =
      .ok (.object out) := by
  induction hp generalizing fuel with
  | here own found kind => exact exists_coerceInputObject_of_coerceRef own found kind h
  | nonNull hp ih =>
    unfold coerceRef at h
    split at h
    · cases h
    · exact ih h
  | item i hv hw hp ih =>
    simp only [coerceRef] at h
    split at h
    · cases h
    · next xs hxs =>
      cases h
      exact ih (coerce_of_getElem? hxs hv hw)
  | only hv hp ih =>
    unfold coerceRef at h
    split at h
    · cases h
    · next vs => exact absurd rfl (hv vs)
    · split at h
      · cases h
      · next x hx =>
        cases h
        exact ih hx
  | field own found kind split last hv hw hp ih =>
    obtain ⟨less, hobject⟩ := exists_coerceInputObject_of_coerceRef own found kind h
    have hfields := (exists_of_coerceInputObject hobject).1
    rw [split] at hfields
    exact ih (coerce_of_last last hfields hv hw)

/-! ### The one entry -/

theorem eq_null_iff (v : Value) : v = .null ↔ v.isNull = true := by
  cases v <;> simp [isNull]

/-- Null is coerced to null, and nothing else is. -/
theorem eq_null_iff_of_coerceRef {fuel : Nat} (h : coerceRef (coerceNamed s fuel) r v = .ok w) :
    w = .null ↔ v = .null := by
  cases hv : v.isNull with
  | true =>
    obtain rfl := (eq_null_iff v).2 hv
    cases r <;> simp_all [coerceRef, isNull]
  | false => simp [eq_null_iff, hv, isNull_of_coerceRef hv h]

/-- A field contributes null exactly if null is given for it. -/
theorem eq_null_iff_of_coerceField {fuel : Nat} {f : InputValue} {x : Value}
    (h : coerceField (coerceRef (coerceNamed s fuel)) t es f = .ok (some x)) :
    x = .null ↔ es.find? f.name = some .null := by
  unfold coerceField at h
  split at h
  · next raw hraw =>
    rw [hraw, Option.some.injEq]
    split at h
    · cases h
    · next y hy =>
      cases h
      exact eq_null_iff_of_coerceRef hy
  · next hnone =>
    rw [hnone, eq_null_iff]
    split at h
    · next hdefault =>
      cases h
      simpa using hdefault
    · split at h <;> cases h

/-- Whenever a value is coerced, every object that is produced for a type with `oneOf`, at any depth,
has exactly one entry, and this is null exactly if null was given for it. -/
theorem single_of_produces (h : v.coerce s r = .ok w) (hp : Produces s t es out r v w)
    (hone : t.oneOf = true) :
    ∃ k x, out = [(k, x)] ∧ (x = .null ↔ es.find? k = some .null) := by
  obtain ⟨fuel, hobject⟩ := hp.exists_coerceInputObject h
  obtain ⟨hfields, hlength⟩ := exists_of_coerceInputObject hobject
  obtain ⟨⟨k, x⟩, rfl⟩ := List.length_eq_one_iff.1 (hlength hone)
  refine ⟨k, x, rfl, ?_⟩
  rcases exists_coerceField_of_find? hfields (k := k) (x := x) (by simp [Entries.find?]) with
    hnone | ⟨f, -, rfl, hf⟩
  · cases hnone
  · exact eq_null_iff_of_coerceField hf

end

end Value

/-- An input type that asks for exactly one of its fields. -/
def Pets.petBy : NamedType where
  name := "PetBy"
  kind := .inputObject
  inputFields := [{ name := "id", type := .named "ID" }, { name := "name", type := .named "String" }]
  oneOf := true

def Pets.search : NamedType where
  name := "Search"
  kind := .inputObject
  inputFields :=
    [{ name := "by", type := .list (.nonNull (.named "PetBy")) },
     { name := "limit", type := .named "Int", default := .int .plain 10 }]

def Pets.searches : Schema where
  types := [Pets.petBy, Pets.search]

namespace Value

/-- A search by a name and by an `id` that is given as null. -/
def rawSearch : Value :=
  .object [("by", .list [.object [("name", .string "Tom")], .object [("id", .null)]])]

def coercedSearch : Value :=
  .object [("by", .list [.object [("name", .string "Tom")], .object [("id", .null)]]),
    ("limit", .int .plain 10)]

theorem coerce_rawSearch :
    rawSearch.coerce Pets.searches (.named "Search") = .ok coercedSearch := rfl

/-- Both objects in the list are produced for the type that asks for one field. -/
theorem produces_coercedSearch {es : Entries} (i : Nat)
    (h : [.object [("name", .string "Tom")], .object [("id", .null)]][i]? = some (Value.object es)) :
    Produces Pets.searches Pets.petBy es es (.named "Search") rawSearch coercedSearch := by
  have hfields : Pets.search.inputFields = [] ++ { name := "by", type := .list (.nonNull (.named "PetBy")) } ::
      [{ name := "limit", type := .named "Int", default := .int .plain 10 }] := rfl
  refine .field rfl rfl rfl hfields (by decide) rfl rfl ?_
  exact .item i h h (.nonNull (.here rfl rfl rfl))

theorem single_of_produces_search :
    rawSearch.coerce Pets.searches (.named "Search") = .ok coercedSearch ∧
      Produces Pets.searches Pets.petBy [("name", .string "Tom")] [("name", .string "Tom")]
        (.named "Search") rawSearch coercedSearch ∧
      ∃ k x, [("name", Value.string "Tom")] = [(k, x)] ∧
        (x = .null ↔ Entries.find? [("name", Value.string "Tom")] k = some .null) :=
  ⟨coerce_rawSearch, produces_coercedSearch 0 rfl,
    single_of_produces coerce_rawSearch (produces_coercedSearch 0 rfl) rfl⟩

/-- The one entry of an object may be null. -/
theorem exists_produces_null :
    ¬ ∀ (s : Schema) (t : NamedType) (es out : Entries) (r : TypeRef) (v w : Value),
      v.coerce s r = .ok w → Produces s t es out r v w → t.oneOf = true →
        ∃ k x, out = [(k, x)] ∧ x ≠ .null := by
  intro h
  obtain ⟨k, x, hout, hx⟩ := h Pets.searches Pets.petBy _ _ _ _ _ coerce_rawSearch
    (produces_coercedSearch 1 rfl) rfl
  cases hout
  exact hx rfl

end Value

end OperationGraph
