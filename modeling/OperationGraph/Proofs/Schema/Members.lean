import OperationGraph.Proofs.Success
import OperationGraph.Schema.Basic

/-! # The possible types of a type

Possible types are an object itself, or the objects that an interface or a union names
(`Schema.possibleTypes_eq_ok`). What they are called, and that they are objects of the schema, is read off
here for any schema. -/

namespace OperationGraph

def NamedType.possibleNames (t : NamedType) : List String :=
  if t.kind = .object then [t.name] else t.possibleTypes

namespace Schema
variable {s : Schema} {t u : NamedType} {us : List NamedType} {name : String}

theorem name_of_lookup (h : s.lookup name = some t) : t.name = name := by
  simpa using List.find?_some h

theorem mem_types_of_type? (h : s.type? name = some t) : t ∈ s.types := by
  obtain ⟨-, hlookup⟩ := Option.ite_none_left_eq_some.1 h
  exact List.mem_of_find?_eq_some hlookup

theorem possibleMember_eq_ok_iff {m : NamedType} :
    s.possibleMember t name = .ok m ↔ s.lookup name = some m ∧ m.kind = .object := by
  unfold possibleMember
  cases s.lookup name with
  | none => simp
  | some u =>
    by_cases hk : u.kind = .object
    · simp only [hk, if_true, Except.ok.injEq, Option.some.injEq]
      exact ⟨fun h => ⟨h, h ▸ hk⟩, fun h => h.1⟩
    · simp only [hk, if_false, reduceCtorEq, Option.some.injEq, false_iff]
      rintro ⟨rfl, hobject⟩
      exact hk hobject

/-- Possible types are an object itself, or the objects that an interface or a union names. -/
theorem possibleTypes_eq_ok (h : s.possibleTypes t = .ok us) :
    t.kind = .object ∧ us = [t] ∨ (t.kind = .interface ∨ t.kind = .union) ∧
      t.possibleTypes.mapM (s.possibleMember t) = .ok us := by
  unfold possibleTypes at h
  split at h
  · next hk => exact .inl ⟨hk, (Except.ok.inj h).symm⟩
  · next hk => exact .inr ⟨.inl hk, h⟩
  · next hk => exact .inr ⟨.inr hk, h⟩
  · cases h

theorem exists_possibleTypes_of_members
    (h : ∀ name ∈ t.possibleTypes, ∃ m, s.lookup name = some m ∧ m.kind = .object)
    (hk : t.kind.isComposite) : ∃ us, s.possibleTypes t = .ok us := by
  have hmembers : ∃ us, t.possibleTypes.mapM (s.possibleMember t) = .ok us := by
    apply exists_mapM_eq_ok
    intro name hname
    obtain ⟨m, hm⟩ := h name hname
    exact ⟨m, possibleMember_eq_ok_iff.2 hm⟩
  unfold possibleTypes
  cases hkind : t.kind with
  | object => exact ⟨[t], rfl⟩
  | interface => exact hmembers
  | union => exact hmembers
  | scalar | enum | inputObject | other => simp [hkind, Kind.isComposite] at hk

section
variable (h : s.possibleTypes t = .ok us)
include h

theorem isComposite_of_possibleTypes : t.kind.isComposite := by
  rcases possibleTypes_eq_ok h with ⟨hk, -⟩ | ⟨hk | hk, -⟩ <;> rw [hk] <;> rfl

/-- A possible type of an object is that object; any other is found under its own name. -/
theorem eq_or_lookup_of_mem_possibleTypes (hu : u ∈ us) :
    u.kind = .object ∧ (u = t ∨ s.lookup u.name = some u) := by
  rcases possibleTypes_eq_ok h with ⟨hk, rfl⟩ | ⟨-, hmembers⟩
  · obtain rfl := List.mem_singleton.1 hu
    exact ⟨hk, .inl rfl⟩
  · obtain ⟨name, -, hname⟩ := exists_of_mem_mapM hmembers hu
    obtain ⟨hlookup, hk⟩ := possibleMember_eq_ok_iff.1 hname
    rw [← name_of_lookup hlookup] at hlookup
    exact ⟨hk, .inr hlookup⟩

/-- Only object types are possible types. -/
theorem object_of_mem_possibleTypes (hu : u ∈ us) : u.kind = .object :=
  (eq_or_lookup_of_mem_possibleTypes h hu).1

theorem map_name_possibleTypes : us.map NamedType.name = t.possibleNames := by
  rcases possibleTypes_eq_ok h with ⟨hk, rfl⟩ | ⟨hk, hmembers⟩
  · rw [NamedType.possibleNames, if_pos hk]
    rfl
  · rw [NamedType.possibleNames, if_neg (by rcases hk with hk | hk <;> simp [hk])]
    apply map_of_mapM_eq_ok hmembers
    exact fun name m hm => name_of_lookup (possibleMember_eq_ok_iff.1 hm).1

end

/-- The possible types of a type of a schema are types of the schema. -/
theorem mem_types_of_mem_possibleTypes (ht : t ∈ s.types) (h : s.possibleTypes t = .ok us)
    (hu : u ∈ us) : u ∈ s.types := by
  rcases (eq_or_lookup_of_mem_possibleTypes h hu).2 with rfl | hlookup
  · exact ht
  · exact List.mem_of_find?_eq_some hlookup

/-- The possible types of a type of a schema are the types of the schema that it names. -/
theorem mem_possibleTypes_iff (ht : s.lookup t.name = some t) (h : s.possibleTypes t = .ok us) :
    u ∈ us ↔ s.lookup u.name = some u ∧ u.name ∈ t.possibleNames := by
  have hlookup : ∀ v ∈ us, s.lookup v.name = some v := by
    intro v hv
    rcases (eq_or_lookup_of_mem_possibleTypes h hv).2 with rfl | hlookup
    · exact ht
    · exact hlookup
  rw [← map_name_possibleTypes h]
  constructor
  · exact fun hu => ⟨hlookup u hu, List.mem_map_of_mem hu⟩
  · rintro ⟨hu, hname⟩
    obtain ⟨v, hv, heq⟩ := List.mem_map.1 hname
    have hv' := hlookup v hv
    rw [heq, hu] at hv'
    exact Option.some.inj hv' ▸ hv

end Schema

end OperationGraph
