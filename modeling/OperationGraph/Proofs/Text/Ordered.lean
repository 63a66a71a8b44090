import OperationGraph.Text.Sorted

/-! # Lists in the order of their keys

A list whose keys increase is determined by what can be found in it. Putting an element in its place
keeps the order, sorting makes it, and a sorted list keeps it when repetitions are dropped. -/

namespace OperationGraph

/-- The keys increase, so that no two elements have one key. -/
def Ordered {α : Type} (key : α → String) (xs : List α) : Prop :=
  xs.Pairwise fun a b => key a < key b

section
variable {α : Type} {key : α → String} {a : α} {xs ys : List α}

namespace Ordered

theorem nil : Ordered key [] := List.Pairwise.nil

theorem nodup_keys (h : Ordered key xs) : (xs.map key).Nodup := by
  refine List.pairwise_map.2 (h.imp ?_)
  intro a b hlt heq
  exact String.lt_irrefl _ (heq ▸ hlt)

theorem nodup (h : Ordered key xs) : xs.Nodup := by
  refine h.imp ?_
  rintro a _ hlt rfl
  exact String.lt_irrefl _ hlt

/-- Two ordered lists with the same elements are equal. -/
theorem ext (hx : Ordered key xs) (hy : Ordered key ys) (h : ∀ a, a ∈ xs ↔ a ∈ ys) : xs = ys :=
  List.Perm.eq_of_pairwise (fun _ _ _ _ hab hba => (String.lt_asymm hab hba).elim) hx hy
    ((List.perm_ext_iff_of_nodup hx.nodup hy.nodup).2 h)

end Ordered

/-- Where keys do not repeat, an element is found under its key. -/
theorem find?_key_of_mem (h : (xs.map key).Nodup) (ha : a ∈ xs) :
    xs.find? (fun b => key b = key a) = some a := by
  induction xs with
  | nil => cases ha
  | cons b rest ih =>
    obtain ⟨hb, hrest⟩ := List.nodup_cons.1 h
    rcases List.mem_cons.1 ha with rfl | ha
    · simp
    · have hne : key b ≠ key a := fun heq => hb (heq ▸ List.mem_map_of_mem ha)
      simp [hne, ih hrest ha]

theorem mem_iff_find?_key (h : (xs.map key).Nodup) :
    a ∈ xs ↔ xs.find? (fun b => key b = key a) = some a :=
  ⟨find?_key_of_mem h, List.mem_of_find?_eq_some⟩

/-- Two ordered lists in which the same is found under every key are equal. -/
theorem Ordered.ext_find? (hx : Ordered key xs) (hy : Ordered key ys)
    (h : ∀ k, xs.find? (fun a => key a = k) = ys.find? fun a => key a = k) : xs = ys := by
  apply hx.ext hy
  intro a
  rw [mem_iff_find?_key hx.nodup_keys, mem_iff_find?_key hy.nodup_keys, h]

theorem find?_key_eq_none_iff {k : String} :
    xs.find? (fun b => key b = k) = none ↔ k ∉ xs.map key := by
  simp

/-- Where keys do not repeat, the order does not matter to what is found. -/
theorem find?_key_of_perm (hnd : (xs.map key).Nodup) (h : ys.Perm xs) (k : String) :
    ys.find? (fun b => key b = k) = xs.find? fun b => key b = k := by
  have hnd' : (ys.map key).Nodup := (h.map key).nodup_iff.2 hnd
  cases hf : xs.find? fun b => key b = k with
  | none =>
    rw [find?_key_eq_none_iff] at hf ⊢
    simpa [h.mem_iff] using hf
  | some b =>
    obtain rfl : key b = k := by simpa using List.find?_some hf
    exact find?_key_of_mem hnd' (h.mem_iff.2 (List.mem_of_find?_eq_some hf))

theorem find?_key_eq_none_of_test (test : String → Bool) (h : ∀ a ∈ xs, test (key a) = true)
    {k : String} (hk : test k = false) : xs.find? (fun a => key a = k) = none := by
  rw [find?_key_eq_none_iff]
  intro hmem
  obtain ⟨a, ha, rfl⟩ := List.mem_map.1 hmem
  rw [h a ha] at hk
  cases hk

/-- Keys do not repeat in two lists that a test on keys tells apart. -/
theorem nodup_keys_append {test : String → Bool} (hx : (xs.map key).Nodup) (hy : (ys.map key).Nodup)
    (htrue : ∀ a ∈ xs, test (key a) = true) (hfalse : ∀ a ∈ ys, test (key a) = false) :
    ((xs ++ ys).map key).Nodup := by
  rw [List.map_append]
  refine List.nodup_append.2 ⟨hx, hy, ?_⟩
  rintro k hk l hl rfl
  obtain ⟨a, ha, rfl⟩ := List.mem_map.1 hk
  obtain ⟨b, hb, heq⟩ := List.mem_map.1 hl
  have hcontra := htrue a ha
  rw [← heq, hfalse b hb] at hcontra
  cases hcontra

/-! ### Putting an element in its place -/

theorem find?_putOrdered (a : α) (xs : List α) (k : String) :
    (putOrdered key a xs).find? (fun b => key b = k) =
      if key a = k then some a else xs.find? fun b => key b = k := by
  induction xs with
  | nil => simp [putOrdered]
  | cons b rest ih =>
    simp only [putOrdered]
    split
    · next hlt =>
      by_cases hk : key a = k
      · have hne : key b ≠ k := fun h => String.lt_irrefl _ (h.trans hk.symm ▸ hlt)
        simp [hne, ih, hk]
      · simp [List.find?_cons, ih, hk]
    · split
      · next heq => by_cases hk : key a = k <;> simp [heq, hk]
      · by_cases hk : key a = k <;> simp [hk]

theorem mem_putOrdered {b : α} (h : b ∈ putOrdered key a xs) : b = a ∨ b ∈ xs := by
  induction xs with
  | nil => exact .inl (List.mem_singleton.1 h)
  | cons c rest ih =>
    simp only [putOrdered] at h
    split at h
    · rcases List.mem_cons.1 h with rfl | h
      · exact .inr List.mem_cons_self
      · exact (ih h).imp_right (List.mem_cons_of_mem c)
    · split at h
      · exact (List.mem_cons.1 h).imp_right (List.mem_cons_of_mem c)
      · exact List.mem_cons.1 h

theorem ordered_putOrdered (a : α) (h : Ordered key xs) : Ordered key (putOrdered key a xs) := by
  induction xs with
  | nil => exact List.pairwise_singleton ..
  | cons b rest ih =>
    obtain ⟨hb, hrest⟩ := List.pairwise_cons.1 h
    simp only [putOrdered]
    split
    · next hlt =>
      refine List.pairwise_cons.2 ⟨fun c hc => ?_, ih hrest⟩
      rcases mem_putOrdered hc with rfl | hc
      · exact hlt
      · exact hb c hc
    · next hlt =>
      split
      · next heq => exact List.pairwise_cons.2 ⟨fun c hc => heq ▸ hb c hc, hrest⟩
      · next hne =>
        have hab : key a < key b :=
          String.not_le.1 fun hle => hne (String.le_antisymm hle (String.not_lt.1 hlt))
        refine List.pairwise_cons.2 ⟨fun c hc => ?_, h⟩
        rcases List.mem_cons.1 hc with rfl | hc
        · exact hab
        · exact String.lt_trans hab (hb c hc)

/-! ### Sorting -/

theorem insertOrdered_perm (a : α) (xs : List α) : (insertOrdered key a xs).Perm (a :: xs) := by
  induction xs with
  | nil => exact .refl _
  | cons b rest ih =>
    simp only [insertOrdered]
    split
    · exact (ih.cons b).trans (.swap a b rest)
    · exact .refl _

theorem sortBy_perm (key : α → String) (xs : List α) : (sortBy key xs).Perm xs := by
  induction xs with
  | nil => exact .refl _
  | cons a rest ih => exact (insertOrdered_perm a _).trans (ih.cons a)

def Sorted (key : α → String) (xs : List α) : Prop := xs.Pairwise fun a b => key a ≤ key b

theorem sorted_insertOrdered (a : α) (h : Sorted key xs) : Sorted key (insertOrdered key a xs) := by
  induction xs with
  | nil => exact List.pairwise_singleton ..
  | cons b rest ih =>
    obtain ⟨hb, hrest⟩ := List.pairwise_cons.1 h
    simp only [insertOrdered]
    split
    · next hlt =>
      refine List.pairwise_cons.2 ⟨fun c hc => ?_, ih hrest⟩
      rcases List.mem_cons.1 ((insertOrdered_perm a rest).mem_iff.1 hc) with rfl | hc
      · exact String.not_lt.1 (String.lt_asymm hlt)
      · exact hb c hc
    · next hlt =>
      have hab : key a ≤ key b := String.not_lt.1 hlt
      refine List.pairwise_cons.2 ⟨fun c hc => ?_, h⟩
      rcases List.mem_cons.1 hc with rfl | hc
      · exact hab
      · exact String.le_trans hab (hb c hc)

theorem sorted_sortBy (key : α → String) (xs : List α) : Sorted key (sortBy key xs) := by
  induction xs with
  | nil => exact List.Pairwise.nil
  | cons a rest ih => exact sorted_insertOrdered a ih

theorem sortBy_eq_self (h : Sorted key xs) : sortBy key xs = xs := by
  induction xs with
  | nil => rfl
  | cons a rest ih =>
    obtain ⟨ha, hrest⟩ := List.pairwise_cons.1 h
    have htail : sortBy key rest = rest := ih hrest
    simp only [sortBy, List.foldr_cons] at htail ⊢
    rw [htail]
    cases rest with
    | nil => rfl
    | cons b rest =>
      have hlt : ¬ key b < key a := String.not_lt.2 (ha b List.mem_cons_self)
      simp only [insertOrdered, hlt, if_false]

/-- A sorted list without repeated keys is ordered. -/
theorem Sorted.ordered (h : Sorted key xs) (hnd : (xs.map key).Nodup) : Ordered key xs := by
  refine (h.and (List.pairwise_map.1 hnd)).imp fun ⟨hle, hne⟩ => ?_
  exact String.not_le.1 fun hge => hne (String.le_antisymm hle hge)

theorem ordered_sortBy (hnd : (xs.map key).Nodup) : Ordered key (sortBy key xs) :=
  (sorted_sortBy key xs).ordered (((sortBy_perm key xs).map key).nodup_iff.2 hnd)

theorem find?_sortBy (hnd : (xs.map key).Nodup) (k : String) :
    (sortBy key xs).find? (fun b => key b = k) = xs.find? fun b => key b = k :=
  find?_key_of_perm hnd (sortBy_perm key xs) k

end

/-! ### Dropping repetitions -/

section
variable {α : Type} [BEq α] [LawfulBEq α]

/-- What dropping repetitions adds to the elements already seen. -/
theorem exists_foldl_distinct (xs acc : List α) :
    ∃ ys, (xs.foldl (fun acc a => if acc.contains a then acc else a :: acc) acc).reverse =
        acc.reverse ++ ys ∧ ys.Sublist xs ∧ ys.Nodup ∧ (∀ a ∈ ys, a ∉ acc) ∧
        ∀ a ∈ xs, a ∈ acc ∨ a ∈ ys := by
  induction xs generalizing acc with
  | nil => exact ⟨[], by simp⟩
  | cons a rest ih =>
    by_cases ha : a ∈ acc
    · obtain ⟨ys, heq, hsub, hnd, hnew, hall⟩ := ih acc
      refine ⟨ys, by simpa [ha] using heq, hsub.cons a, hnd, hnew, fun b hb => ?_⟩
      rcases List.mem_cons.1 hb with rfl | hb
      · exact .inl ha
      · exact hall b hb
    · obtain ⟨ys, heq, hsub, hnd, hnew, hall⟩ := ih (a :: acc)
      refine ⟨a :: ys, by simpa [ha] using heq, hsub.cons_cons a, ?_, ?_, ?_⟩
      · exact List.nodup_cons.2 ⟨fun hmem => hnew a hmem List.mem_cons_self, hnd⟩
      · intro b hb
        rcases List.mem_cons.1 hb with rfl | hb
        · exact ha
        · exact fun hacc => hnew b hb (List.mem_cons_of_mem a hacc)
      · intro b hb
        rcases List.mem_cons.1 hb with rfl | hb
        · exact .inr List.mem_cons_self
        · rcases hall b hb with hacc | hys
          · rcases List.mem_cons.1 hacc with rfl | hacc
            · exact .inr List.mem_cons_self
            · exact .inl hacc
          · exact .inr (List.mem_cons_of_mem a hys)

theorem distinct_sublist (xs : List α) : (distinct xs).Sublist xs := by
  obtain ⟨ys, heq, hsub, -⟩ := exists_foldl_distinct xs []
  rw [distinct, heq]
  exact hsub

theorem nodup_distinct (xs : List α) : (distinct xs).Nodup := by
  obtain ⟨ys, heq, -, hnd, -⟩ := exists_foldl_distinct xs []
  rw [distinct, heq]
  exact hnd

theorem mem_distinct {xs : List α} {a : α} : a ∈ distinct xs ↔ a ∈ xs := by
  refine ⟨fun h => (distinct_sublist xs).subset h, fun h => ?_⟩
  obtain ⟨ys, heq, -, -, -, hall⟩ := exists_foldl_distinct xs []
  rw [distinct, heq]
  exact (hall a h).resolve_left List.not_mem_nil

theorem distinct_of_nodup {xs : List α} (h : xs.Nodup) : distinct xs = xs := by
  have hperm : (distinct xs).Perm xs :=
    (List.perm_ext_iff_of_nodup (nodup_distinct xs) h).2 fun a => mem_distinct
  exact (distinct_sublist xs).eq_of_length hperm.length_eq

end

theorem Ordered.sorted {α : Type} {key : α → String} {xs : List α} (h : Ordered key xs) :
    Sorted key xs :=
  h.imp fun hlt => String.not_lt.1 (String.lt_asymm hlt)

theorem sortNames_sortNames (names : List String) : sortNames (sortNames names) = sortNames names :=
  sortBy_eq_self (sorted_sortBy id names)

theorem Sorted.ordered_distinct {names : List String} (h : Sorted id names) :
    Ordered id (distinct names) :=
  Sorted.ordered (h.sublist (distinct_sublist names))
    (by simpa using nodup_distinct names)

/-- Names that were sorted and made distinct stay as they are when this is done again. -/
theorem distinct_sortNames_distinct_sortNames (names : List String) :
    distinct (sortNames (distinct (sortNames names))) = distinct (sortNames names) := by
  have hordered : Ordered id (distinct (sortNames names)) :=
    Sorted.ordered_distinct (sorted_sortBy id names)
  have hsorted : sortNames (distinct (sortNames names)) = distinct (sortNames names) :=
    sortBy_eq_self hordered.sorted
  rw [hsorted, distinct_of_nodup hordered.nodup]

/-- Sorted names with the same members are the same when repetitions are dropped. -/
theorem Sorted.distinct_eq {xs ys : List String} (hx : Sorted id xs) (hy : Sorted id ys)
    (h : ∀ a, a ∈ xs ↔ a ∈ ys) : distinct xs = distinct ys := by
  refine hx.ordered_distinct.ext hy.ordered_distinct ?_
  intro a
  rw [mem_distinct, mem_distinct, h]

end OperationGraph
