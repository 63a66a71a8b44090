import OperationGraph.Proofs.Selection.Grouping

/-! # The order of groups

Keys are listed in the order of their first additions, and under a key object types are listed in the
order of their first additions under it. Together with what is merged this tells the list of merged
fields of a sequence of additions (`FieldGroups.mergesInOrder_iff`). -/

namespace OperationGraph

/-! ### First occurrences -/

/-- A list has the names of a sequence, in the order in which they occur first. -/
structure InFirstOrder (xs ys : List String) : Prop where
  mem_iff : ∀ x, x ∈ ys ↔ x ∈ xs
  ordered : ys.Pairwise fun x y => xs.idxOf x < xs.idxOf y

/-- Puts a name at the end unless it is there. -/
def addLast (ys : List String) (x : String) : List String := if x ∈ ys then ys else ys ++ [x]

theorem addLast_cons (y : String) (ys : List String) (x : String) :
    addLast (y :: ys) x = if y = x then y :: ys else y :: addLast ys x := by
  by_cases hy : y = x
  · simp [addLast, hy]
  · by_cases hmem : x ∈ ys
    · simp [addLast, hmem, hy]
    · simp [addLast, hmem, hy, Ne.symm hy]

theorem InFirstOrder.nil : InFirstOrder [] [] := ⟨fun _ => Iff.rfl, .nil⟩

theorem InFirstOrder.concat {xs ys : List String} (h : InFirstOrder xs ys) (x : String) :
    InFirstOrder (xs ++ [x]) (addLast ys x) := by
  -- what occurred before has the same first occurrence as before
  have hkept : ∀ y ∈ ys, (xs ++ [x]).idxOf y = xs.idxOf y := by
    intro y hy
    rw [List.idxOf_append, if_pos ((h.mem_iff y).1 hy)]
  have hordered : ys.Pairwise fun y z => (xs ++ [x]).idxOf y < (xs ++ [x]).idxOf z := by
    refine h.ordered.imp_of_mem fun hy hz hlt => ?_
    rwa [hkept _ hy, hkept _ hz]
  by_cases hx : x ∈ ys
  · rw [addLast, if_pos hx]
    refine ⟨fun y => ?_, hordered⟩
    rw [h.mem_iff, List.mem_append, List.mem_singleton]
    exact ⟨.inl, fun hy => hy.elim id fun heq => heq ▸ (h.mem_iff x).1 hx⟩
  · rw [addLast, if_neg hx]
    refine ⟨fun y => by simp [h.mem_iff], ?_⟩
    refine List.pairwise_append.2 ⟨hordered, List.pairwise_singleton _ _, fun y hy z hz => ?_⟩
    obtain rfl := List.mem_singleton.1 hz
    have hlast : (xs ++ [z]).idxOf z = xs.length := by
      rw [List.idxOf_append, if_neg fun hz => hx ((h.mem_iff z).2 hz)]
      simp
    rw [hkept y hy, hlast]
    exact List.idxOf_lt_length_iff.2 ((h.mem_iff y).1 hy)

/-! ### Keys and object types in order -/

namespace FieldGroups

def group (g : FieldGroups) (key : String) : List MergedField :=
  match g.find? (·.1 = key) with
  | some p => p.2
  | none => []

@[simp] theorem group_nil (key : String) : group [] key = [] := rfl

theorem group_cons (p : String × List MergedField) (g : FieldGroups) (key : String) :
    group (p :: g) key = if p.1 = key then p.2 else group g key := by
  by_cases h : p.1 = key <;> simp [group, h]

theorem keys_add (key : String) (t : NamedType) (f : OutputField) (node : Field) (g : FieldGroups) :
    (g.add key t f node).map (·.1) = addLast (g.map (·.1)) key := by
  induction g with
  | nil => rfl
  | cons p rest ih =>
    unfold add
    rw [List.map_cons, addLast_cons]
    split
    · rfl
    · rw [List.map_cons, ih]

theorem group_add (key : String) (t : NamedType) (f : OutputField) (node : Field) (g : FieldGroups)
    (k : String) :
    (g.add key t f node).group k =
      if key = k then addTyped key t f node (g.group k) else g.group k := by
  induction g with
  | nil => by_cases hk : key = k <;> simp [add, group_cons, hk]
  | cons p rest ih =>
    unfold add
    by_cases hp : p.1 = key
    · by_cases hk : key = k <;> simp [hp, group_cons, hk]
    · rw [if_neg hp, group_cons, ih, group_cons]
      by_cases hk : key = k
      · simp [← hk, hp]
      · simp [hk]

/-- The merged fields of a key are made by the additions under it alone. -/
theorem group_addAll (g : FieldGroups) (as : List Addition) (key : String) :
    (g.addAll as).group key =
      (as.filter (·.key = key)).foldl
        (fun ms a => addTyped a.key a.type a.definition a.node ms) (g.group key) := by
  induction as generalizing g with
  | nil => rfl
  | cons a as ih =>
    rw [addAll_cons, ih, group_add]
    by_cases hk : a.key = key <;> simp [hk]

theorem WellFormed.group_eq {g : FieldGroups} (h : g.WellFormed) {p : String × List MergedField}
    (hp : p ∈ g) : g.group p.1 = p.2 := by
  induction g with
  | nil => cases hp
  | cons q rest ih =>
    have hnodup := List.nodup_cons.1 h.keys_nodup
    rw [group_cons]
    rcases List.mem_cons.1 hp with rfl | hrest
    · rw [if_pos rfl]
    · have hne : q.1 ≠ p.1 := fun heq => hnodup.1 (List.mem_map.2 ⟨p, hrest, heq.symm⟩)
      rw [if_neg hne]
      exact ih ⟨hnodup.2, fun r hr => h.key_eq r (List.mem_cons_of_mem q hr)⟩ hrest

theorem WellFormed.toList_eq {g : FieldGroups} (h : g.WellFormed) :
    g.toList = (g.map (·.1)).flatMap g.group := by
  rw [toList, List.flatMap_map]
  exact List.flatMap_congr fun p hp => (h.group_eq hp).symm

theorem types_addTyped (key : String) (t : NamedType) (f : OutputField) (node : Field)
    (ms : List MergedField) :
    (addTyped key t f node ms).map (·.objectType.name) =
      addLast (ms.map (·.objectType.name)) t.name := by
  induction ms with
  | nil => rfl
  | cons m rest ih =>
    unfold addTyped
    rw [List.map_cons, addLast_cons]
    split
    · rfl
    · rw [List.map_cons, ih]

/-- Keys are in the order of their first additions. -/
theorem inFirstOrder_keys (as : List Addition) :
    InFirstOrder (as.map (·.key)) ((addAll [] as).map (·.1)) := by
  induction as using List.reverseRecOn with
  | nil => exact .nil
  | append_singleton as a ih =>
    have hkeys : (addAll [] (as ++ [a])).map (·.1) = addLast ((addAll [] as).map (·.1)) a.key := by
      rw [addAll_append]
      exact keys_add a.key a.type a.definition a.node _
    rw [hkeys, List.map_append]
    exact ih.concat a.key

/-- Object types are in the order of their first additions under a key. -/
theorem inFirstOrder_types (as : List Addition) (key : String) :
    InFirstOrder ((as.filter (·.key = key)).map (·.type.name))
      (((addAll [] as).group key).map (·.objectType.name)) := by
  rw [group_addAll, group_nil]
  generalize as.filter (·.key = key) = bs
  induction bs using List.reverseRecOn with
  | nil => exact .nil
  | append_singleton bs a ih =>
    rw [List.foldl_append, List.map_append, List.foldl_cons, List.foldl_nil, types_addTyped]
    exact ih.concat a.type.name

end FieldGroups

/-! ### Merged fields in order -/

namespace Addition

def pair (a : Addition) : String × String := (a.key, a.type.name)

/-- A pair comes before another if its key occurs first earlier among all additions, or if the keys are
the same and its object type occurs first earlier among the additions under the key. -/
def Precedes (as : List Addition) (p q : String × String) : Prop :=
  let keys := as.map (·.key)
  let types := (as.filter (·.key = p.1)).map (·.type.name)
  keys.idxOf p.1 < keys.idxOf q.1 ∨ p.1 = q.1 ∧ types.idxOf p.2 < types.idxOf q.2

theorem Precedes.asymm {as : List Addition} {p q : String × String} (h : Precedes as p q) :
    ¬ Precedes as q p := by
  rintro (hkeys | ⟨heq, htypes⟩)
  · rcases h with h | ⟨heq, -⟩
    · omega
    · simp [heq] at hkeys
  · rcases h with h | ⟨-, h⟩
    · simp [heq] at h
    · rw [heq] at htypes
      omega

end Addition

def MergedField.pair (m : MergedField) : String × String := (m.key, m.objectType.name)

/-- Merged fields are those of a sequence of additions: one for each key and object type added, in the
order of first occurrences, with the nodes that were added to it, and with the object type and the
definition of the first addition to it. -/
structure MergesInOrder (as : List Addition) (ms : List MergedField) : Prop where
  once : (ms.map (·.pair)).Nodup
  mem_iff : ∀ p, p ∈ ms.map (·.pair) ↔ p ∈ as.map (·.pair)
  ordered : (ms.map (·.pair)).Pairwise (Addition.Precedes as)
  nodes : ∀ m ∈ ms, m.nodes = (as.filter (·.pair = m.pair)).map (·.node)
  first : ∀ m ∈ ms, ∃ a, as.find? (·.pair = m.pair) = some a ∧
    m.objectType = a.type ∧ m.definition = a.definition

namespace MergesInOrder
variable {as : List Addition} {ms ns : List MergedField}

/-- A merged field is the merge of the additions to it. -/
theorem merge_eq (h : MergesInOrder as ms) {m : MergedField} (hm : m ∈ ms) :
    Addition.merge (as.filter (·.pair = m.pair)) = some m := by
  obtain ⟨a, hfind, htype, hdefinition⟩ := h.first m hm
  have hnodes := h.nodes m hm
  have hkey : a.key = m.key := by
    have hpair : a.pair = m.pair := by simpa using List.find?_some hfind
    exact congrArg Prod.fst hpair
  rw [← List.head?_filter] at hfind
  obtain ⟨bs, hbs⟩ := List.head?_eq_some_iff.1 hfind
  rw [hbs] at hnodes ⊢
  cases m
  simp_all [Addition.merge]

/-- The pairs tell the order, and a pair tells its merged field, so there is one such list only. -/
theorem unique (h : MergesInOrder as ms) (h' : MergesInOrder as ns) : ms = ns := by
  have hperm : (ms.map (·.pair)).Perm (ns.map (·.pair)) :=
    (List.perm_ext_iff_of_nodup h.once h'.once).2 fun p => (h.mem_iff p).trans (h'.mem_iff p).symm
  have hpairs : ms.map (·.pair) = ns.map (·.pair) :=
    hperm.eq_of_pairwise (fun p q _ _ hpq hqp => absurd hqp hpq.asymm) h.ordered h'.ordered
  have hsome : ∀ {ls : List MergedField}, MergesInOrder as ls →
      ls.map some = (ls.map (·.pair)).map fun p => Addition.merge (as.filter (·.pair = p)) := by
    intro ls hls
    rw [List.map_map]
    exact List.map_congr_left fun m hm => (hls.merge_eq hm).symm
  have hmap : ms.map some = ns.map some := by rw [hsome h, hsome h', hpairs]
  exact List.map_injective_iff.2 (fun _ _ => Option.some.inj) hmap

end MergesInOrder

namespace FieldGroups

theorem isFor_eq_pair (key type : String) :
    Addition.isFor key type = fun a => decide (a.pair = (key, type)) := by
  funext a
  simp [Addition.pair, Addition.isFor]

theorem merge_of_mem {as : List Addition} {m : MergedField} (h : m ∈ (addAll [] as).toList) :
    Addition.merge (as.filter (·.pair = m.pair)) = some m := by
  have hmem : m ∈ (addAll [] as).toList.filter (MergedField.isFor m.key m.objectType.name) :=
    List.mem_filter.2 ⟨h, by simp [MergedField.isFor]⟩
  rw [filter_toList_addAll, isFor_eq_pair] at hmem
  exact Option.mem_toList.1 hmem

/-- The first addition to a merged field gives its object type and its definition. -/
theorem exists_first {as : List Addition} {m : MergedField}
    (h : Addition.merge (as.filter (·.pair = m.pair)) = some m) :
    ∃ a, as.find? (·.pair = m.pair) = some a ∧ m.objectType = a.type ∧ m.definition = a.definition := by
  rw [← List.head?_filter]
  cases hfilter : as.filter (·.pair = m.pair) with
  | nil => simp [hfilter, Addition.merge] at h
  | cons a bs =>
    rw [hfilter, Addition.merge, Option.some.injEq] at h
    exact ⟨a, rfl, h ▸ rfl, h ▸ rfl⟩

theorem nodes_of_merge {as : List Addition} {m : MergedField} (h : Addition.merge as = some m) :
    m.nodes = as.map (·.node) := by
  cases as with
  | nil => cases h
  | cons a bs =>
    rw [Addition.merge, Option.some.injEq] at h
    exact h ▸ rfl

/-- What is merged is what is added. -/
theorem mem_pairs_iff (as : List Addition) (p : String × String) :
    p ∈ (addAll [] as).toList.map (·.pair) ↔ p ∈ as.map (·.pair) := by
  constructor
  · intro hp
    obtain ⟨m, hm, rfl⟩ := List.mem_map.1 hp
    obtain ⟨a, hfind, -⟩ := exists_first (merge_of_mem hm)
    exact List.mem_map.2 ⟨a, List.mem_of_find?_eq_some hfind, by simpa using List.find?_some hfind⟩
  · intro hp
    obtain ⟨a, ha, rfl⟩ := List.mem_map.1 hp
    have hfor : a ∈ as.filter (Addition.isFor a.key a.type.name) :=
      List.mem_filter.2 ⟨ha, by simp [Addition.isFor]⟩
    obtain ⟨m, hmerge⟩ : ∃ m, Addition.merge (as.filter (Addition.isFor a.key a.type.name)) = some m := by
      cases hfilter : as.filter (Addition.isFor a.key a.type.name) with
      | nil => simp [hfilter] at hfor
      | cons b bs => exact ⟨_, rfl⟩
    have hmem : m ∈ (addAll [] as).toList.filter (MergedField.isFor a.key a.type.name) := by
      rw [filter_toList_addAll, hmerge]
      exact List.mem_singleton_self m
    obtain ⟨hm, hisFor⟩ := List.mem_filter.1 hmem
    refine List.mem_map.2 ⟨m, hm, ?_⟩
    simpa [MergedField.isFor, MergedField.pair, Addition.pair] using hisFor

/-- Within a key the order of object types counts, and between keys the order of keys. -/
theorem ordered_toList (as : List Addition) :
    ((addAll [] as).toList.map (·.pair)).Pairwise (Addition.Precedes as) := by
  have hwf := WellFormed.nil.addAll as
  have hkey : ∀ k ∈ (addAll [] as).map (·.1), ∀ m ∈ (addAll [] as).group k, m.key = k := by
    intro k hk m hm
    obtain ⟨p, hp, rfl⟩ := List.mem_map.1 hk
    exact hwf.key_eq p hp m (hwf.group_eq hp ▸ hm)
  rw [hwf.toList_eq, List.pairwise_map, List.pairwise_flatMap]
  constructor
  · intro k hk
    refine (List.pairwise_map.1 (inFirstOrder_types as k).ordered).imp_of_mem fun hm hn hlt => ?_
    refine .inr ⟨(hkey k hk _ hm).trans (hkey k hk _ hn).symm, ?_⟩
    simp only [MergedField.pair, hkey k hk _ hm]
    exact hlt
  · refine (inFirstOrder_keys as).ordered.imp_of_mem fun hk hl hlt m hm n hn => ?_
    refine .inl ?_
    simp only [MergedField.pair, hkey _ hk m hm, hkey _ hl n hn]
    exact hlt

theorem mergesInOrder_toList (as : List Addition) : MergesInOrder as (addAll [] as).toList where
  once := nodup_toList_addAll as
  mem_iff := mem_pairs_iff as
  ordered := ordered_toList as
  nodes _ hm := nodes_of_merge (merge_of_mem hm)
  first _ hm := exists_first (merge_of_mem hm)

/-- Merged fields fit a sequence of additions to nothing exactly if they are its list. -/
theorem mergesInOrder_iff (as : List Addition) (ms : List MergedField) :
    MergesInOrder as ms ↔ ms = (addAll [] as).toList :=
  ⟨fun h => h.unique (mergesInOrder_toList as), fun h => h ▸ mergesInOrder_toList as⟩

end FieldGroups

end OperationGraph
