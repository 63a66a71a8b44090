import OperationGraph.Proofs.Selection.Origin

/-! # Fragments that make no difference

Collecting looks up the fragments whose names it can come to from the selections, and no others. Two lists
of fragments that agree on those names give the same merged fields, with the same error if there is one, and
still agree on what can be come to below each of the fields. -/

namespace OperationGraph

/-- A name that can be come to from a selection set, by spreads, inline fragments and the selections of
fields. The first fragment of a name is the one that its spreads stand for. -/
inductive Mentions (fragments : List Fragment) : List Selection → String → Prop
  | spread {selections name ds pos} (hmem : .spread name ds pos ∈ selections) :
      Mentions fragments selections name
  | inline {selections condition ds body pos name}
      (hmem : .inline condition ds body pos ∈ selections) (h : Mentions fragments body name) :
      Mentions fragments selections name
  | field {selections n name} (hmem : .field n ∈ selections)
      (h : Mentions fragments n.selections name) : Mentions fragments selections name
  | inside {selections via ds pos f name} (hmem : .spread via ds pos ∈ selections)
      (hf : fragments.find? (·.name = via) = some f) (h : Mentions fragments f.selections name) :
      Mentions fragments selections name

section
variable {fragments fragments' : List Fragment} {selections : List Selection}

theorem Mentions.mono {others : List Selection} {name : String}
    (h : Mentions fragments selections name) (hsub : selections ⊆ others) :
    Mentions fragments others name := by
  cases h with
  | spread hmem => exact .spread (hsub hmem)
  | inline hmem h => exact .inline (hsub hmem) h
  | field hmem h => exact .field (hsub hmem) h
  | inside hmem hf h => exact .inside (hsub hmem) hf h

/-- What can be come to below a node can be come to from where the node is. -/
theorem Selects.mentions {n : Field} {name : String} (hn : Selects fragments selections n)
    (h : Mentions fragments n.selections name) : Mentions fragments selections name := by
  induction hn with
  | field hmem => exact .field hmem h
  | inline hmem _ ih => exact .inline hmem (ih h)
  | spread hmem hf _ ih => exact .inside hmem hf (ih h)

/-- Every name that can be come to from a selection set has the same first fragment in both lists, or none
in either. -/
def AgreeOn (fragments fragments' : List Fragment) (selections : List Selection) : Prop :=
  ∀ name, Mentions fragments selections name →
    fragments'.find? (·.name = name) = fragments.find? (·.name = name)

namespace AgreeOn

theorem mono {others : List Selection} (h : AgreeOn fragments fragments' others)
    (hsub : selections ⊆ others) : AgreeOn fragments fragments' selections :=
  fun name hname => h name (hname.mono hsub)

theorem singleton (h : AgreeOn fragments fragments' selections) {s : Selection}
    (hs : s ∈ selections) : AgreeOn fragments fragments' [s] :=
  h.mono (List.cons_subset.2 ⟨hs, List.nil_subset _⟩)

theorem below {n : Field} (h : AgreeOn fragments fragments' selections)
    (hn : Selects fragments selections n) : AgreeOn fragments fragments' n.selections :=
  fun name hname => h name (hn.mentions hname)

end AgreeOn

end

namespace Collector
variable {c : Collector} {fragments : List Fragment}

/-! ### One selection -/

theorem opening_of_agreeOn {s : Selection} (h : AgreeOn c.fragments fragments [s])
    (v : List String) : opening { c with fragments } v s = c.opening v s := by
  cases s with
  | field n => rfl
  | inline condition ds body pos => rfl
  | spread name ds pos =>
    have hf : fragment? { c with fragments } name = c.fragment? name :=
      h name (.spread List.mem_cons_self)
    simp only [opening, hf]
    rfl

/-- Inside a selection nothing can be come to that could not be come to from it. -/
theorem Opens.agreeOn {v : List String} {s : Selection} {sc : Scope} {body : List Selection}
    (ho : Opens c v s sc body) (h : AgreeOn c.fragments fragments [s]) :
    AgreeOn c.fragments fragments body := by
  intro name hname
  cases ho with
  | plain hi => exact h name (.inline List.mem_cons_self hname)
  | narrowed hi hg => exact h name (.inline List.mem_cons_self hname)
  | fragment hi hv hf hg => exact h name (.inside List.mem_cons_self hf hname)

/-! ### A walk -/

theorem visits_of_agreeOn (items : List (Place × Selection)) (v : List String)
    (h : ∀ i ∈ items, AgreeOn c.fragments fragments [i.2]) :
    visits { c with fragments } items v = c.visits items v := by
  fun_induction visits c items v with
  | case1 v => rw [visits_nil]
  | case2 p s rest v ho ih =>
    obtain ⟨hs, hrest⟩ := List.forall_mem_cons.1 h
    rw [visits_cons_nothing ((opening_of_agreeOn hs v).trans ho), ih hrest]
  | case3 p s rest v n ho ih =>
    obtain ⟨hs, hrest⟩ := List.forall_mem_cons.1 h
    rw [visits_cons_node ((opening_of_agreeOn hs v).trans ho), ih hrest]
  | case4 p s rest v e ho ih =>
    obtain ⟨hs, hrest⟩ := List.forall_mem_cons.1 h
    rw [visits_cons_fault ((opening_of_agreeOn hs v).trans ho), ih hrest]
  | case5 p s rest v sc body ho ih =>
    obtain ⟨hs, hrest⟩ := List.forall_mem_cons.1 h
    have hbody := (opening_eq_body_iff.1 ho).agreeOn hs
    rw [visits_cons_body ((opening_of_agreeOn hs v).trans ho), ih]
    refine List.forall_mem_append.2 ⟨List.forall_mem_map.2 fun t ht => ?_, hrest⟩
    exact hbody.singleton ht

theorem visitsOf_of_agreeOn {selections : List Selection}
    (h : AgreeOn c.fragments fragments selections) (parent : NamedType) :
    visitsOf { c with fragments } parent selections = c.visitsOf parent selections := by
  have hvisits := visits_of_agreeOn (selections.map (({ parent } : Place), ·)) []
    (List.forall_mem_map.2 fun s hs => h.singleton hs)
  exact congrArg Prod.fst hvisits

/-! ### Merged fields -/

theorem collectFields_of_agreeOn {sets : List (List Selection)}
    (h : ∀ selections ∈ sets, AgreeOn c.fragments fragments selections) (possible : TypeSet)
    (parent : NamedType) :
    collectFields { c with fragments } sets possible parent =
      c.collectFields sets possible parent := by
  have hvisits : sets.flatMap (visitsOf { c with fragments } parent) =
      sets.flatMap (c.visitsOf parent) :=
    List.flatMap_congr fun selections hmem => visitsOf_of_agreeOn (h selections hmem) parent
  rw [collectFields, collectFields, collectGroups_eq_visits, collectGroups_eq_visits, hvisits]

theorem rootFields_of_agreeOn {op : Operation} (h : AgreeOn c.fragments fragments op.selections)
    (root : NamedType) : rootFields { c with fragments } op root = c.rootFields op root :=
  collectFields_of_agreeOn (List.forall_mem_singleton.2 h) (some [root]) root

theorem childFields_of_agreeOn {m : MergedField}
    (h : ∀ n ∈ m.nodes, AgreeOn c.fragments fragments n.selections) :
    childFields { c with fragments } m = c.childFields m := by
  have hsets (possible : TypeSet) (parent : NamedType) :=
    collectFields_of_agreeOn (List.forall_mem_map.2 h) possible parent
  simp only [childFields, hsets]
  rfl

/-- What agrees below a merged field agrees below the fields that are collected there. -/
theorem agreeOn_of_childFields {m : MergedField} {ms : List MergedField}
    (h : ∀ n ∈ m.nodes, AgreeOn c.fragments fragments n.selections)
    (hms : c.childFields m = .ok ms) :
    ∀ m' ∈ ms, ∀ n ∈ m'.nodes, AgreeOn c.fragments fragments n.selections := by
  intro m' hm' n hn
  obtain ⟨-, ts, -, -, hfrom⟩ := childFields_collectedFrom hms hm'
  obtain ⟨selections, hmem, hselects⟩ := hfrom.selected n hn
  obtain ⟨above, habove, rfl⟩ := List.mem_map.1 hmem
  exact (h above habove).below hselects

end Collector

end OperationGraph
