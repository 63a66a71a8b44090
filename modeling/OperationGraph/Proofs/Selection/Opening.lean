import OperationGraph.Selection.Collect

/-! # What a walk does at a selection

A walk over selections passes a selection by, comes to a field node, fails, or goes on inside with what
a fragment adds to the place. Going on inside leaves less to walk. -/

namespace OperationGraph

/-- Where a selection stands: the possible types of the conditions around it, the outermost first, the
fragments around it, the innermost first, and the type it is selected on. -/
structure Place where
  guards : List (List NamedType) := []
  fragments : List String := []
  parent : NamedType

/-- What entering a fragment adds to a place: the condition with its possible types, and the name. -/
structure Scope where
  guard : Option (List NamedType × NamedType) := none
  fragment : Option String := none

def Place.enter (p : Place) (sc : Scope) : Place where
  guards := p.guards ++ (sc.guard.map (·.1)).toList
  fragments := sc.fragment.toList ++ p.fragments
  parent := (sc.guard.map (·.2)).getD p.parent

@[simp] theorem Place.parent_enter (p : Place) (g : List NamedType × NamedType)
    (name : Option String) : (p.enter ⟨some g, name⟩).parent = g.2 := rfl

mutual

/-- The number of selections in a selection, those below field nodes left out. -/
def Selection.weight : Selection → Nat
  | .field _ => 1
  | .inline _ _ selections _ => Selection.weights selections + 1
  | .spread .. => 1

/-- The number of selections in a selection set, those below field nodes left out. -/
def Selection.weights : List Selection → Nat
  | [] => 0
  | s :: rest => s.weight + Selection.weights rest

end

theorem Selection.weight_pos (s : Selection) : 0 < s.weight := by
  cases s <;> simp [weight]

theorem Selection.weights_append (A B : List Selection) :
    Selection.weights (A ++ B) = Selection.weights A + Selection.weights B := by
  induction A with
  | nil => simp [weights]
  | cons s rest ih =>
    simp only [List.cons_append, weights, ih]
    omega

/-- What a walk does at a selection: it passes by, comes to a node, fails, or goes on inside. -/
inductive Opening where
  | nothing
  | node (n : Field)
  | fault (e : AnalysisError)
  | body (scope : Scope) (selections : List Selection)

namespace Collector

def guard (c : Collector) (name : String) (pos : Position) :
    Except AnalysisError (List NamedType × NamedType) :=
  match c.conditionType name (some pos) with
  | .error e => .error e
  | .ok t =>
    match c.possibleTypes t (some pos) with
    | .error e => .error e
    | .ok admitted => .ok (admitted, t)

/-- What a walk does at a selection when it has entered some fragments already. -/
def opening (c : Collector) (visited : List String) : Selection → Opening
  | .field n => if isIncluded n.directives c.variableValues then .node n else .nothing
  | .inline condition ds selections pos =>
    if isIncluded ds c.variableValues then
      match condition with
      | none => .body {} selections
      | some name =>
        match c.guard name pos with
        | .error e => .fault e
        | .ok g => .body { guard := some g } selections
    else .nothing
  | .spread name ds pos =>
    if isIncluded ds c.variableValues then
      if visited.contains name then .nothing
      else
        match c.fragment? name with
        | none => .fault (.at_ pos (.unknownFragment name))
        | some f =>
          match c.guard f.condition f.pos with
          | .error e => .fault e
          | .ok g => .body { guard := some g, fragment := some name } f.selections
    else .nothing

/-- The ways to go on inside a selection. -/
inductive Opens (c : Collector) (visited : List String) : Selection → Scope → List Selection → Prop
  | plain {ds selections pos} (hi : isIncluded ds c.variableValues) :
      Opens c visited (.inline none ds selections pos) {} selections
  | narrowed {name ds selections pos g} (hi : isIncluded ds c.variableValues)
      (hg : c.guard name pos = .ok g) :
      Opens c visited (.inline (some name) ds selections pos) { guard := some g } selections
  | fragment {name ds pos f g} (hi : isIncluded ds c.variableValues) (hv : name ∉ visited)
      (hf : c.fragment? name = some f) (hg : c.guard f.condition f.pos = .ok g) :
      Opens c visited (.spread name ds pos) { guard := some g, fragment := some name } f.selections

theorem opening_eq_body_iff {c : Collector} {visited : List String} {s : Selection} {sc : Scope}
    {selections : List Selection} :
    c.opening visited s = .body sc selections ↔ Opens c visited s sc selections := by
  constructor
  · intro h
    cases s with
    | field n =>
      simp only [opening] at h
      split at h <;> cases h
    | inline condition ds sels pos =>
      simp only [opening] at h
      split at h
      · next hi =>
        cases condition with
        | none =>
          cases h
          exact .plain hi
        | some name =>
          dsimp only at h
          cases hg : c.guard name pos with
          | error e => simp [hg] at h
          | ok g =>
            rw [hg] at h
            cases h
            exact .narrowed hi hg
      · cases h
    | spread name ds pos =>
      simp only [opening] at h
      split at h
      · next hi =>
        split at h
        · cases h
        · next hv =>
          cases hf : c.fragment? name with
          | none => simp [hf] at h
          | some f =>
            cases hg : c.guard f.condition f.pos with
            | error e => simp [hf, hg] at h
            | ok g =>
              simp only [hf, hg] at h
              cases h
              exact .fragment hi (by simpa using hv) hf hg
      · cases h
  · intro h
    cases h with
    | plain hi => simp [opening, hi]
    | narrowed hi hg => simp [opening, hi, hg]
    | fragment hi hv hf hg => simp [opening, hi, hv, hf, hg]

theorem opening_eq_node {c : Collector} {visited : List String} {s : Selection} {n : Field}
    (h : c.opening visited s = .node n) :
    s = .field n ∧ isIncluded n.directives c.variableValues := by
  cases s with
  | field m =>
    simp only [opening] at h
    split at h
    · next hi =>
      cases h
      exact ⟨rfl, hi⟩
    · cases h
  | inline condition ds body pos =>
    cases condition <;> simp only [opening] at h <;> (repeat' split at h) <;> cases h
  | spread name ds pos =>
    simp only [opening] at h
    (repeat' split at h) <;> cases h

theorem opening_eq_nothing {c : Collector} {visited : List String} {s : Selection}
    (h : c.opening visited s = .nothing) :
    isIncluded s.directives c.variableValues = false ∨
      ∃ name ds pos, s = .spread name ds pos ∧ name ∈ visited := by
  cases hi : isIncluded s.directives c.variableValues with
  | false => exact .inl rfl
  | true =>
    cases s with
    | field m => simp_all [opening, Selection.directives]
    | inline condition ds body pos =>
      simp only [opening, Selection.directives] at hi h
      cases condition with
      | none => simp [hi] at h
      | some name => cases hg : c.guard name pos <;> simp [hi, hg] at h
    | spread name ds pos =>
      refine .inr ⟨name, ds, pos, rfl, ?_⟩
      by_cases hv : name ∈ visited
      · exact hv
      · simp only [opening, Selection.directives] at hi h
        simp only [hi, if_true, List.contains_eq_mem, hv, decide_false, Bool.false_eq_true,
          if_false] at h
        (repeat' split at h) <;> cases h

/-- A walk fails at a condition without possible types or at an unknown fragment. -/
theorem opening_eq_fault {c : Collector} {visited : List String} {s : Selection}
    {e : AnalysisError} (h : c.opening visited s = .fault e) :
    (∃ name ds body pos, s = .inline (some name) ds body pos ∧ c.guard name pos = .error e) ∨
      ∃ name ds pos, s = .spread name ds pos ∧
        (c.fragment? name = none ∧ e = .at_ pos (.unknownFragment name) ∨
          ∃ f, c.fragment? name = some f ∧ c.guard f.condition f.pos = .error e) := by
  cases s with
  | field m =>
    simp only [opening] at h
    split at h <;> cases h
  | inline condition ds body pos =>
    simp only [opening] at h
    split at h
    · cases condition with
      | none => cases h
      | some name =>
        dsimp only at h
        cases hg : c.guard name pos with
        | error e =>
          rw [hg] at h
          cases h
          exact .inl ⟨name, ds, body, pos, rfl, hg⟩
        | ok g => simp [hg] at h
    · cases h
  | spread name ds pos =>
    refine .inr ⟨name, ds, pos, rfl, ?_⟩
    cases hf : c.fragment? name with
    | none =>
      simp only [opening, hf] at h
      split at h
      · split at h <;> cases h
        exact .inl ⟨rfl, rfl⟩
      · cases h
    | some f =>
      refine .inr ⟨f, rfl, ?_⟩
      simp only [opening, hf] at h
      split at h
      · split at h
        · cases h
        · cases hg : c.guard f.condition f.pos with
          | error e =>
            rw [hg] at h
            cases h
            rfl
          | ok g => simp [hg] at h
      · cases h

def unvisited (c : Collector) (visited : List String) : Nat :=
  c.fragments.countP fun f => !visited.contains f.name

theorem unvisited_le_length (c : Collector) (visited : List String) :
    c.unvisited visited ≤ c.fragments.length := List.countP_le_length

theorem unvisited_mono {c : Collector} {v w : List String} (h : v ⊆ w) :
    c.unvisited w ≤ c.unvisited v := by
  apply List.countP_mono_left
  intro f _ hf
  simp only [List.contains_eq_mem, Bool.not_eq_true', decide_eq_false_iff_not] at hf ⊢
  exact fun hv => hf (h hv)

/-- Entering a fragment leaves fewer to enter. -/
theorem unvisited_cons_lt {c : Collector} {name : String} {f : Fragment} {v : List String}
    (hf : c.fragment? name = some f) (hv : name ∉ v) :
    c.unvisited (name :: v) < c.unvisited v := by
  have hmem := List.mem_of_find?_eq_some hf
  have hname : f.name = name := by simpa using List.find?_some hf
  obtain ⟨before, after, hsplit⟩ := List.append_of_mem hmem
  have hle (fs : List Fragment) : (fs.countP fun f => !(name :: v).contains f.name) ≤
      fs.countP fun f => !v.contains f.name :=
    List.countP_mono_left fun g _ hg => by simp_all
  have hbefore := hle before
  have hafter := hle after
  simp only [unvisited, hsplit, List.countP_append, List.countP_cons]
  simp only [hname, List.contains_eq_mem, List.mem_cons, true_or, hv, decide_true, decide_false,
    Bool.not_true, Bool.not_false, if_true] at hbefore hafter ⊢
  simp only [Bool.false_eq_true, if_false]
  omega

/-- The number of selections that wait, with those inside them. -/
def pending (items : List (Place × Selection)) : Nat := Selection.weights (items.map (·.2))

theorem pending_body (p : Place) (selections : List Selection)
    (rest : List (Place × Selection)) :
    pending (selections.map (p, ·) ++ rest) = Selection.weights selections + pending rest := by
  simp [pending, Function.comp_def, Selection.weights_append]

theorem opens_decreases {c : Collector} {v : List String} {s : Selection} {sc : Scope}
    {selections : List Selection} (h : Opens c v s sc selections) (p q : Place)
    (rest : List (Place × Selection)) :
    Prod.Lex (· < ·) (· < ·)
      (c.unvisited (sc.fragment.toList ++ v), pending (selections.map (q, ·) ++ rest))
      (c.unvisited v, pending ((p, s) :: rest)) := by
  cases h with
  | plain hi =>
    refine Prod.Lex.right _ ?_
    rw [pending_body]
    simp only [pending, List.map_cons, Selection.weights, Selection.weight]
    omega
  | narrowed hi hg =>
    refine Prod.Lex.right _ ?_
    rw [pending_body]
    simp only [pending, List.map_cons, Selection.weights, Selection.weight]
    omega
  | fragment hi hv hf hg => exact Prod.Lex.left _ _ (unvisited_cons_lt hf hv)

end Collector

end OperationGraph
