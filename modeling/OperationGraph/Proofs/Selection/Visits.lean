import OperationGraph.Proofs.Selection.Grouping
import OperationGraph.Proofs.Selection.Opening

/-! # Collecting as a list of visits

Which field nodes a walk over selections comes to, and in which order, depends neither on the object
types in question nor on what was collected before. A walk is therefore a list of visits, each of a
node at its place, and collecting adds the nodes of that list for the types possible at their places. -/

namespace OperationGraph

def TypeSet.within (possible : TypeSet) (p : Place) : TypeSet :=
  p.guards.foldl TypeSet.restrict possible

/-- A node at its place, or a fault in the way. -/
inductive Visit where
  | node (place : Place) (n : Field)
  | fault (e : AnalysisError)

namespace Collector

/-- The visits of a walk over selections at their places, and the fragments entered in the end. A walk
does not stop at a fault. -/
def visits (c : Collector) :
    List (Place × Selection) → List String → List Visit × List String
  | [], v => ([], v)
  | (p, s) :: rest, v =>
    match _h : c.opening v s with
    | .nothing => visits c rest v
    | .node n => (.node p n :: (visits c rest v).1, (visits c rest v).2)
    | .fault e => (.fault e :: (visits c rest v).1, (visits c rest v).2)
    | .body sc selections =>
      visits c (selections.map (p.enter sc, ·) ++ rest) (sc.fragment.toList ++ v)
termination_by items v => (c.unvisited v, pending items)
decreasing_by
  all_goals first
    | exact opens_decreases (opening_eq_body_iff.1 _h) p _ rest
    | exact Prod.Lex.right _ (by simp [pending, Selection.weights, Selection.weight_pos])

section
variable {c : Collector} {p : Place} {s : Selection} {rest : List (Place × Selection)}
  {v : List String}

theorem visits_cons_nothing (h : c.opening v s = .nothing) :
    c.visits ((p, s) :: rest) v = c.visits rest v := by
  rw [visits, h]

theorem visits_cons_node {n : Field} (h : c.opening v s = .node n) :
    c.visits ((p, s) :: rest) v = (.node p n :: (c.visits rest v).1, (c.visits rest v).2) := by
  rw [visits, h]

theorem visits_cons_fault {e : AnalysisError} (h : c.opening v s = .fault e) :
    c.visits ((p, s) :: rest) v = (.fault e :: (c.visits rest v).1, (c.visits rest v).2) := by
  rw [visits, h]

theorem visits_cons_body {sc : Scope} {selections : List Selection}
    (h : c.opening v s = .body sc selections) :
    c.visits ((p, s) :: rest) v =
      c.visits (selections.map (p.enter sc, ·) ++ rest) (sc.fragment.toList ++ v) := by
  rw [visits, h]

end

theorem visits_nil (c : Collector) (v : List String) : c.visits [] v = ([], v) := by
  rw [visits]

theorem visits_append (c : Collector) (A B : List (Place × Selection)) (v : List String) :
    c.visits (A ++ B) v = ((c.visits A v).1 ++ (c.visits B (c.visits A v).2).1,
      (c.visits B (c.visits A v).2).2) := by
  fun_induction visits c A v with
  | case1 v => simp
  | case2 p s rest v h ih => rw [List.cons_append, visits_cons_nothing h, ih]
  | case3 p s rest v n h ih => rw [List.cons_append, visits_cons_node h, ih, List.cons_append]
  | case4 p s rest v e h ih => rw [List.cons_append, visits_cons_fault h, ih, List.cons_append]
  | case5 p s rest v sc selections h ih =>
    rw [List.cons_append, visits_cons_body h, ← ih, List.append_assoc]

/-- A walk forgets no fragment that it has entered. -/
theorem subset_visits (c : Collector) (items : List (Place × Selection)) (v : List String) :
    v ⊆ (c.visits items v).2 := by
  fun_induction visits c items v with
  | case1 v => exact List.Subset.refl v
  | case2 p s rest v h ih => exact ih
  | case3 p s rest v n h ih => exact ih
  | case4 p s rest v e h ih => exact ih
  | case5 p s rest v sc selections h ih =>
    exact List.Subset.trans (List.subset_append_right _ v) ih

end Collector

/-- Adds the nodes of visits for the types possible at their places, up to the first fault. -/
def Visit.addAll (possible : TypeSet) : List Visit → FieldGroups → Except AnalysisError FieldGroups
  | [], g => .ok g
  | .fault e :: _, _ => .error e
  | .node p n :: rest, g =>
    match Collector.addField n p.parent (possible.within p).toList g with
    | .error e => .error e
    | .ok g => addAll possible rest g

theorem Visit.addAll_append (possible : TypeSet) (xs ys : List Visit) (g : FieldGroups) :
    addAll possible (xs ++ ys) g =
      match addAll possible xs g with
      | .error e => .error e
      | .ok g => addAll possible ys g := by
  fun_induction addAll possible xs g with
  | case1 g => rfl
  | case2 e rest g => rfl
  | case3 p n rest g e h => simp [addAll, h]
  | case4 p n rest g g' h ih => simp [addAll, h, ih]

def Visit.collected (possible : TypeSet) (r : List Visit × List String) (g : FieldGroups) :
    Except AnalysisError Collected :=
  match addAll possible r.1 g with
  | .error e => .error e
  | .ok groups => .ok { groups, visited := r.2 }

namespace Collector
variable {c : Collector} {possible : TypeSet}

theorem enterCondition_eq_guard (current : TypeSet) (name : String) (pos : Position) :
    c.enterCondition current name pos =
      match c.guard name pos with
      | .error e => .error e
      | .ok (admitted, t) => .ok (current.restrict admitted, t) := by
  unfold enterCondition guard narrow
  cases c.conditionType name (some pos) with
  | error e => rfl
  | ok t => cases h : c.possibleTypes t (some pos) <;> simp [h]

theorem within_enter (possible : TypeSet) (p : Place) (g : List NamedType × NamedType)
    (name : Option String) :
    possible.within (p.enter ⟨some g, name⟩) = (possible.within p).restrict g.1 := by
  simp [TypeSet.within, Place.enter]

theorem collected_append (A B : List (Place × Selection)) (v : List String) (g : FieldGroups) :
    Visit.collected possible (c.visits (A ++ B) v) g =
      match Visit.collected possible (c.visits A v) g with
      | .error e => .error e
      | .ok st => Visit.collected possible (c.visits B st.visited) st.groups := by
  rw [visits_append]
  simp only [Visit.collected, Visit.addAll_append]
  cases Visit.addAll possible (c.visits A v).1 g <;> rfl

theorem collected_cons (p : Place) (s : Selection) (rest : List (Place × Selection))
    (v : List String) (g : FieldGroups) :
    Visit.collected possible (c.visits ((p, s) :: rest) v) g =
      match Visit.collected possible (c.visits [(p, s)] v) g with
      | .error e => .error e
      | .ok st => Visit.collected possible (c.visits rest st.visited) st.groups :=
  collected_append [(p, s)] rest v g

section
variable {p : Place} {s : Selection} {v : List String} {g : FieldGroups}

theorem collected_nothing (h : c.opening v s = .nothing) :
    Visit.collected possible (c.visits [(p, s)] v) g = .ok ⟨g, v⟩ := by
  rw [visits_cons_nothing h, visits_nil]
  rfl

theorem collected_fault {e : AnalysisError} (h : c.opening v s = .fault e) :
    Visit.collected possible (c.visits [(p, s)] v) g = .error e := by
  rw [visits_cons_fault h]
  rfl

theorem collected_body {sc : Scope} {selections : List Selection}
    (h : Opens c v s sc selections) :
    Visit.collected possible (c.visits [(p, s)] v) g =
      Visit.collected possible
        (c.visits (selections.map (p.enter sc, ·)) (sc.fragment.toList ++ v)) g := by
  rw [visits_cons_body (opening_eq_body_iff.2 h), List.append_nil]

end

mutual

/-- Collecting from a selection adds the nodes of its visits. -/
theorem walkOne_eq_visits {enter : Enter} {fuel : Nat}
    (henter : ∀ name f p v g, c.fragment? name = some f → name ∉ v → c.unvisited v ≤ fuel →
      enter f (possible.within p) p.parent ⟨g, name :: v⟩ =
        Visit.collected possible (c.visits (f.selections.map (p, ·)) (name :: v)) g)
    (s : Selection) (p : Place) (v : List String) (g : FieldGroups) (hv : c.unvisited v ≤ fuel) :
    c.walkOne enter s (possible.within p) p.parent ⟨g, v⟩ =
      Visit.collected possible (c.visits [(p, s)] v) g := by
  match s with
  | .field n =>
    by_cases hi : isIncluded n.directives c.variableValues
    · have ho : c.opening v (.field n) = .node n := by simp [opening, hi]
      rw [walkOne, visits_cons_node ho, visits_nil, Visit.collected, Visit.addAll]
      cases addField n p.parent (possible.within p).toList g <;> simp [hi, Visit.addAll]
    · have ho : c.opening v (.field n) = .nothing := by simp [opening, hi]
      simp [walkOne, collected_nothing ho, hi]
  | .inline none ds selections pos =>
    by_cases hi : isIncluded ds c.variableValues
    · rw [collected_body (.plain hi)]
      simpa [walkOne, hi, Place.enter] using walk_eq_visits henter selections p v g hv
    · have ho : c.opening v (.inline none ds selections pos) = .nothing := by simp [opening, hi]
      simp [walkOne, collected_nothing ho, hi]
  | .inline (some name) ds selections pos =>
    by_cases hi : isIncluded ds c.variableValues
    · cases hg : c.guard name pos with
      | error e =>
        have ho : c.opening v (.inline (some name) ds selections pos) = .fault e := by
          simp [opening, hi, hg]
        simp [walkOne, collected_fault ho, hi, hg, enterCondition_eq_guard]
      | ok gt =>
        have h := walk_eq_visits henter selections (p.enter ⟨some gt, none⟩) v g hv
        rw [within_enter] at h
        rw [collected_body (.narrowed hi hg)]
        simpa [walkOne, hi, hg, enterCondition_eq_guard] using h
    · have ho : c.opening v (.inline (some name) ds selections pos) = .nothing := by
        simp [opening, hi]
      simp [walkOne, collected_nothing ho, hi]
  | .spread name ds pos =>
    by_cases hi : isIncluded ds c.variableValues
    · by_cases hmem : name ∈ v
      · have ho : c.opening v (.spread name ds pos) = .nothing := by simp [opening, hi, hmem]
        simp [walkOne, collected_nothing ho, hi, hmem]
      · cases hf : c.fragment? name with
        | none =>
          have ho : c.opening v (.spread name ds pos) =
              .fault (.at_ pos (.unknownFragment name)) := by simp [opening, hi, hmem, hf]
          simp [walkOne, collected_fault ho, hi, hmem, hf]
        | some f =>
          cases hg : c.guard f.condition f.pos with
          | error e =>
            have ho : c.opening v (.spread name ds pos) = .fault e := by
              simp [opening, hi, hmem, hf, hg]
            simp [walkOne, collected_fault ho, hi, hmem, hf, hg, enterCondition_eq_guard]
          | ok gt =>
            have h := henter name f (p.enter ⟨some gt, some name⟩) v g hf hmem hv
            rw [within_enter] at h
            rw [collected_body (.fragment hi hmem hf hg)]
            simpa [walkOne, hi, hmem, hf, hg, enterCondition_eq_guard] using h
    · have ho : c.opening v (.spread name ds pos) = .nothing := by simp [opening, hi]
      simp [walkOne, collected_nothing ho, hi]

/-- Collecting from a selection set adds the nodes of its visits. -/
theorem walk_eq_visits {enter : Enter} {fuel : Nat}
    (henter : ∀ name f p v g, c.fragment? name = some f → name ∉ v → c.unvisited v ≤ fuel →
      enter f (possible.within p) p.parent ⟨g, name :: v⟩ =
        Visit.collected possible (c.visits (f.selections.map (p, ·)) (name :: v)) g)
    (selections : List Selection) (p : Place) (v : List String) (g : FieldGroups)
    (hv : c.unvisited v ≤ fuel) :
    c.walk enter selections (possible.within p) p.parent ⟨g, v⟩ =
      Visit.collected possible (c.visits (selections.map (p, ·)) v) g := by
  match selections with
  | [] => simp [walk, visits, Visit.collected, Visit.addAll]
  | s :: rest =>
    have hs := walkOne_eq_visits henter s p v g hv
    have hmono : c.unvisited (c.visits [(p, s)] v).2 ≤ fuel :=
      Nat.le_trans (unvisited_mono (subset_visits c _ v)) hv
    have hrest := fun g => walk_eq_visits henter rest p (c.visits [(p, s)] v).2 g hmono
    rw [walk, hs, List.map_cons, collected_cons p s (rest.map (p, ·)), Visit.collected]
    cases Visit.addAll possible (c.visits [(p, s)] v).1 g with
    | error e => rfl
    | ok g => exact hrest g

end

/-- The bound on the depth of fragments is never reached. -/
theorem collectAt_eq_visits {fuel : Nat} (selections : List Selection) (p : Place)
    (v : List String) (g : FieldGroups) (hv : c.unvisited v ≤ fuel) :
    c.collectAt fuel selections (possible.within p) p.parent ⟨g, v⟩ =
      Visit.collected possible (c.visits (selections.map (p, ·)) v) g := by
  induction fuel generalizing selections p v g with
  | zero =>
    rw [collectAt]
    refine walk_eq_visits (fun name f p v g hf hmem hle => ?_) selections p v g hv
    have hlt := unvisited_cons_lt hf hmem
    omega
  | succ fuel ih =>
    rw [collectAt]
    refine walk_eq_visits (fun name f p v g hf hmem hle => ?_) selections p v g hv
    have hlt := unvisited_cons_lt hf hmem
    exact ih f.selections p (name :: v) g (by omega)

/-- The visits of a selection set that stands in no fragment. -/
def visitsOf (c : Collector) (parent : NamedType) (selections : List Selection) : List Visit :=
  (c.visits (selections.map ({ parent }, ·)) []).1

theorem collectGroups_eq_visits (parent : NamedType) (sets : List (List Selection))
    (g : FieldGroups) :
    c.collectGroups possible parent sets g =
      Visit.addAll possible (sets.flatMap (c.visitsOf parent)) g := by
  induction sets generalizing g with
  | nil => rfl
  | cons selections rest ih =>
    have h : c.collectAt c.fragments.length selections possible parent { groups := g } =
        Visit.collected possible (c.visits (selections.map ({ parent }, ·)) []) g :=
      collectAt_eq_visits selections { parent } [] g (unvisited_le_length c [])
    rw [collectGroups, collectInto, h, List.flatMap_cons, Visit.addAll_append, Visit.collected,
      visitsOf]
    cases Visit.addAll possible (c.visits (selections.map ({ parent }, ·)) []).1 g with
    | error e => rfl
    | ok g => exact ih g

end Collector

namespace Visit

/-- What is added for a node and object types in turn, up to the first type without the field. -/
def attributed (n : Field) : List NamedType → List Addition
  | [] => []
  | t :: rest =>
    match t.field? n.name with
    | some f => { key := n.key, type := t, definition := f, node := n } :: attributed n rest
    | none => []

def additions (possible : TypeSet) : Visit → List Addition
  | .node p n => attributed n (possible.within p).toList
  | .fault _ => []

/-- A visit is no error: every possible type has the field, or its name is reserved. -/
def Passes (possible : TypeSet) : Visit → Prop
  | .node p n => isMetaName n.name ∨ ∀ t ∈ (possible.within p).toList, (t.field? n.name).isSome
  | .fault _ => False

theorem addField_eq_ok_iff (n : Field) (parent : NamedType) (ts : List NamedType)
    (g g' : FieldGroups) :
    Collector.addField n parent ts g = .ok g' ↔
      (isMetaName n.name ∨ ∀ t ∈ ts, (t.field? n.name).isSome) ∧ g.addAll (attributed n ts) = g' := by
  induction ts generalizing g with
  | nil => simp [Collector.addField, attributed]
  | cons t rest ih =>
    cases hf : t.field? n.name with
    | some f =>
      rw [Collector.addField, attributed, hf]
      simpa [hf] using ih (g.add n.key t f n)
    | none =>
      rw [Collector.addField, attributed, hf]
      by_cases hm : isMetaName n.name <;> simp [hf, hm]

theorem addAll_eq_ok_iff (possible : TypeSet) (xs : List Visit) (g g' : FieldGroups) :
    addAll possible xs g = .ok g' ↔
      (∀ x ∈ xs, x.Passes possible) ∧ g.addAll (xs.flatMap (additions possible)) = g' := by
  induction xs generalizing g with
  | nil => simp [addAll]
  | cons x rest ih =>
    cases x with
    | fault e => simp [addAll, Passes]
    | node p n =>
      have hadd := addField_eq_ok_iff n p.parent (possible.within p).toList g
      rw [addAll]
      cases h : Collector.addField n p.parent (possible.within p).toList g with
      | error e =>
        have hfails : ¬ (Visit.node p n).Passes possible := fun hp => by
          simpa [h] using (hadd _).2 ⟨hp, rfl⟩
        simp [hfails]
      | ok g₁ =>
        obtain ⟨hp, rfl⟩ := (hadd g₁).1 h
        have hpasses : (Visit.node p n).Passes possible := hp
        simp [ih, hpasses, FieldGroups.addAll_append, additions]

end Visit

/-- Collecting succeeds if no visit is an error, and then gives the groups of all additions. -/
theorem Collector.collectFields_eq_ok_iff {c : Collector} {sets : List (List Selection)}
    {possible : TypeSet} {parent : NamedType} {ms : List MergedField} :
    c.collectFields sets possible parent = .ok ms ↔
      (∀ x ∈ sets.flatMap (c.visitsOf parent), x.Passes possible) ∧
        (FieldGroups.addAll []
          ((sets.flatMap (c.visitsOf parent)).flatMap (Visit.additions possible))).toList = ms := by
  have hiff := Visit.addAll_eq_ok_iff possible (sets.flatMap (c.visitsOf parent)) []
  rw [collectFields, collectGroups_eq_visits]
  cases h : Visit.addAll possible (sets.flatMap (c.visitsOf parent)) [] with
  | error e =>
    have hfails : ¬ ∀ x ∈ sets.flatMap (c.visitsOf parent), x.Passes possible := fun hp => by
      simpa [h] using (hiff _).2 ⟨hp, rfl⟩
    simp only [reduceCtorEq, false_iff]
    exact fun hp => hfails hp.1
  | ok g =>
    obtain ⟨hp, rfl⟩ := (hiff g).1 h
    simp only [Except.ok.injEq]
    exact ⟨fun he => ⟨hp, he⟩, fun he => he.2⟩

end OperationGraph
