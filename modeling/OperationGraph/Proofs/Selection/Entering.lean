import OperationGraph.Proofs.Selection.Opening

/-! # Fragments are entered once

Collecting bounds the depth to which it enters fragments. The bound is never reached: the recursion without
it ends, whatever the fragments contain, with the same result, and it enters no fragment twice
(`exists_follow_eq_collectInto`). -/

namespace OperationGraph

/-- The fragments that a recursion has entered, in order, and its result. -/
abbrev Course := List String × Except AnalysisError Collected

/-- What a selection asks for: nothing more than its result, or collecting from what is inside, perhaps in
a fragment that is entered. -/
inductive Demand where
  | settled (r : Except AnalysisError Collected)
  | inside (fragment : Option String) (body : List Selection) (possible : TypeSet) (parent : NamedType)
      (st : Collected)

namespace Collector

/-- What a selection asks for where collecting has come to it. -/
def demand (c : Collector) (s : Selection) (possible : TypeSet) (parent : NamedType) (st : Collected) :
    Demand :=
  match s with
  | .field node =>
    if isIncluded node.directives c.variableValues then
      match addField node parent possible.toList st.groups with
      | .ok groups => .settled (.ok { st with groups })
      | .error e => .settled (.error e)
    else .settled (.ok st)
  | .inline condition ds selections pos =>
    if isIncluded ds c.variableValues then
      match condition with
      | none => .inside none selections possible parent st
      | some name =>
        match c.enterCondition possible name pos with
        | .error e => .settled (.error e)
        | .ok (narrowed, t) => .inside none selections narrowed t st
    else .settled (.ok st)
  | .spread name ds pos =>
    if isIncluded ds c.variableValues then
      if st.visited.contains name then .settled (.ok st)
      else
        match c.fragment? name with
        | none => .settled (.error (.at_ pos (.unknownFragment name)))
        | some f =>
          match c.enterCondition possible f.condition f.pos with
          | .error e => .settled (.error e)
          | .ok (narrowed, t) =>
            .inside (some name) f.selections narrowed t { st with visited := name :: st.visited }
    else .settled (.ok st)

/-- Collects from a selection set in order, entering fragments to any depth. An endless recursion has no
result. -/
def follow (c : Collector) : List Selection → TypeSet → NamedType → Collected → Option Course
  | [], _, _, st => some ([], .ok st)
  | s :: rest, possible, parent, st =>
    match c.demand s possible parent st with
    | .settled (.error e) => some ([], .error e)
    | .settled (.ok st) => c |>.follow rest possible parent st
    | .inside fragment body within on st => do
      match ← c |>.follow body within on st with
      | (entered, .error e) => return (fragment.toList ++ entered, .error e)
      | (entered, .ok st) =>
        let y ← c |>.follow rest possible parent st
        return (fragment.toList ++ entered ++ y.1, y.2)
partial_fixpoint

/-- The course of what a selection asks for. -/
def answer (c : Collector) : Demand → Option Course
  | .settled r => some ([], r)
  | .inside fragment body possible parent st =>
    c.follow body possible parent st >>= fun x => some (fragment.toList ++ x.1, x.2)

/-- Fragments that a recursion entered from some on: they are defined, none of them twice and none of
those from before, and a result has them in front of those. -/
structure Entered (c : Collector) (v : List String) (x : Course) : Prop where
  nodup : x.1.Nodup
  fresh : ∀ name ∈ x.1, name ∉ v
  defined : ∀ name ∈ x.1, (c.fragment? name).isSome
  visited : ∀ st, x.2 = .ok st → st.visited = x.1.reverse ++ v

namespace Entered
variable {c : Collector} {v : List String} {name : String} {f : Fragment}

theorem ok (c : Collector) (st : Collected) : Entered c st.visited ([], .ok st) :=
  ⟨List.nodup_nil, by simp, by simp, by simp⟩

theorem error (c : Collector) (v : List String) (e : AnalysisError) : Entered c v ([], .error e) :=
  ⟨List.nodup_nil, by simp, by simp, by simp⟩

theorem enter {x : Course} (hf : c.fragment? name = some f) (hv : name ∉ v)
    (h : Entered c (name :: v) x) : Entered c v (name :: x.1, x.2) := by
  constructor
  case nodup =>
    exact List.nodup_cons.2 ⟨fun hmem => h.fresh name hmem List.mem_cons_self, h.nodup⟩
  case fresh =>
    refine List.forall_mem_cons.2 ⟨hv, fun other hmem hother => ?_⟩
    exact h.fresh other hmem (List.mem_cons_of_mem name hother)
  case defined => exact List.forall_mem_cons.2 ⟨by rw [hf]; rfl, h.defined⟩
  case visited =>
    intro st hst
    simp [h.visited st hst]

theorem append {entered : List String} {st : Collected} {x : Course}
    (h : Entered c v (entered, .ok st)) (hx : Entered c st.visited x) :
    Entered c v (entered ++ x.1, x.2) := by
  have hvisited : st.visited = entered.reverse ++ v := h.visited st rfl
  have hafter : ∀ name ∈ x.1, name ∉ entered ∧ name ∉ v := by
    intro name hmem
    simpa [hvisited] using hx.fresh name hmem
  constructor
  case nodup =>
    refine List.nodup_append.2 ⟨h.nodup, hx.nodup, ?_⟩
    rintro name hmem _ hmem' rfl
    exact (hafter name hmem').1 hmem
  case fresh => exact List.forall_mem_append.2 ⟨h.fresh, fun name hmem => (hafter name hmem).2⟩
  case defined => exact List.forall_mem_append.2 ⟨h.defined, hx.defined⟩
  case visited =>
    intro st' hst
    simp [hx.visited st' hst, hvisited]

theorem unvisited_le {entered : List String} {st : Collected} (h : Entered c v (entered, .ok st)) :
    c.unvisited st.visited ≤ c.unvisited v := by
  apply unvisited_mono
  rw [h.visited st rfl]
  exact List.subset_append_right _ v

end Entered

/-- The recursion ends with a result, and enters fragments as it may. -/
def Ends (c : Collector) (v : List String) (course : Option Course)
    (r : Except AnalysisError Collected) : Prop :=
  ∃ entered, course = some (entered, r) ∧ Entered c v (entered, r)

theorem follow_cons (c : Collector) (s : Selection) (rest : List Selection) (possible : TypeSet)
    (parent : NamedType) (st : Collected) :
    c.follow (s :: rest) possible parent st = do
      match ← c.answer (c.demand s possible parent st) with
      | (entered, .error e) => return (entered, .error e)
      | (entered, .ok st) =>
        let y ← c.follow rest possible parent st
        return (entered ++ y.1, y.2) := by
  rw [follow]
  cases c.demand s possible parent st with
  | settled r =>
    cases r with
    | error e => rfl
    | ok st => cases hy : c.follow rest possible parent st <;> simp [answer, hy]
  | inside fragment body within on st =>
    cases hx : c.follow body within on st with
    | none => simp [answer, hx]
    | some x =>
      obtain ⟨entered, r⟩ := x
      cases r <;> simp [answer, hx]

section
variable {c : Collector} {enter : Enter} {fuel : Nat}

theorem Ends.inside {body : List Selection} {possible : TypeSet} {parent : NamedType} {st : Collected}
    {r : Except AnalysisError Collected} (h : Ends c st.visited (c.follow body possible parent st) r) :
    Ends c st.visited (c.answer (.inside none body possible parent st)) r := by
  obtain ⟨entered, hcourse, hentered⟩ := h
  exact ⟨entered, by simp [answer, hcourse], hentered⟩

theorem Ends.fragment {name : String} {f : Fragment} {narrowed : TypeSet} {t : NamedType} {g : FieldGroups}
    {v : List String} {r : Except AnalysisError Collected} (hf : c.fragment? name = some f)
    (hname : name ∉ v)
    (h : Ends c (name :: v) (c.follow f.selections narrowed t ⟨g, name :: v⟩) r) :
    Ends c v (c.answer (.inside (some name) f.selections narrowed t ⟨g, name :: v⟩)) r := by
  obtain ⟨entered, hcourse, hentered⟩ := h
  exact ⟨name :: entered, by simp [answer, hcourse], hentered.enter hf hname⟩

mutual

/-- Collecting from a selection is what the recursion answers to its demand. -/
theorem ends_answer
    (henter : ∀ name f narrowed t g v, c.fragment? name = some f → name ∉ v → c.unvisited v ≤ fuel →
      Ends c (name :: v) (c.follow f.selections narrowed t ⟨g, name :: v⟩)
        (enter f narrowed t ⟨g, name :: v⟩))
    (s : Selection) (possible : TypeSet) (parent : NamedType) (st : Collected)
    (hv : c.unvisited st.visited ≤ fuel) :
    Ends c st.visited (c.answer (c.demand s possible parent st)) (c.walkOne enter s possible parent st) := by
  match s with
  | .field node =>
    rw [demand, walkOne]
    split
    · cases addField node parent possible.toList st.groups with
      | ok groups => exact ⟨[], rfl, .ok c { st with groups }⟩
      | error e => exact ⟨[], rfl, .error c _ e⟩
    · exact ⟨[], rfl, .ok c st⟩
  | .inline none ds selections pos =>
    rw [demand, walkOne]
    split
    · exact (ends_follow henter selections possible parent st hv).inside
    · exact ⟨[], rfl, .ok c st⟩
  | .inline (some name) ds selections pos =>
    rw [demand, walkOne]
    split
    · cases h : c.enterCondition possible name pos with
      | error e => simpa [h] using ⟨[], rfl, .error c _ e⟩
      | ok x => simpa [h] using (ends_follow henter selections x.1 x.2 st hv).inside
    · exact ⟨[], rfl, .ok c st⟩
  | .spread name ds pos =>
    rw [demand, walkOne]
    split
    · split
      · exact ⟨[], rfl, .ok c st⟩
      · next hmem =>
        have hname : name ∉ st.visited := by simpa using hmem
        cases hf : c.fragment? name with
        | none => exact ⟨[], rfl, .error c _ _⟩
        | some f =>
          cases h : c.enterCondition possible f.condition f.pos with
          | error e => simpa [h] using ⟨[], rfl, .error c _ e⟩
          | ok x =>
            simpa [h] using Ends.fragment hf hname (henter name f x.1 x.2 st.groups st.visited hf hname hv)
    · exact ⟨[], rfl, .ok c st⟩

theorem ends_follow
    (henter : ∀ name f narrowed t g v, c.fragment? name = some f → name ∉ v → c.unvisited v ≤ fuel →
      Ends c (name :: v) (c.follow f.selections narrowed t ⟨g, name :: v⟩)
        (enter f narrowed t ⟨g, name :: v⟩))
    (selections : List Selection) (possible : TypeSet) (parent : NamedType) (st : Collected)
    (hv : c.unvisited st.visited ≤ fuel) :
    Ends c st.visited (c.follow selections possible parent st)
      (c.walk enter selections possible parent st) := by
  match selections with
  | [] =>
    rw [follow, walk]
    exact ⟨[], rfl, .ok c st⟩
  | s :: rest =>
    obtain ⟨entered, hcourse, hentered⟩ := ends_answer henter s possible parent st hv
    rw [follow_cons, walk, hcourse]
    cases hone : c.walkOne enter s possible parent st with
    | error e =>
      rw [hone] at hentered
      exact ⟨entered, rfl, hentered⟩
    | ok st' =>
      rw [hone] at hentered
      obtain ⟨more, hrest, hmore⟩ :=
        ends_follow henter rest possible parent st' (Nat.le_trans hentered.unvisited_le hv)
      refine ⟨entered ++ more, ?_, hentered.append hmore⟩
      simp [hrest]

end

end

/-- A depth to which fragments can still be entered is enough. -/
theorem ends_collectAt (c : Collector) (fuel : Nat) (selections : List Selection) (possible : TypeSet)
    (parent : NamedType) (st : Collected) (hv : c.unvisited st.visited ≤ fuel) :
    Ends c st.visited (c.follow selections possible parent st)
      (c.collectAt fuel selections possible parent st) := by
  induction fuel generalizing selections possible parent st with
  | zero =>
    rw [collectAt]
    refine ends_follow (fun name f narrowed t g v hf hname hle => ?_) selections possible parent st hv
    have hlt := unvisited_cons_lt hf hname
    omega
  | succ fuel ih =>
    rw [collectAt]
    refine ends_follow (fun name f narrowed t g v hf hname hle => ?_) selections possible parent st hv
    have hlt := unvisited_cons_lt hf hname
    have hle' : c.unvisited (name :: v) ≤ fuel := by omega
    exact ih f.selections narrowed t ⟨g, name :: v⟩ hle'

/-- Whatever the fragments contain, collecting from a selection set ends without a bound on the depth as it
does with it, and the fragments that it enters are defined and none of them is entered twice. -/
theorem exists_follow_eq_collectInto (c : Collector) (selections : List Selection) (possible : TypeSet)
    (parent : NamedType) (g : FieldGroups) :
    ∃ entered, c.follow selections possible parent { groups := g } =
        some (entered, c.collectInto selections possible parent { groups := g }) ∧
      entered.Nodup ∧ ∀ name ∈ entered, (c.fragment? name).isSome := by
  obtain ⟨entered, hcourse, hentered⟩ := ends_collectAt c c.fragments.length selections possible parent
    { groups := g } (unvisited_le_length c [])
  exact ⟨entered, hcourse, hentered.nodup, hentered.defined⟩

end Collector

end OperationGraph
