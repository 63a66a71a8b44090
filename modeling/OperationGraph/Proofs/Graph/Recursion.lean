import OperationGraph.Graph.Analyze

/-! # The walk as a recursion

A walk keeps the fields of all levels on one stack. What it makes is nevertheless the forest of a plain
recursion: a field gets the next number, its own fields are built below it, and the fields beside it
follow. Both end on the same operations, with the same graph or the same error. -/

namespace OperationGraph

/-- Trees of numbered fields in order: none, or a first tree and those after it. -/
inductive Forest where
  | nil
  | tree (id : Nat) (field : MergedField) (below after : Forest)

namespace Forest

def size : Forest → Nat
  | nil => 0
  | tree _ _ below after => below.size + after.size + 1

/-- The vertices in depth-first order, those at the top below a given vertex. -/
def vertices (parent : Nat) : Forest → List Vertex
  | nil => []
  | tree id field below after =>
    { id, parent, field } :: (below.vertices id ++ after.vertices parent)

/-- The vertices at the top, below a given vertex. -/
def roots (parent : Nat) : Forest → List Vertex
  | nil => []
  | tree id field _ after => { id, parent, field } :: after.roots parent

/-- The graph of a forest that stands below the root. -/
def graph (F : Forest) : Graph := { vertices := F.vertices 0 }

/-- The numbers are consecutive in depth-first order. -/
def NumberedFrom (first : Nat) : Forest → Prop
  | nil => True
  | tree id _ below after =>
    id = first ∧ below.NumberedFrom (first + 1) ∧ after.NumberedFrom (first + 1 + below.size)

/-- Every vertex has in a graph the children that it has in the forest, in the same order. -/
def Below (g : Graph) : Forest → Prop
  | nil => True
  | tree id _ below after => g.children id = below.roots id ∧ below.Below g ∧ after.Below g

def IsTreeOf (F : Forest) (g : Graph) : Prop := g.children 0 = F.roots 0 ∧ F.Below g

end Forest

/-- Builds the trees of fields one after another, with the next number after them. A field whose own
fields cannot be collected ends the recursion. -/
def Collector.build (c : Collector) (next : Nat) :
    List MergedField → Option (Except AnalysisError (Forest × Nat))
  | [] => some (.ok (.nil, next))
  | f :: rest =>
    match c.childFields f with
    | .error e => some (.error e)
    | .ok fields => do
      match ← c |>.build (next + 1) fields with
      | .error e => some (.error e)
      | .ok (below, next') =>
        match ← c |>.build next' rest with
        | .error e => some (.error e)
        | .ok (after, next'') => some (.ok (.tree next f below after, next''))
partial_fixpoint

def analyzeRecursively (s : Schema) (doc : Document) (operationName : String) (given : Entries) :
    Outcome :=
  match prepare s doc operationName given with
  | .error e => .failed e
  | .ok (c, fields) => .ofResult ((c.build 1 fields).map (·.map (·.1.graph)))

/-- The results of the recursion, with the first error in depth-first order. -/
inductive Built (c : Collector) :
    Nat → List MergedField → Except AnalysisError (Forest × Nat) → Prop
  | empty {next} : Built c next [] (.ok (.nil, next))
  | fails {next f rest e} (hf : c.childFields f = .error e) : Built c next (f :: rest) (.error e)
  | failsBelow {next f rest fields e} (hf : c.childFields f = .ok fields)
      (hb : Built c (next + 1) fields (.error e)) : Built c next (f :: rest) (.error e)
  | failsAfter {next f rest fields F next' e} (hf : c.childFields f = .ok fields)
      (hb : Built c (next + 1) fields (.ok (F, next'))) (ha : Built c next' rest (.error e)) :
      Built c next (f :: rest) (.error e)
  | tree {next f rest fields F next' G next''} (hf : c.childFields f = .ok fields)
      (hb : Built c (next + 1) fields (.ok (F, next')))
      (ha : Built c next' rest (.ok (G, next''))) :
      Built c next (f :: rest) (.ok (.tree next f F G, next''))

theorem Collector.built_of_build {c : Collector} {next : Nat} {fields : List MergedField}
    {r : Except AnalysisError (Forest × Nat)} (h : c.build next fields = some r) :
    Built c next fields r := by
  refine build.partial_correctness c (Built c) ?_ next fields r h
  intro build ih next fields r h
  cases fields with
  | nil =>
    obtain rfl : _ = r := Option.some.inj h
    exact .empty
  | cons f rest =>
    dsimp only at h
    cases hf : c.childFields f with
    | error e =>
      rw [hf] at h
      obtain rfl : _ = r := Option.some.inj h
      exact .fails hf
    | ok fields =>
      rw [hf] at h
      obtain ⟨x, hx, h⟩ := Option.bind_eq_some_iff.1 h
      rcases x with e | ⟨F, next'⟩
      · obtain rfl : _ = r := Option.some.inj h
        exact .failsBelow hf (ih _ _ _ hx)
      · obtain ⟨y, hy, h⟩ := Option.bind_eq_some_iff.1 h
        rcases y with e | ⟨G, next''⟩
        · obtain rfl : _ = r := Option.some.inj h
          exact .failsAfter hf (ih _ _ _ hx) (ih _ _ _ hy)
        · obtain rfl : _ = r := Option.some.inj h
          exact .tree hf (ih _ _ _ hx) (ih _ _ _ hy)

namespace Walk
variable {c : Collector}

theorem run_nil (next : Nat) (made : List Vertex) :
    run c ⟨next, [], made⟩ = some (.ok { vertices := made.reverse }) := by
  rw [run]

theorem run_cons_error {next : Nat} {top : Frame} {stack : List Frame} {made : List Vertex}
    {e : AnalysisError} (h : c.childFields top.field = .error e) :
    run c ⟨next, top :: stack, made⟩ = some (.error e) := by
  rw [run]
  simp [step, h]

theorem run_cons_ok {next : Nat} {top : Frame} {stack : List Frame} {made : List Vertex}
    {fields : List MergedField} (h : c.childFields top.field = .ok fields) :
    run c ⟨next, top :: stack, made⟩ =
      run c ⟨next + 1, frames next fields ++ stack, ⟨next, top.parent, top.field⟩ :: made⟩ := by
  rw [run]
  simp [step, h]

/-- How a walk goes on after the trees of some fields, all below one vertex. -/
def resume (k : Nat → List Vertex → Option (Except AnalysisError Graph)) (parent : Nat)
    (made : List Vertex) :
    Except AnalysisError (Forest × Nat) → Option (Except AnalysisError Graph)
  | .error e => some (.error e)
  | .ok (F, next) => k next ((F.vertices parent).reverse ++ made)

/-- Where the recursion has a result, the walk takes the fields off the stack with that result. -/
theorem run_of_built {next : Nat} {fields : List MergedField}
    {r : Except AnalysisError (Forest × Nat)} (h : Built c next fields r)
    (parent : Nat) (stack : List Frame) (made : List Vertex) :
    run c ⟨next, frames parent fields ++ stack, made⟩ =
      resume (fun next made => run c ⟨next, stack, made⟩) parent made r := by
  induction h generalizing parent stack made with
  | empty => rfl
  | fails hf => exact run_cons_error hf
  | failsBelow hf _ ih => exact (run_cons_ok hf).trans (ih _ _ _)
  | failsAfter hf _ _ ihb iha => exact (run_cons_ok hf).trans ((ihb _ _ _).trans (iha _ _ _))
  | tree hf _ _ ihb iha =>
    refine (run_cons_ok hf).trans ((ihb _ _ _).trans ((iha _ _ _).trans ?_))
    simp [resume, Forest.vertices]

/-- What the recursion makes of all fields on the stack, one after another. -/
def settle (c : Collector) : List Frame → Nat → List Vertex → Option (Except AnalysisError Graph)
  | [], _, made => some (.ok { vertices := made.reverse })
  | top :: stack, next, made =>
    (c.build next [top.field]).bind (resume (settle c stack) top.parent made)

/-- The fields of one vertex at the top of the stack are built together. -/
theorem settle_frames (parent : Nat) (fields : List MergedField) (stack : List Frame) (next : Nat)
    (made : List Vertex) :
    settle c (frames parent fields ++ stack) next made =
      (c.build next fields).bind (resume (settle c stack) parent made) := by
  induction fields generalizing next made with
  | nil => simp [frames, Collector.build, resume, Forest.vertices]
  | cons f rest ih =>
    have hcons : frames parent (f :: rest) ++ stack = ⟨f, parent⟩ :: (frames parent rest ++ stack) :=
      rfl
    rw [hcons, settle, Collector.build, Collector.build]
    cases hf : c.childFields f with
    | error e => rfl
    | ok fields =>
      cases hb : c.build (next + 1) fields with
      | none => simp [hb]
      | some x =>
        match x with
        | .error e => simp [hb, resume]
        | .ok (F, next') =>
          cases ha : c.build next' rest with
          | none => simp [hb, ha, ih, Collector.build, resume]
          | some y =>
            match y with
            | .error e => simp [hb, ha, ih, Collector.build, resume]
            | .ok (G, next'') => simp [hb, ha, ih, Collector.build, resume, Forest.vertices]

/-- A step changes nothing of what is still to be made. -/
theorem settle_step {next : Nat} {top : Frame} {stack : List Frame} {made : List Vertex}
    {fields : List MergedField} (hf : c.childFields top.field = .ok fields) :
    settle c (top :: stack) next made =
      settle c (frames next fields ++ stack) (next + 1) (⟨next, top.parent, top.field⟩ :: made) := by
  rw [settle_frames, settle, Collector.build, hf]
  cases hb : c.build (next + 1) fields with
  | none => simp [hb]
  | some x =>
    match x with
    | .error e => simp [hb, resume]
    | .ok (F, next') => simp [hb, Collector.build, resume, Forest.vertices]

theorem settle_of_run {w : Walk} {r : Except AnalysisError Graph} (h : run c w = some r) :
    settle c w.stack w.next w.made = some r := by
  refine run.partial_correctness c (fun w r => settle c w.stack w.next w.made = some r) ?_ w r h
  intro run ih w r h
  obtain ⟨next, stack, made⟩ := w
  cases stack with
  | nil => exact h
  | cons top stack =>
    cases hf : c.childFields top.field with
    | error e =>
      simp only [step, hf, Option.some.injEq] at h
      simp [settle, Collector.build, hf, resume, h]
    | ok fields =>
      simp only [step, hf] at h
      exact (settle_step hf).trans (ih _ r h)

/-- A walk and the recursion over its fields have the same result, or both have none. -/
theorem run_start (fields : List MergedField) :
    run c (start fields) = (c.build 1 fields).map (·.map (·.1.graph)) := by
  have hstack : (start fields).stack = frames 0 fields ++ [] := (List.append_nil _).symm
  cases hb : c.build 1 fields with
  | none =>
    apply Option.eq_none_iff_forall_ne_some.2
    intro r hr
    have h := settle_of_run hr
    rw [hstack, settle_frames] at h
    simp [start, hb] at h
  | some r =>
    have h := run_of_built (Collector.built_of_build hb) 0 [] []
    match r with
    | .error e => simpa [start, resume, Except.map] using h
    | .ok (F, next) => simpa [start, resume, run_nil, Forest.graph, Except.map] using h

end Walk

theorem Built.numbered {c : Collector} {next next' : Nat} {fields : List MergedField} {F : Forest}
    (h : Built c next fields (.ok (F, next'))) :
    F.NumberedFrom next ∧ next' = next + F.size := by
  generalize hr : Except.ok (F, next') = r at h
  induction h generalizing F next' with
  | empty =>
    cases hr
    exact ⟨trivial, rfl⟩
  | fails | failsBelow | failsAfter => cases hr
  | tree hf _ _ ihb iha =>
    cases hr
    obtain ⟨hb, rfl⟩ := ihb rfl
    obtain ⟨ha, rfl⟩ := iha rfl
    exact ⟨⟨rfl, hb, ha⟩, by simp only [Forest.size]; omega⟩

namespace Forest

theorem map_id_vertices {F : Forest} {n : Nat} (h : F.NumberedFrom n) (p : Nat) :
    (F.vertices p).map (·.id) = List.range' n F.size := by
  induction F generalizing n p with
  | nil => rfl
  | tree id field below after ihb iha =>
    obtain ⟨rfl, hb, ha⟩ := h
    have hsize : below.size + after.size + 1 = (below.size + after.size).succ := rfl
    simp only [vertices, size, List.map_cons, List.map_append, ihb hb, iha ha, hsize,
      List.range'_succ, List.range'_append_1]

/-- No vertex of a forest depends on a vertex outside of it, its parent apart. -/
theorem filter_parent_eq_nil {F : Forest} {n p q : Nat} (h : F.NumberedFrom n) (hp : q ≠ p)
    (hq : q < n ∨ n + F.size ≤ q) : (F.vertices p).filter (·.parent = q) = [] := by
  induction F generalizing n p with
  | nil => rfl
  | tree id field below after ihb iha =>
    obtain ⟨rfl, hb, ha⟩ := h
    simp only [size] at hq
    have hbelow : (below.vertices id).filter (·.parent = q) = [] :=
      ihb hb (by omega) (by omega)
    have hafter : (after.vertices p).filter (·.parent = q) = [] := iha ha hp (by omega)
    simp [vertices, Ne.symm hp, hbelow, hafter]

theorem filter_parent_eq_roots {F : Forest} {n p : Nat} (h : F.NumberedFrom n) (hp : p < n) :
    (F.vertices p).filter (·.parent = p) = F.roots p := by
  induction F generalizing n with
  | nil => rfl
  | tree id field below after ihb iha =>
    obtain ⟨rfl, hb, ha⟩ := h
    have hbelow : (below.vertices id).filter (·.parent = p) = [] :=
      filter_parent_eq_nil hb (by omega) (by omega)
    have hafter : (after.vertices p).filter (·.parent = p) = after.roots p := iha ha (by omega)
    simp [vertices, roots, hbelow, hafter]

/-- It is enough that the graph agrees with the forest on the numbers that the forest uses. -/
theorem below_of_children {g : Graph} {F : Forest} {n p : Nat} (h : F.NumberedFrom n) (hp : p < n)
    (hg : ∀ q, n ≤ q → q < n + F.size → g.children q = (F.vertices p).filter (·.parent = q)) :
    F.Below g := by
  induction F generalizing n p with
  | nil => trivial
  | tree id field below after ihb iha =>
    obtain ⟨rfl, hb, ha⟩ := h
    simp only [size] at hg
    refine ⟨?_, ihb hb (Nat.lt_succ_self id) ?_, iha (p := p) ha (by omega) ?_⟩
    · have hafter : (after.vertices p).filter (·.parent = id) = [] :=
        filter_parent_eq_nil ha (by omega) (by omega)
      have hne : p ≠ id := by omega
      rw [hg id (by omega) (by omega)]
      simp [vertices, hne, hafter, filter_parent_eq_roots hb]
    · intro q hq hq'
      have hafter : (after.vertices p).filter (·.parent = q) = [] :=
        filter_parent_eq_nil ha (by omega) (by omega)
      have hne : p ≠ q := by omega
      rw [hg q (by omega) (by omega)]
      simp [vertices, hne, hafter]
    · intro q hq hq'
      have hbelow : (below.vertices id).filter (·.parent = q) = [] :=
        filter_parent_eq_nil hb (by omega) (by omega)
      have hne : p ≠ q := by omega
      rw [hg q (by omega) (by omega)]
      simp [vertices, hne, hbelow]

theorem isTreeOf_graph {F : Forest} (h : F.NumberedFrom 1) : F.IsTreeOf F.graph :=
  ⟨filter_parent_eq_roots h Nat.one_pos, below_of_children h Nat.one_pos fun _ _ _ => rfl⟩

end Forest

/-- The analysis with a stack is the analysis by recursion. Its vertices have the numbers from one on
in depth-first order, its graph is the tree that the recursion builds, and an error below the root is
that of the first field in depth-first order whose own fields cannot be collected. -/
theorem analyze_eq_analyzeRecursively (s : Schema) (doc : Document) (operationName : String)
    (given : Entries) :
    analyze s doc operationName given = analyzeRecursively s doc operationName given ∧
      (∀ g, analyze s doc operationName given = .finished g →
        ∃ c fields F next, prepare s doc operationName given = .ok (c, fields) ∧
          c.build 1 fields = some (.ok (F, next)) ∧ g.vertices = F.vertices 0 ∧
          g.vertices.map (·.id) = List.range' 1 g.vertices.length ∧ F.IsTreeOf g) ∧
      ∀ e, analyze s doc operationName given = .failed e →
        prepare s doc operationName given = .error e ∨
          ∃ c fields, prepare s doc operationName given = .ok (c, fields) ∧
            Built c 1 fields (.error e) := by
  cases hp : prepare s doc operationName given with
  | error e => simp [analyze, analyzeRecursively, hp]
  | ok x =>
    obtain ⟨c, fields⟩ := x
    have heq : analyze s doc operationName given = analyzeRecursively s doc operationName given := by
      simp only [analyze, analyzeRecursively, hp, Walk.run_start]
    refine ⟨heq, fun g hg => ?_, fun e he => Or.inr ⟨c, fields, rfl, ?_⟩⟩
    · rw [heq] at hg
      simp only [analyzeRecursively, hp] at hg
      match hb : c.build 1 fields with
      | none => simp [hb, Outcome.ofResult] at hg
      | some (.error e) => simp [hb, Outcome.ofResult, Except.map] at hg
      | some (.ok (F, next)) =>
        simp only [hb, Option.map_some, Except.map, Outcome.ofResult, Outcome.finished.injEq] at hg
        subst hg
        have hn := (Collector.built_of_build hb).numbered.1
        have hids := F.map_id_vertices hn 0
        have hlength : (F.vertices 0).length = F.size := by simpa using congrArg List.length hids
        refine ⟨c, fields, F, next, rfl, hb, rfl, ?_, F.isTreeOf_graph hn⟩
        simpa [Forest.graph, hlength] using hids
    · rw [heq] at he
      simp only [analyzeRecursively, hp] at he
      match hb : c.build 1 fields with
      | none => simp [hb, Outcome.ofResult] at he
      | some (.ok (F, next)) => simp [hb, Outcome.ofResult, Except.map] at he
      | some (.error e') =>
        simp only [hb, Option.map_some, Except.map, Outcome.ofResult, Outcome.failed.injEq] at he
        exact he ▸ Collector.built_of_build hb

end OperationGraph
