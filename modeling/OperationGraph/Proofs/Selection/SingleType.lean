import OperationGraph.Proofs.Selection.Separation

/-! # Collecting for a single object type

When the object type of a value is known, only those fragments are entered whose condition it meets.
A walk for many object types enters all fragments. It comes to no other nodes of a type than a walk for
that type alone. -/

namespace OperationGraph

namespace Collector

/-- Whether a condition names a type that has an object type among its possible types. -/
def appliesTo (c : Collector) (t : NamedType) (name : String) : Bool :=
  match c.schema.type? name with
  | none => false
  | some condition =>
    match c.schema.possibleTypes condition with
    | .error _ => false
    | .ok admitted => admitted.any (·.name = t.name)

/-- The nodes of an object type in a selection set, in order, when some fragments have been entered.
A fragment is entered once at most, and only if its condition is met. -/
def collectFor (c : Collector) (t : NamedType) : List Selection → List String → List Field
  | [], _ => []
  | .field n :: rest, v =>
    if isIncluded n.directives c.variableValues ∧ (t.field? n.name).isSome then
      n :: collectFor c t rest v
    else collectFor c t rest v
  | .inline condition ds selections _ :: rest, v =>
    if isIncluded ds c.variableValues ∧ condition.all (c.appliesTo t) then
      collectFor c t (selections ++ rest) v
    else collectFor c t rest v
  | .spread name ds _ :: rest, v =>
    if _hv : isIncluded ds c.variableValues ∧ name ∉ v then
      match _hf : c.fragment? name with
      | none => collectFor c t rest v
      | some f =>
        if c.appliesTo t f.condition then collectFor c t (f.selections ++ rest) (name :: v)
        else collectFor c t rest v
    else collectFor c t rest v
termination_by selections v => (c.unvisited v, Selection.weights selections)
decreasing_by
  all_goals first
    | exact Prod.Lex.left _ _ (unvisited_cons_lt _hf _hv.2)
    | exact Prod.Lex.right _ (by
        simp only [Selection.weights_append, Selection.weights, Selection.weight]
        omega)

/-- A node of an object type that can be come to through fragments whose conditions are met, none of
the fragments in `v` among them. -/
inductive Reaches (c : Collector) (t : NamedType) (v : List String) :
    List Selection → Field → Prop
  | field {selections n} (hmem : .field n ∈ selections)
      (hi : isIncluded n.directives c.variableValues) (hf : (t.field? n.name).isSome) :
      Reaches c t v selections n
  | inline {selections condition ds body pos n} (hmem : .inline condition ds body pos ∈ selections)
      (hi : isIncluded ds c.variableValues) (ha : condition.all (c.appliesTo t))
      (h : Reaches c t v body n) : Reaches c t v selections n
  | spread {selections name ds pos f n} (hmem : .spread name ds pos ∈ selections)
      (hi : isIncluded ds c.variableValues) (hv : name ∉ v) (hf : c.fragment? name = some f)
      (ha : c.appliesTo t f.condition) (h : Reaches c t v f.selections n) :
      Reaches c t v selections n

section
variable {c : Collector} {t : NamedType} {v : List String} {n : Field}

theorem Reaches.mono {selections others : List Selection} (h : Reaches c t v selections n)
    (hsub : selections ⊆ others) : Reaches c t v others n := by
  cases h with
  | field hmem hi hf => exact .field (hsub hmem) hi hf
  | inline hmem hi ha h => exact .inline (hsub hmem) hi ha h
  | spread hmem hi hv hf ha h => exact .spread (hsub hmem) hi hv hf ha h

/-- A way through a fragment can be cut where it enters the fragment for the last time. -/
theorem Reaches.cut {selections : List Selection} {name : String} {f : Fragment}
    (hf : c.fragment? name = some f) (h : Reaches c t v selections n) :
    Reaches c t (name :: v) selections n ∨ Reaches c t (name :: v) f.selections n := by
  induction h with
  | field hmem hi hd => exact .inl (.field hmem hi hd)
  | inline hmem hi ha h ih =>
    rcases ih with ih | ih
    · exact .inl (.inline hmem hi ha ih)
    · exact .inr ih
  | @spread selections m ds pos g n hmem hi hv hg ha h ih =>
    rcases ih with ih | ih
    · by_cases hm : m = name
      · subst hm
        have hfg : f = g := by simpa [hf] using hg
        exact .inr (hfg ▸ ih)
      · exact .inl (.spread hmem hi (by simp [hm, hv]) hg ha ih)
    · exact .inr ih

theorem Reaches.exists_mem {selections : List Selection} (h : Reaches c t v selections n) :
    ∃ s ∈ selections, Reaches c t v [s] n := by
  cases h with
  | field hmem hi hf => exact ⟨_, hmem, .field (List.mem_singleton_self _) hi hf⟩
  | inline hmem hi ha h => exact ⟨_, hmem, .inline (List.mem_singleton_self _) hi ha h⟩
  | spread hmem hi hv hf ha h => exact ⟨_, hmem, .spread (List.mem_singleton_self _) hi hv hf ha h⟩

theorem Reaches.head_or_tail {s : Selection} {rest : List Selection}
    (h : Reaches c t v (s :: rest) n) : Reaches c t v [s] n ∨ Reaches c t v rest n := by
  obtain ⟨u, hu, hn⟩ := h.exists_mem
  rcases List.mem_cons.1 hu with rfl | hu
  · exact .inl hn
  · exact .inr (hn.mono (by simpa using hu))

theorem reaches_field_iff {m : Field} :
    Reaches c t v [.field m] n ↔
      m = n ∧ isIncluded n.directives c.variableValues ∧ (t.field? n.name).isSome := by
  constructor
  · rintro (⟨hmem, hi, hf⟩ | ⟨hmem, -, -, -⟩ | ⟨hmem, -, -, -, -, -⟩)
    · cases List.mem_singleton.1 hmem
      exact ⟨rfl, hi, hf⟩
    · cases List.mem_singleton.1 hmem
    · cases List.mem_singleton.1 hmem
  · rintro ⟨rfl, hi, hf⟩
    exact .field (List.mem_singleton_self _) hi hf

theorem reaches_inline_iff {condition : Option String} {ds : List Directive}
    {body : List Selection} {pos : Position} :
    Reaches c t v [.inline condition ds body pos] n ↔
      isIncluded ds c.variableValues ∧ condition.all (c.appliesTo t) ∧ Reaches c t v body n := by
  constructor
  · rintro (⟨hmem, -, -⟩ | ⟨hmem, hi, ha, h⟩ | ⟨hmem, -, -, -, -, -⟩)
    · cases List.mem_singleton.1 hmem
    · cases List.mem_singleton.1 hmem
      exact ⟨hi, ha, h⟩
    · cases List.mem_singleton.1 hmem
  · rintro ⟨hi, ha, h⟩
    exact .inline (List.mem_singleton_self _) hi ha h

theorem reaches_spread_iff {name : String} {ds : List Directive} {pos : Position} :
    Reaches c t v [.spread name ds pos] n ↔
      isIncluded ds c.variableValues ∧ name ∉ v ∧ ∃ f, c.fragment? name = some f ∧
        c.appliesTo t f.condition ∧ Reaches c t v f.selections n := by
  constructor
  · rintro (⟨hmem, -, -⟩ | ⟨hmem, -, -, -⟩ | ⟨hmem, hi, hv, hf, ha, h⟩)
    · cases List.mem_singleton.1 hmem
    · cases List.mem_singleton.1 hmem
    · cases List.mem_singleton.1 hmem
      exact ⟨hi, hv, _, hf, ha, h⟩
  · rintro ⟨hi, hv, f, hf, ha, h⟩
    exact .spread (List.mem_singleton_self _) hi hv hf ha h

/-- Every node that can be come to without the entered fragments is collected. -/
theorem Reaches.mem_collectFor {selections : List Selection} (h : Reaches c t v selections n) :
    n ∈ c.collectFor t selections v := by
  fun_induction collectFor c t selections v with
  | case1 v =>
    obtain ⟨s, hs, -⟩ := h.exists_mem
    cases hs
  | case2 m rest v hm ih =>
    rcases h.head_or_tail with h | h
    · rw [(reaches_field_iff.1 h).1]
      exact List.mem_cons_self
    · exact List.mem_cons_of_mem m (ih h)
  | case3 m rest v hm ih =>
    rcases h.head_or_tail with h | h
    · obtain ⟨rfl, h⟩ := reaches_field_iff.1 h
      exact absurd h hm
    · exact ih h
  | case4 condition ds body pos rest v hm ih =>
    apply ih
    rcases h.head_or_tail with h | h
    · exact (reaches_inline_iff.1 h).2.2.mono (List.subset_append_left body rest)
    · exact h.mono (List.subset_append_right body rest)
  | case5 condition ds body pos rest v hm ih =>
    rcases h.head_or_tail with h | h
    · obtain ⟨hi, ha, -⟩ := reaches_inline_iff.1 h
      exact absurd ⟨hi, ha⟩ hm
    · exact ih h
  | case6 name ds pos rest v hv hf ih =>
    rcases h.head_or_tail with h | h
    · obtain ⟨-, -, f, hsome, -⟩ := reaches_spread_iff.1 h
      simp [hf] at hsome
    · exact ih h
  | case7 name ds pos rest v hv f hf ha ih =>
    apply ih
    -- a way that enters this fragment again starts anew in its body
    rcases h.cut hf with h | h
    · rcases h.head_or_tail with h | h
      · exact absurd List.mem_cons_self (reaches_spread_iff.1 h).2.1
      · exact h.mono (List.subset_append_right f.selections rest)
    · exact h.mono (List.subset_append_left f.selections rest)
  | case8 name ds pos rest v hv f hf ha ih =>
    rcases h.head_or_tail with h | h
    · obtain ⟨-, -, g, hg, hga, -⟩ := reaches_spread_iff.1 h
      rw [hf] at hg
      cases hg
      exact absurd hga ha
    · exact ih h
  | case9 name ds pos rest v hv ih =>
    rcases h.head_or_tail with h | h
    · obtain ⟨hi, hmem, -⟩ := reaches_spread_iff.1 h
      exact absurd ⟨hi, hmem⟩ hv
    · exact ih h

end

end Collector

/-! ### Nodes at places that admit a type -/

/-- Whether the condition of a fragment, if it has one, admits a type. -/
def Scope.admits (sc : Scope) (t : NamedType) : Bool :=
  sc.guard.all fun g => g.1.any (·.name = t.name)

theorem Place.admits_enter (p : Place) (sc : Scope) (t : NamedType) :
    (p.enter sc).admits t = (p.admits t && sc.admits t) := by
  obtain ⟨guard, fragment⟩ := sc
  cases guard <;> simp [Place.admits, Place.enter, Scope.admits]

/-- The node of a visit if its place admits an object type that has the field. -/
def Visit.nodesFor (t : NamedType) : Visit → List Field
  | .node p n => if p.admits t ∧ (t.field? n.name).isSome then [n] else []
  | .fault _ => []

theorem Visit.map_node_filter_additions (t : NamedType) (key : String) (x : Visit) :
    ((x.additions (some [t])).filter (·.key = key)).map (·.node) =
      (x.nodesFor t).filter (·.key = key) := by
  cases x with
  | fault e => rfl
  | node p n =>
    rw [additions, within_some]
    by_cases hp : p.admits t
    · cases hf : t.field? n.name with
      | none => simp [TypeSet.toList, attributed, nodesFor, hp, hf]
      | some f => by_cases hk : n.key = key <;> simp [TypeSet.toList, attributed, nodesFor, hp, hf, hk]
    · simp [TypeSet.toList, attributed, nodesFor, hp]

namespace Collector
variable {c : Collector} {t : NamedType}

/-- A condition applies as its guard says, and nowhere if it has none. -/
theorem appliesTo_eq_guard (name : String) (pos : Position) :
    c.appliesTo t name =
      match c.guard name pos with
      | .error _ => false
      | .ok g => g.1.any (·.name = t.name) := by
  unfold appliesTo guard conditionType
  cases c.schema.type? name with
  | none => rfl
  | some u =>
    unfold possibleTypes
    cases hk : u.kind <;> cases hp : c.schema.possibleTypes u <;>
      simp_all [Schema.possibleTypes, Kind.isComposite]

theorem Reaches.of_opens {v : List String} {s : Selection} {sc : Scope} {body : List Selection}
    {n : Field} (ho : Opens c v s sc body) (ha : sc.admits t) (h : Reaches c t [] body n) :
    Reaches c t [] [s] n := by
  cases ho with
  | plain hi => exact reaches_inline_iff.2 ⟨hi, rfl, h⟩
  | @narrowed name ds body pos g hi hg =>
    refine reaches_inline_iff.2 ⟨hi, ?_, h⟩
    simpa [appliesTo_eq_guard name pos, hg, Scope.admits] using ha
  | @fragment name ds pos f g hi hv hf hg =>
    refine reaches_spread_iff.2 ⟨hi, List.not_mem_nil, f, hf, ?_, h⟩
    simpa [appliesTo_eq_guard f.condition f.pos, hg, Scope.admits] using ha

/-- A visited node that a type has can be come to through fragments whose conditions it meets. -/
theorem exists_reaches_of_mem {n : Field} {items : List (Place × Selection)} {v : List String}
    (h : n ∈ (c.visits items v).1.flatMap (Visit.nodesFor t)) :
    ∃ i ∈ items, i.1.admits t ∧ Reaches c t [] [i.2] n := by
  fun_induction visits c items v with
  | case1 v => cases h
  | case2 p s rest v ho ih =>
    obtain ⟨i, hi, h⟩ := ih h
    exact ⟨i, List.mem_cons_of_mem _ hi, h⟩
  | case3 p s rest v m ho ih =>
    rcases List.mem_append.1 h with h | h
    · obtain ⟨rfl, hi⟩ := opening_eq_node ho
      by_cases ha : p.admits t ∧ (t.field? m.name).isSome
      · rw [Visit.nodesFor, if_pos ha, List.mem_singleton] at h
        subst h
        exact ⟨(p, .field n), List.mem_cons_self, ha.1, reaches_field_iff.2 ⟨rfl, hi, ha.2⟩⟩
      · rw [Visit.nodesFor, if_neg ha] at h
        cases h
    · obtain ⟨i, hi, h⟩ := ih h
      exact ⟨i, List.mem_cons_of_mem _ hi, h⟩
  | case4 p s rest v e ho ih =>
    obtain ⟨i, hi, h⟩ := ih h
    exact ⟨i, List.mem_cons_of_mem _ hi, h⟩
  | case5 p s rest v sc body ho ih =>
    obtain ⟨i, hi, ha, h⟩ := ih h
    rcases List.mem_append.1 hi with hi | hi
    · obtain ⟨u, hu, rfl⟩ := List.mem_map.1 hi
      rw [Place.admits_enter, Bool.and_eq_true] at ha
      have hbody : Reaches c t [] body n := h.mono (by simpa using hu)
      exact ⟨(p, s), List.mem_cons_self, ha.1, .of_opens (opening_eq_body_iff.1 ho) ha.2 hbody⟩
    · exact ⟨i, List.mem_cons_of_mem _ hi, ha, h⟩

end Collector

end OperationGraph
