import OperationGraph.Proofs.Selection.SpreadOnce

/-! # Fragments passed by

What a walk has entered once is passed by ever after, with all that is spread in it. A walk that starts
with more fragments entered therefore leaves out the visits inside them and makes all others. -/

namespace OperationGraph

namespace Collector

/-- A visit stands inside the conditions of a selection that waited, and in fragments that were around
it or that the walk has entered. -/
theorem exists_place_of_mem {c : Collector} {items : List (Place × Selection)} {v : List String}
    {q : Place} {n : Field} (h : .node q n ∈ (c.visits items v).1) :
    ∃ i ∈ items, i.1.guards <+: q.guards ∧
      ∀ name ∈ q.fragments, name ∈ i.1.fragments ∨ name ∈ (c.visits items v).2 := by
  fun_induction visits c items v with
  | case1 v => cases h
  | case2 p s rest v ho ih =>
    obtain ⟨i, hi, h⟩ := ih h
    exact ⟨i, List.mem_cons_of_mem _ hi, h⟩
  | case3 p s rest v m ho ih =>
    rcases List.mem_cons.1 h with h | h
    · cases h
      exact ⟨(q, s), List.mem_cons_self, List.prefix_rfl, fun name hname => .inl hname⟩
    · obtain ⟨i, hi, h⟩ := ih h
      exact ⟨i, List.mem_cons_of_mem _ hi, h⟩
  | case4 p s rest v e ho ih =>
    rcases List.mem_cons.1 h with h | h
    · cases h
    · obtain ⟨i, hi, h⟩ := ih h
      exact ⟨i, List.mem_cons_of_mem _ hi, h⟩
  | case5 p s rest v sc body ho ih =>
    obtain ⟨i, hi, hguards, hfragments⟩ := ih h
    rcases List.mem_append.1 hi with hi | hi
    · obtain ⟨u, hu, rfl⟩ := List.mem_map.1 hi
      refine ⟨(p, s), List.mem_cons_self, ?_, ?_⟩
      · exact (List.prefix_append p.guards _).trans hguards
      · intro name hname
        rcases hfragments name hname with hin | hin
        · rcases List.mem_append.1 hin with hin | hin
          · exact .inr (subset_visits c _ _ (List.mem_append_left v hin))
          · exact .inl hin
        · exact .inr hin
    · exact ⟨i, List.mem_cons_of_mem _ hi, hguards, hfragments⟩

/-! ### Fragments that count as entered -/

section
variable {c : Collector} {name : String} {v : List String} {s : Selection}

theorem mem_spreadsOf {selections : List Selection} :
    name ∈ c.spreadsOf selections ↔ ∃ s ∈ selections, name ∈ c.spreads s := by
  induction selections with
  | nil => simp [spreadsOf]
  | cons s rest ih => simp [spreadsOf, ih]

theorem spreads_of_excluded (h : isIncluded s.directives c.variableValues = false) :
    c.spreads s = [] := by
  cases s <;> simp_all [spreads, Selection.directives]

/-- A selection that is passed by spreads what has been entered. -/
theorem spreads_subset_of_nothing (h : c.opening v s = .nothing) : c.spreads s ⊆ v := by
  intro name hname
  rcases opening_eq_nothing h with hi | ⟨m, ds, pos, rfl, hm⟩
  · rw [spreads_of_excluded hi] at hname
    cases hname
  · by_cases hi : isIncluded ds c.variableValues
    · rw [spreads, if_pos hi, List.mem_singleton] at hname
      exact hname ▸ hm
    · simp [spreads, hi] at hname

end

/-- A walk without faults enters all that is spread in its selections and in the fragments that it
enters. -/
theorem spreads_subset_visits {c : Collector} {items : List (Place × Selection)} {v : List String}
    (hok : ∀ e, .fault e ∉ (c.visits items v).1) :
    (∀ i ∈ items, c.spreads i.2 ⊆ (c.visits items v).2) ∧
      ∀ name ∈ (c.visits items v).2, name ∉ v → c.spreadsIn name ⊆ (c.visits items v).2 := by
  fun_induction visits c items v with
  | case1 v =>
    constructor
    · intro i hi
      cases hi
    · intro name hname hv
      exact absurd hname hv
  | case2 p s rest v ho ih =>
    obtain ⟨hrest, hclosed⟩ := ih hok
    refine ⟨List.forall_mem_cons.2 ⟨?_, hrest⟩, hclosed⟩
    exact List.Subset.trans (spreads_subset_of_nothing ho) (subset_visits c rest v)
  | case3 p s rest v n ho ih =>
    obtain ⟨hrest, hclosed⟩ := ih fun e he => hok e (List.mem_cons_of_mem _ he)
    refine ⟨List.forall_mem_cons.2 ⟨?_, hrest⟩, hclosed⟩
    rw [(opening_eq_node ho).1, spreads]
    exact List.nil_subset _
  | case4 p s rest v e ho ih => exact absurd List.mem_cons_self (hok e)
  | case5 p s rest v sc body ho ih =>
    obtain ⟨hitems, hclosed⟩ := ih hok
    have hrest : ∀ i ∈ rest, c.spreads i.2 ⊆ _ := fun i hi =>
      hitems i (List.mem_append_right _ hi)
    have hbody : c.spreadsOf body ⊆
        (c.visits (body.map (p.enter sc, ·) ++ rest) (sc.fragment.toList ++ v)).2 := by
      intro name hname
      obtain ⟨u, hu, hname⟩ := mem_spreadsOf.1 hname
      exact hitems (p.enter sc, u) (List.mem_append_left _ (List.mem_map_of_mem hu)) hname
    rcases (opening_eq_body_iff.1 ho).spreads_cases with ⟨hsc, hs⟩ | ⟨name, hsc, -, hs, hin⟩
    · constructor
      · refine List.forall_mem_cons.2 ⟨?_, hrest⟩
        rw [hs]
        exact hbody
      · intro m hm hmv
        exact hclosed m hm (by simp [hsc, hmv])
    · have hself : name ∈ sc.fragment.toList ++ v := by simp [hsc]
      constructor
      · refine List.forall_mem_cons.2 ⟨?_, hrest⟩
        rw [hs]
        exact List.cons_subset.2 ⟨subset_visits c _ _ hself, List.nil_subset _⟩
      · intro m hm hmv
        by_cases heq : m = name
        · rw [heq, hin]
          exact hbody
        · exact hclosed m hm (by simp [hsc, heq, hmv])

end Collector

/-! ### Walks that pass fragments by -/

def Place.isIn (names : List String) (p : Place) : Bool := p.fragments.any (· ∈ names)

def Visit.isIn (names : List String) : Visit → Bool
  | .node p _ => p.isIn names
  | .fault _ => false

theorem Visit.isIn_nil (x : Visit) : x.isIn [] = false := by
  cases x <;> simp [Visit.isIn, Place.isIn]

theorem Place.isIn_enter (names : List String) (p : Place) (sc : Scope) :
    (p.enter sc).isIn names = (sc.fragment.any (· ∈ names) || p.isIn names) := by
  obtain ⟨guard, fragment⟩ := sc
  cases fragment <;> simp [Place.isIn, Place.enter]

namespace Collector

/-- With `w` instead of `v` a walk passes the fragments in `names` by, and with them all that is spread
in them. -/
structure PassesBy (c : Collector) (names v w : List String) : Prop where
  mem : ∀ name, name ∈ w ↔ name ∈ v ∨ name ∈ names
  closed : ∀ name ∈ names, c.spreadsIn name ⊆ w

section
variable {c : Collector} {names v w : List String} {name : String}

theorem PassesBy.subset (h : c.PassesBy names v w) : v ⊆ w := fun name hv =>
  (h.mem name).2 (.inl hv)

theorem PassesBy.enter_passed (h : c.PassesBy names v w) (hname : name ∈ names) :
    c.PassesBy names (name :: v) w where
  mem m := by
    rw [h.mem, List.mem_cons, or_assoc]
    constructor
    · exact .inr
    · rintro (rfl | hm)
      · exact .inr hname
      · exact hm
  closed := h.closed

theorem PassesBy.enter (h : c.PassesBy names v w) : c.PassesBy names (name :: v) (name :: w) where
  mem m := by rw [List.mem_cons, List.mem_cons, h.mem, or_assoc]
  closed m hm := List.Subset.trans (h.closed m hm) (List.subset_cons_self name w)

/-- What opens inside a fragment that is passed by is passed by too. -/
theorem Opens.passesBy {s : Selection} {sc : Scope} {body : List Selection}
    (ho : Opens c v s sc body) (h : c.PassesBy names v w) (hs : c.spreads s ⊆ w) :
    c.PassesBy names (sc.fragment.toList ++ v) w ∧ c.spreadsOf body ⊆ w := by
  rcases ho.spreads_cases with ⟨hsc, heq⟩ | ⟨name, hsc, hv, heq, hin⟩
  · rw [hsc, ← heq]
    exact ⟨h, hs⟩
  · rw [heq] at hs
    have hname : name ∈ names := ((h.mem name).1 (hs List.mem_cons_self)).resolve_left hv
    rw [hsc, ← hin]
    exact ⟨h.enter_passed hname, h.closed name hname⟩

theorem opening_of_subset {s : Selection} (hsub : v ⊆ w) (h : c.opening v s = .nothing) :
    c.opening w s = .nothing := by
  rcases opening_eq_nothing h with hi | ⟨name, ds, pos, rfl, hv⟩
  · cases s <;> simp_all [opening, Selection.directives]
  · by_cases hi : isIncluded ds c.variableValues <;> simp [opening, hi, hsub hv]

theorem filter_isIn_body (p : Place) (body : List Selection) (rest : List (Place × Selection)) :
    (body.map (p, ·) ++ rest).filter (!·.1.isIn names) =
      if p.isIn names then rest.filter (!·.1.isIn names)
      else body.map (p, ·) ++ rest.filter (!·.1.isIn names) := by
  by_cases hp : p.isIn names <;> simp [List.filter_map, Function.comp_def, hp]

/-- What opens outside of the fragments that are passed by is walked through, unless it is one of them. -/
theorem Opens.exists_visits_eq {s : Selection} {sc : Scope} {body : List Selection}
    (ho : Opens c v s sc body) (h : c.PassesBy names v w) {p : Place} (hp : p.isIn names = false)
    (rest : List (Place × Selection)) :
    ∃ w', c.PassesBy names (sc.fragment.toList ++ v) w' ∧ w ⊆ w' ∧
      ((p.enter sc).isIn names → c.spreadsOf body ⊆ w') ∧
      (c.visits ((p, s) :: rest) w).1 =
        (c.visits (if (p.enter sc).isIn names then rest else body.map (p.enter sc, ·) ++ rest) w').1 := by
  rw [Place.isIn_enter, hp, Bool.or_false]
  cases ho with
  | plain hi =>
    refine ⟨w, h, List.Subset.refl w, by simp, ?_⟩
    rw [visits_cons_body (opening_eq_body_iff.2 (.plain hi))]
    rfl
  | narrowed hi hg =>
    refine ⟨w, h, List.Subset.refl w, by simp, ?_⟩
    rw [visits_cons_body (opening_eq_body_iff.2 (.narrowed hi hg))]
    rfl
  | @fragment name ds pos f g hi hv hf hg =>
    by_cases hname : name ∈ names
    · have hnothing : c.opening w (.spread name ds pos) = .nothing := by
        simp [opening, hi, (h.mem name).2 (.inr hname)]
      have hclosed := h.closed name hname
      rw [spreadsIn, hf] at hclosed
      refine ⟨w, h.enter_passed hname, List.Subset.refl w, fun _ => hclosed, ?_⟩
      rw [visits_cons_nothing hnothing, if_pos (by simpa using hname)]
    · have hw : name ∉ w := fun hmem => ((h.mem name).1 hmem).elim hv hname
      refine ⟨name :: w, h.enter, List.subset_cons_self name w, by simp [hname], ?_⟩
      rw [visits_cons_body (opening_eq_body_iff.2 (.fragment hi hw hf hg)),
        if_neg (by simpa using hname)]
      rfl

/-- Where fragments are passed by, the visits in them are left out and all others stay. -/
theorem visits_passesBy {items : List (Place × Selection)} (h : c.PassesBy names v w)
    (hitems : ∀ i ∈ items, i.1.isIn names → c.spreads i.2 ⊆ w)
    (hok : ∀ e, .fault e ∉ (c.visits items v).1) :
    (c.visits (items.filter (!·.1.isIn names)) w).1 =
      (c.visits items v).1.filter (!·.isIn names) := by
  fun_induction visits c items v generalizing w with
  | case1 v => rw [List.filter_nil, visits_nil, List.filter_nil]
  | case2 p s rest v ho ih =>
    have hrest := ih h (fun i hi => hitems i (List.mem_cons_of_mem _ hi)) hok
    by_cases hp : p.isIn names
    · rw [List.filter_cons_of_neg (by simp [hp]), hrest]
    · rw [List.filter_cons_of_pos (by simp [hp]),
        visits_cons_nothing (opening_of_subset h.subset ho), hrest]
  | case3 p s rest v n ho ih =>
    have hrest := ih h (fun i hi => hitems i (List.mem_cons_of_mem _ hi))
      fun e he => hok e (List.mem_cons_of_mem _ he)
    by_cases hp : p.isIn names
    · rw [List.filter_cons_of_neg (by simp [hp]), hrest,
        List.filter_cons_of_neg (by simp [Visit.isIn, hp])]
    · obtain ⟨rfl, hi⟩ := opening_eq_node ho
      have hw : c.opening w (.field n) = .node n := by simp [opening, hi]
      rw [List.filter_cons_of_pos (by simp [hp]), visits_cons_node hw, hrest,
        List.filter_cons_of_pos (by simp [Visit.isIn, hp])]
  | case4 p s rest v e ho ih => exact absurd List.mem_cons_self (hok e)
  | case5 p s rest v sc body ho ih =>
    -- the walk goes on in the body unless the body is inside one of the fragments
    have hstep : ∀ w', c.PassesBy names (sc.fragment.toList ++ v) w' → w ⊆ w' →
        ((p.enter sc).isIn names → c.spreadsOf body ⊆ w') →
        (c.visits (if (p.enter sc).isIn names then rest.filter (!·.1.isIn names)
          else body.map (p.enter sc, ·) ++ rest.filter (!·.1.isIn names)) w').1 =
          (c.visits (body.map (p.enter sc, ·) ++ rest) (sc.fragment.toList ++ v)).1.filter
            (!·.isIn names) := by
      intro w' hw' hsub hbody
      rw [← filter_isIn_body]
      refine ih hw' (fun i hi hin => ?_) hok
      rcases List.mem_append.1 hi with hi | hi
      · obtain ⟨u, hu, rfl⟩ := List.mem_map.1 hi
        exact fun m hm => hbody hin (mem_spreadsOf.2 ⟨u, hu, hm⟩)
      · exact List.Subset.trans (hitems i (List.mem_cons_of_mem _ hi) hin) hsub
    have hopens := opening_eq_body_iff.1 ho
    by_cases hp : p.isIn names
    · obtain ⟨hw, hbody⟩ := hopens.passesBy h (hitems (p, s) List.mem_cons_self hp)
      rw [Place.isIn_enter] at hstep
      simp only [hp, Bool.or_true, if_true] at hstep
      rw [List.filter_cons_of_neg (by simp [hp])]
      exact hstep w hw (List.Subset.refl w) fun _ => hbody
    · rw [List.filter_cons_of_pos (by simp [hp])]
      obtain ⟨w', hw', hsub, hbody, hvisits⟩ :=
        hopens.exists_visits_eq h (by simpa using hp) (rest.filter (!·.1.isIn names))
      rw [hvisits]
      exact hstep w' hw' hsub hbody

end

section
variable {c : Collector}

/-- What a walk without faults has entered is passed by afterwards. -/
theorem passesBy_visits {items : List (Place × Selection)} {v : List String}
    (hok : ∀ e, .fault e ∉ (c.visits items v).1) :
    c.PassesBy ((c.visits items v).2.filter (· ∉ v)) v (c.visits items v).2 where
  mem m := by
    have hsub : m ∈ v → m ∈ (c.visits items v).2 := fun hm => subset_visits c items v hm
    by_cases hm : m ∈ v <;> simp [hm, hsub]
  closed m hm := by
    obtain ⟨hmem, hv⟩ := List.mem_filter.1 hm
    exact (spreads_subset_visits hok).2 m hmem (by simpa using hv)

/-- No visit stands in a fragment that its walk has not entered. -/
theorem not_isIn_of_mem {p : Place} (hp : p.fragments = []) {selections : List Selection}
    {v names : List String} {x : Visit} (hx : x ∈ (c.visits (selections.map (p, ·)) v).1)
    (hnames : ∀ m ∈ names, m ∉ (c.visits (selections.map (p, ·)) v).2) : x.isIn names = false := by
  cases x with
  | fault e => rfl
  | node q n =>
    obtain ⟨i, hi, -, hfragments⟩ := exists_place_of_mem hx
    obtain ⟨s, hs, rfl⟩ := List.mem_map.1 hi
    rw [Visit.isIn, Place.isIn, List.any_eq_false]
    intro m hm hin
    rcases hfragments m hm with hmem | hmem
    · rw [hp] at hmem
      cases hmem
    · exact hnames m (by simpa using hin) hmem

end

end Collector

end OperationGraph
