import OperationGraph.Proofs.Selection.PassedBy

/-! # Fragments that never apply

A fragment written in place whose condition none of the possible types meets adds no node. It is walked
all the same, and the fragments spread in it count as entered from then on. Collecting gives the same
with and without it if and only if nothing is lost in this way. -/

namespace OperationGraph

/-! ### Conditions that none of the types meets -/

theorem Place.admits_of_prefix {p q : Place} {t : NamedType} (h : p.guards <+: q.guards)
    (hq : q.admits t) : p.admits t := by
  obtain ⟨rest, hrest⟩ := h
  rw [Place.admits, ← hrest, List.all_append, Bool.and_eq_true] at hq
  exact hq.1

namespace Collector

/-- A condition of a composite type that has no possible type among some types. -/
def NeverApplies (c : Collector) (name : String) (ts : List NamedType) : Prop :=
  ∃ condition, c.schema.type? name = some condition ∧ condition.kind.isComposite ∧
    ∀ admitted, c.schema.possibleTypes condition = .ok admitted →
      ∀ u ∈ admitted, ∀ t ∈ ts, u.name ≠ t.name

theorem NeverApplies.appliesTo_eq_false {c : Collector} {name : String} {ts : List NamedType}
    (h : c.NeverApplies name ts) {t : NamedType} (ht : t ∈ ts) : c.appliesTo t name = false := by
  obtain ⟨condition, htype, -, hnone⟩ := h
  simp only [appliesTo, htype]
  cases hp : c.schema.possibleTypes condition with
  | error e => rfl
  | ok admitted => simpa using fun u hu => hnone admitted hp u hu t ht

/-- Nothing is added inside a condition that none of the types meets. -/
theorem additions_of_neverApplies {c : Collector} {name : String} {ts : List NamedType}
    (h : c.NeverApplies name ts) {pos : Position} {g : List NamedType × NamedType}
    (hg : c.guard name pos = .ok g) {p : Place} {body : List Selection} {v : List String} {x : Visit}
    (hx : x ∈ (c.visits (body.map (p.enter ⟨some g, none⟩, ·)) v).1) :
    x.additions (some ts) = [] := by
  cases x with
  | fault e => rfl
  | node q n =>
    obtain ⟨i, hi, hguards, -⟩ := exists_place_of_mem hx
    obtain ⟨s, hs, rfl⟩ := List.mem_map.1 hi
    have hnone : ts.filter q.admits = [] := by
      rw [List.filter_eq_nil_iff]
      intro t ht hq
      have hp := Place.admits_of_prefix hguards hq
      have hfalse := h.appliesTo_eq_false ht
      rw [appliesTo_eq_guard name pos, hg] at hfalse
      simp [Place.admits_enter, Scope.admits, hfalse] at hp
    rw [Visit.additions, within_some, hnone]
    rfl

end Collector

/-! ### A selection set with a hole -/

/-- A selection set with a hole, inside fragments written in place too. -/
inductive Hole where
  | here (before after : List Selection)
  | inside (before : List Selection) (condition : Option String) (directives : List Directive)
      (hole : Hole) (pos : Position) (after : List Selection)

def Hole.fill (x : List Selection) : Hole → List Selection
  | .here before after => before ++ x ++ after
  | .inside before condition ds hole pos after =>
    before ++ .inline condition ds (hole.fill x) pos :: after

/-- Puts selections into the hole and leaves out what comes after. -/
def Hole.upTo (x : List Selection) : Hole → List Selection
  | .here before _ => before ++ x
  | .inside before condition ds hole pos _ => before ++ [.inline condition ds (hole.upTo x) pos]

namespace Collector

/-- A walk comes to a hole at place `q` after the visits `E`, with the fragments `w` entered and the
items `K` left. -/
structure ComesTo (c : Collector) (h : Hole) (p : Place) (v : List String) (E : List Visit)
    (w : List String) (q : Place) (K : List (Place × Selection)) : Prop where
  fill : ∀ x, c.visits ((h.fill x).map (p, ·)) v =
    (E ++ (c.visits (x.map (q, ·) ++ K) w).1, (c.visits (x.map (q, ·) ++ K) w).2)
  upTo : ∀ x, c.visits ((h.upTo x).map (p, ·)) v =
    (E ++ (c.visits (x.map (q, ·)) w).1, (c.visits (x.map (q, ·)) w).2)
  fragments : ∀ i ∈ K, i.1.fragments = p.fragments

/-- A walk never comes to a hole: what is in it makes no difference. -/
def Misses (c : Collector) (h : Hole) (p : Place) (v : List String) : Prop :=
  ∀ x, c.visits ((h.fill x).map (p, ·)) v = c.visits ((h.fill []).map (p, ·)) v ∧
    c.visits ((h.upTo x).map (p, ·)) v = c.visits ((h.upTo []).map (p, ·)) v

section
variable {c : Collector} {p : Place} {v : List String}

theorem comesTo_here (before after : List Selection) :
    c.ComesTo (.here before after) p v (c.visits (before.map (p, ·)) v).1
      (c.visits (before.map (p, ·)) v).2 p (after.map (p, ·)) where
  fill x := by rw [Hole.fill, List.map_append, List.map_append, List.append_assoc, visits_append]
  upTo x := by rw [Hole.upTo, List.map_append, visits_append]
  fragments i hi := by
    obtain ⟨s, hs, rfl⟩ := List.mem_map.1 hi
    rfl

variable {before after : List Selection} {condition : Option String} {ds : List Directive}
  {pos : Position} {hole : Hole}

/-- A hole is missed if the fragment around it is passed by or at fault. -/
theorem misses_inside {o : Opening} (ho : ∀ w x, c.opening w (.inline condition ds x pos) = o)
    (hbody : ∀ sc x, o ≠ .body sc x) : c.Misses (.inside before condition ds hole pos after) p v := by
  have hcongr : ∀ w x y (rest : List (Place × Selection)),
      c.visits ((p, .inline condition ds x pos) :: rest) w =
        c.visits ((p, .inline condition ds y pos) :: rest) w := by
    intro w x y rest
    cases o with
    | nothing => rw [visits_cons_nothing (ho w x), visits_cons_nothing (ho w y)]
    | node n => rw [visits_cons_node (ho w x), visits_cons_node (ho w y)]
    | fault e => rw [visits_cons_fault (ho w x), visits_cons_fault (ho w y)]
    | body sc u => exact absurd rfl (hbody sc u)
  intro x
  constructor
  · rw [Hole.fill, Hole.fill, List.map_append, List.map_append, visits_append,
      visits_append c (before.map (p, ·)), List.map_cons, List.map_cons,
      hcongr _ (hole.fill x) (hole.fill [])]
  · rw [Hole.upTo, Hole.upTo, List.map_append, List.map_append, visits_append,
      visits_append c (before.map (p, ·)), List.map_cons, List.map_cons,
      hcongr _ (hole.upTo x) (hole.upTo [])]

section
variable {sc : Scope} (hsc : sc.fragment = none)
  (ho : ∀ w x, c.opening w (.inline condition ds x pos) = .body sc x)
include hsc ho

theorem visits_before_inline (x : List Selection) (rest : List (Place × Selection)) :
    c.visits (before.map (p, ·) ++ (p, .inline condition ds x pos) :: rest) v =
      ((c.visits (before.map (p, ·)) v).1 ++
          (c.visits (x.map (p.enter sc, ·) ++ rest) (c.visits (before.map (p, ·)) v).2).1,
        (c.visits (x.map (p.enter sc, ·) ++ rest) (c.visits (before.map (p, ·)) v).2).2) := by
  rw [visits_append, visits_cons_body (ho _ x), hsc, Option.toList_none, List.nil_append]

theorem ComesTo.inside {E : List Visit} {w : List String} {q : Place}
    {K : List (Place × Selection)}
    (h : c.ComesTo hole (p.enter sc) (c.visits (before.map (p, ·)) v).2 E w q K) :
    c.ComesTo (.inside before condition ds hole pos after) p v
      ((c.visits (before.map (p, ·)) v).1 ++ E) w q (K ++ after.map (p, ·)) where
  fill x := by
    rw [Hole.fill, List.map_append, List.map_cons, visits_before_inline hsc ho, visits_append,
      h.fill x, ← List.append_assoc (x.map (q, ·)), visits_append c (x.map (q, ·) ++ K)]
    simp only [List.append_assoc]
  upTo x := by
    rw [Hole.upTo, List.map_append, List.map_cons, visits_before_inline hsc ho, List.map_nil,
      List.append_nil, h.upTo x, List.append_assoc]
  fragments i hi := by
    rcases List.mem_append.1 hi with hi | hi
    · rw [h.fragments i hi, Place.enter, hsc]
      rfl
    · obtain ⟨s, hs, rfl⟩ := List.mem_map.1 hi
      rfl

theorem Misses.inside
    (h : c.Misses hole (p.enter sc) (c.visits (before.map (p, ·)) v).2) :
    c.Misses (.inside before condition ds hole pos after) p v := by
  intro x
  constructor
  · rw [Hole.fill, Hole.fill, List.map_append, List.map_cons, List.map_append, List.map_cons,
      visits_before_inline hsc ho, visits_before_inline hsc ho, visits_append, (h x).1,
      ← visits_append]
  · rw [Hole.upTo, Hole.upTo, List.map_append, List.map_cons, List.map_append, List.map_cons,
      visits_before_inline hsc ho, visits_before_inline hsc ho, List.map_nil, List.append_nil,
      List.append_nil, (h x).2]

end

end

/-- A walk comes to a hole once or never. -/
theorem comesTo_or_misses (c : Collector) (h : Hole) (p : Place) (v : List String) :
    (∃ E w q K, c.ComesTo h p v E w q K) ∨ c.Misses h p v := by
  induction h generalizing p v with
  | here before after => exact .inl ⟨_, _, _, _, comesTo_here before after⟩
  | inside before condition ds hole pos after ih =>
    have hinside : ∀ sc : Scope, sc.fragment = none →
        (∀ w x, c.opening w (.inline condition ds x pos) = .body sc x) →
        (∃ E w q K, c.ComesTo (.inside before condition ds hole pos after) p v E w q K) ∨
          c.Misses (.inside before condition ds hole pos after) p v := by
      intro sc hsc ho
      rcases ih (p.enter sc) (c.visits (before.map (p, ·)) v).2 with ⟨E, w, q, K, h⟩ | h
      · exact .inl ⟨_, _, _, _, h.inside hsc ho⟩
      · exact .inr (h.inside hsc ho)
    by_cases hi : isIncluded ds c.variableValues
    · cases condition with
      | none => exact hinside {} rfl fun w x => by simp [opening, hi]
      | some name =>
        cases hg : c.guard name pos with
        | error e =>
          have ho : ∀ w x, c.opening w (.inline (some name) ds x pos) = .fault e :=
            fun w x => by simp [opening, hi, hg]
          exact .inr (misses_inside ho fun sc x => by simp)
        | ok g => exact hinside { guard := some g } rfl fun w x => by simp [opening, hi, hg]
    · have ho : ∀ w x, c.opening w (.inline condition ds x pos) = .nothing :=
        fun w x => by simp [opening, hi]
      exact .inr (misses_inside ho fun sc x => by simp)

/-- The fragments that have been entered when a selection set has been walked. -/
def entered (c : Collector) (parent : NamedType) (selections : List Selection) : List String :=
  (c.visits (selections.map ({ parent }, ·)) []).2

/-- The fragments that are entered for the first time in a selection put into a hole. -/
def enteredIn (c : Collector) (parent : NamedType) (h : Hole) (s : Selection) : List String :=
  (c.entered parent (h.upTo [s])).filter (· ∉ c.entered parent (h.upTo []))

section
variable {c : Collector} {name : String} {ts : List NamedType} {ds : List Directive}
  {body : List Selection} {pos : Position}

theorem additions_of_dead (h : c.NeverApplies name ts) {p : Place} {v : List String} {x : Visit}
    (hx : x ∈ (c.visits [(p, .inline (some name) ds body pos)] v).1) :
    x.additions (some ts) = [] := by
  cases ho : c.opening v (.inline (some name) ds body pos) with
  | nothing =>
    rw [visits_cons_nothing ho, visits_nil] at hx
    cases hx
  | node n => cases (opening_eq_node ho).1
  | fault e =>
    rw [visits_cons_fault ho, visits_nil] at hx
    cases List.mem_singleton.1 hx
    rfl
  | body sc u =>
    rw [visits_cons_body ho, List.append_nil] at hx
    cases opening_eq_body_iff.1 ho with
    | narrowed hi hg => exact additions_of_neverApplies h hg hx

end

section
variable {c : Collector} {parent : NamedType} {h : Hole} {E : List Visit} {w : List String} {q : Place}
  {K : List (Place × Selection)}

theorem ComesTo.visits_upTo_nil (hc : c.ComesTo h { parent } [] E w q K) :
    c.visits ((h.upTo []).map ({ parent }, ·)) [] = (E, w) := by
  rw [hc.upTo [], List.map_nil, visits_nil, List.append_nil]

theorem ComesTo.enteredIn_eq (hc : c.ComesTo h { parent } [] E w q K) (s : Selection) :
    c.enteredIn parent h s = (c.visits [(q, s)] w).2.filter (· ∉ w) := by
  rw [enteredIn, entered, entered, hc.upTo [s], hc.visits_upTo_nil]
  rfl

theorem Misses.enteredIn_eq (hm : c.Misses h { parent } []) (s : Selection) :
    c.enteredIn parent h s = [] := by
  rw [enteredIn, entered, entered, (hm [s]).2]
  simp

theorem ComesTo.visitsOf_fill (hc : c.ComesTo h { parent } [] E w q K) (s : Selection) :
    c.visitsOf parent (h.fill [s]) =
      E ++ ((c.visits [(q, s)] w).1 ++ (c.visits K (c.visits [(q, s)] w).2).1) := by
  rw [visitsOf, hc.fill [s], List.map_singleton, visits_append]

theorem ComesTo.visitsOf_fill_nil (hc : c.ComesTo h { parent } [] E w q K) :
    c.visitsOf parent (h.fill []) = E ++ (c.visits K w).1 := by
  rw [visitsOf, hc.fill [], List.map_nil, List.nil_append]

/-- Outside the fragments first entered in a selection, the visits are those before and after it. -/
theorem ComesTo.filter_visitsOf (hc : c.ComesTo h { parent } [] E w q K) {s : Selection}
    (hwith : ∀ e, .fault e ∉ c.visitsOf parent (h.fill [s]))
    (hwithout : ∀ e, .fault e ∉ c.visitsOf parent (h.fill [])) :
    (c.visitsOf parent (h.fill [])).filter (!·.isIn (c.enteredIn parent h s)) =
      E ++ (c.visits K (c.visits [(q, s)] w).2).1 := by
  rw [hc.visitsOf_fill s] at hwith
  rw [hc.visitsOf_fill_nil] at hwithout
  have hpass : c.PassesBy (c.enteredIn parent h s) w (c.visits [(q, s)] w).2 := by
    rw [hc.enteredIn_eq s]
    exact passesBy_visits fun e he => hwith e (List.mem_append_right _ (List.mem_append_left _ he))
  -- the selections after the hole stand in no fragment
  have hK : ∀ i ∈ K, i.1.isIn (c.enteredIn parent h s) = false := by
    intro i hi
    rw [Place.isIn, hc.fragments i hi]
    rfl
  have hafter := visits_passesBy hpass (fun i hi hin => by rw [hK i hi] at hin; cases hin)
    fun e he => hwithout e (List.mem_append_right _ he)
  rw [List.filter_eq_self.2 fun i hi => by rw [hK i hi]; rfl] at hafter
  have hbefore : E.filter (!·.isIn (c.enteredIn parent h s)) = E := by
    apply List.filter_eq_self.2
    intro x hx
    have hx : x ∈ (c.visits ((h.upTo []).map ({ parent }, ·)) []).1 := by
      rw [hc.visits_upTo_nil]
      exact hx
    rw [not_isIn_of_mem rfl hx]
    · rfl
    · intro m hm
      rw [hc.enteredIn_eq s] at hm
      rw [hc.visits_upTo_nil]
      simpa using (List.mem_filter.1 hm).2
  rw [hc.visitsOf_fill_nil, List.filter_append, hbefore, hafter]

end

section
variable {c : Collector} {name : String} {ts : List NamedType} {ds : List Directive}
  {body : List Selection} {pos : Position}

/-- A fragment that never applies takes away the nodes inside the fragments first entered in it. -/
theorem flatMap_additions_fill (hdead : c.NeverApplies name ts) (parent : NamedType) (h : Hole)
    (hwith : ∀ e, .fault e ∉ c.visitsOf parent (h.fill [.inline (some name) ds body pos]))
    (hwithout : ∀ e, .fault e ∉ c.visitsOf parent (h.fill [])) :
    (c.visitsOf parent (h.fill [.inline (some name) ds body pos])).flatMap
        (Visit.additions (some ts)) =
      ((c.visitsOf parent (h.fill [])).filter
        (!·.isIn (c.enteredIn parent h (.inline (some name) ds body pos)))).flatMap
        (Visit.additions (some ts)) := by
  rcases comesTo_or_misses c h { parent } [] with ⟨E, w, q, K, hc⟩ | hm
  · have hnone : (c.visits [(q, .inline (some name) ds body pos)] w).1.flatMap
        (Visit.additions (some ts)) = [] :=
      List.flatMap_eq_nil_iff.2 fun x hx => additions_of_dead hdead hx
    rw [hc.filter_visitsOf hwith hwithout, hc.visitsOf_fill, List.flatMap_append,
      List.flatMap_append, hnone, List.nil_append, List.flatMap_append]
  · have hall : ∀ x ∈ c.visitsOf parent (h.fill []), (!x.isIn []) = true := fun x _ => by
      rw [Visit.isIn_nil]
      rfl
    rw [hm.enteredIn_eq, List.filter_eq_self.2 hall, visitsOf, (hm _).1, visitsOf]

/-- Where nothing is spread no fragment is entered. -/
theorem entered_of_spreads_nil {items : List (Place × Selection)} {v : List String}
    (h : ∀ i ∈ items, c.spreads i.2 = []) : (c.visits items v).2 = v := by
  fun_induction visits c items v with
  | case1 v => rfl
  | case2 p s rest v ho ih => exact ih (List.forall_mem_cons.1 h).2
  | case3 p s rest v n ho ih => exact ih (List.forall_mem_cons.1 h).2
  | case4 p s rest v e ho ih => exact ih (List.forall_mem_cons.1 h).2
  | case5 p s rest v sc body ho ih =>
    obtain ⟨hs, hrest⟩ := List.forall_mem_cons.1 h
    have hitems : c.spreadsOf body = [] →
        ∀ i ∈ body.map (p.enter sc, ·) ++ rest, c.spreads i.2 = [] := by
      intro hbody i hi
      rcases List.mem_append.1 hi with hi | hi
      · obtain ⟨u, hu, rfl⟩ := List.mem_map.1 hi
        apply List.eq_nil_iff_forall_not_mem.2
        intro m hm
        have hmem := mem_spreadsOf.2 ⟨u, hu, hm⟩
        rw [hbody] at hmem
        cases hmem
      · exact hrest i hi
    rcases (opening_eq_body_iff.1 ho).spreads_cases with ⟨hsc, heq⟩ | ⟨name, -, -, heq, -⟩
    · rw [hsc] at ih
      rw [hsc]
      exact ih (hitems (heq ▸ hs))
    · rw [heq] at hs
      cases hs

theorem enteredIn_of_spreads_nil {s : Selection} (hs : c.spreads s = []) (parent : NamedType)
    (h : Hole) : c.enteredIn parent h s = [] := by
  rcases comesTo_or_misses c h { parent } [] with ⟨E, w, q, K, hc⟩ | hm
  · rw [hc.enteredIn_eq, entered_of_spreads_nil (by simpa using hs)]
    simp
  · exact hm.enteredIn_eq s

end

end Collector

theorem length_flatMap_filter (possible : TypeSet) (keep : Visit → Bool) (xs : List Visit) :
    (xs.flatMap (Visit.additions possible)).length =
      ((xs.filter keep).flatMap (Visit.additions possible)).length +
        ((xs.filter (!keep ·)).flatMap (Visit.additions possible)).length := by
  induction xs with
  | nil => rfl
  | cons x rest ih =>
    rw [List.flatMap_cons, List.length_append, ih]
    by_cases hx : keep x
    · simp [hx]
      omega
    · simp [hx]
      omega

/-- Leaving out visits changes nothing if and only if they add nothing. -/
theorem toList_addAll_filter_iff (possible : TypeSet) (keep : Visit → Bool) (xs : List Visit) :
    (FieldGroups.addAll [] ((xs.filter keep).flatMap (Visit.additions possible))).toList =
        (FieldGroups.addAll [] (xs.flatMap (Visit.additions possible))).toList ↔
      ∀ x ∈ xs, keep x = false → x.additions possible = [] := by
  constructor
  · intro heq x hx hkeep
    -- every addition is a node, so that the numbers of nodes tell
    have hcount := congrArg FieldGroups.nodeCount heq
    rw [FieldGroups.nodeCount_addAll, FieldGroups.nodeCount_addAll,
      length_flatMap_filter possible keep xs] at hcount
    have hzero : ((xs.filter (!keep ·)).flatMap (Visit.additions possible)).length = 0 := by omega
    rw [List.length_eq_zero_iff, List.flatMap_eq_nil_iff] at hzero
    exact hzero x (List.mem_filter.2 ⟨hx, by simp [hkeep]⟩)
  · intro hnone
    have hflat : (xs.filter keep).flatMap (Visit.additions possible) =
        xs.flatMap (Visit.additions possible) := by
      induction xs with
      | nil => rfl
      | cons x rest ih =>
        rw [List.forall_mem_cons] at hnone
        rw [List.flatMap_cons, ← ih hnone.2]
        by_cases hx : keep x
        · rw [List.filter_cons_of_pos hx, List.flatMap_cons]
        · rw [List.filter_cons_of_neg hx, hnone.1 (by simpa using hx), List.nil_append]
    rw [hflat]

theorem Visit.Passes.ne_fault {possible : TypeSet} {xs : List Visit}
    (h : ∀ x ∈ xs, x.Passes possible) (e : AnalysisError) : .fault e ∉ xs := fun he => h _ he

/-- With and without a fragment that never applies the same is collected if and only if nothing is
selected inside the fragments that are first entered in it. So it is where none is spread in it. -/
theorem collectFields_fill_eq_iff (c : Collector) (parent : NamedType) (ts : List NamedType)
    (h : Hole) (name : String) (ds : List Directive) (body : List Selection) (pos : Position)
    (hdead : c.NeverApplies name ts) (ms ms' : List MergedField)
    (hwith : c.collectFields [h.fill [.inline (some name) ds body pos]] (some ts) parent = .ok ms)
    (hwithout : c.collectFields [h.fill []] (some ts) parent = .ok ms') :
    (ms = ms' ↔
      ∀ x ∈ c.visitsOf parent (h.fill []),
        x.isIn (c.enteredIn parent h (.inline (some name) ds body pos)) →
          x.additions (some ts) = []) ∧
      (c.spreadsOf body = [] → ms = ms') := by
  obtain ⟨hp, rfl⟩ := Collector.collectFields_eq_ok_iff.1 hwith
  obtain ⟨hp', rfl⟩ := Collector.collectFields_eq_ok_iff.1 hwithout
  rw [List.flatMap_cons, List.flatMap_nil, List.append_nil] at hp hp' ⊢
  rw [List.flatMap_cons, List.flatMap_nil, List.append_nil,
    Collector.flatMap_additions_fill hdead parent h (Visit.Passes.ne_fault hp)
      (Visit.Passes.ne_fault hp'), toList_addAll_filter_iff]
  simp only [Bool.not_eq_false', true_and]
  intro hbody x hx hin
  have hs : c.spreads (.inline (some name) ds body pos) = [] := by
    rw [Collector.spreads, hbody, ite_self]
  rw [Collector.enteredIn_of_spreads_nil hs parent h, Visit.isIn_nil] at hin
  cases hin

theorem Pets.neverApplies_cat : Pets.collector.NeverApplies "Cat" [Pets.dog] := by
  refine ⟨Pets.cat, rfl, rfl, fun admitted h u hu t ht => ?_⟩
  cases h
  rw [List.mem_singleton.1 hu, List.mem_singleton.1 ht]
  decide

/-- What is said of a cat in `{ ... on Cat { tag: name } ...Names tag: name }` is nothing to a dog. -/
theorem collectFields_fill_eq_iff_tagged :
    Pets.collector.NeverApplies "Cat" [Pets.dog] ∧
      ∃ ms ms',
        Pets.collector.collectFields [Pets.tagged] (some [Pets.dog]) Pets.animal = .ok ms ∧
        Pets.collector.collectFields [[.spread "Names" [] ⟨"", 1, 28⟩, Pets.nameAs "tag" 37]]
          (some [Pets.dog]) Pets.animal = .ok ms' ∧
        ms = ms' ∧ ms'.map (·.label) = ["Dog.name", "Dog.tag"] :=
  ⟨Pets.neverApplies_cat, _, _, rfl, rfl,
    (collectFields_fill_eq_iff Pets.collector Pets.animal [Pets.dog]
      (.here [] [.spread "Names" [] ⟨"", 1, 28⟩, Pets.nameAs "tag" 37]) "Cat" []
      [Pets.nameAs "tag" 16] ⟨"", 1, 3⟩ Pets.neverApplies_cat _ _ rfl rfl).2 rfl, rfl⟩

/-- In `{ ... on Cat { ...Names } ...Names }` a dog loses its name to a fragment that never applies. -/
theorem fill_neverApplies_ne :
    ¬ ∀ (c : Collector) (parent : NamedType) (ts : List NamedType) (h : Hole) (name : String)
      (ds : List Directive) (body : List Selection) (pos : Position), c.NeverApplies name ts →
      ∀ ms ms',
        c.collectFields [h.fill [.inline (some name) ds body pos]] (some ts) parent = .ok ms →
        c.collectFields [h.fill []] (some ts) parent = .ok ms' → ms = ms' := by
  intro hclaim
  have heq := hclaim Pets.collector Pets.dog [Pets.dog] (.here [] [.spread "Names" [] ⟨"", 1, 27⟩])
    "Cat" [] [.spread "Names" [] ⟨"", 1, 16⟩] ⟨"", 1, 3⟩ Pets.neverApplies_cat _ _ rfl rfl
  exact absurd (congrArg List.length heq) (by decide)

end OperationGraph
