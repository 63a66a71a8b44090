import OperationGraph.Proofs.Selection.SingleType

/-! # Fragments spread once

A walk for many object types and a walk for one of them enter fragments at different places. Where no
fragment is spread twice they come to the nodes of that type in the same order. -/

namespace OperationGraph

namespace Collector

mutual

/-- The names of the fragments spread in a selection, those below field nodes left out. An excluded
selection spreads none. -/
def spreads (c : Collector) : Selection → List String
  | .field _ => []
  | .inline _ ds selections _ =>
    if isIncluded ds c.variableValues then spreadsOf c selections else []
  | .spread name ds _ => if isIncluded ds c.variableValues then [name] else []

/-- The names of the fragments spread in a selection set, those below field nodes left out. -/
def spreadsOf (c : Collector) : List Selection → List String
  | [] => []
  | s :: rest => spreads c s ++ spreadsOf c rest

end

theorem spreadsOf_append (c : Collector) (A B : List Selection) :
    c.spreadsOf (A ++ B) = c.spreadsOf A ++ c.spreadsOf B := by
  induction A with
  | nil => rfl
  | cons s rest ih => simp [spreadsOf, ih]

/-- The names spread in the body of a fragment. -/
def spreadsIn (c : Collector) (name : String) : List String :=
  match c.fragment? name with
  | none => []
  | some f => c.spreadsOf f.selections

/-- A selection that opens spreads what its body spreads, or the fragment that it enters. -/
theorem Opens.spreads_cases {c : Collector} {v : List String} {s : Selection} {sc : Scope}
    {body : List Selection} (ho : Opens c v s sc body) :
    (sc.fragment = none ∧ c.spreads s = c.spreadsOf body) ∨
      ∃ name, sc.fragment = some name ∧ name ∉ v ∧ c.spreads s = [name] ∧
        c.spreadsIn name = c.spreadsOf body := by
  cases ho with
  | plain hi => exact .inl ⟨rfl, by rw [spreads, if_pos hi]⟩
  | narrowed hi hg => exact .inl ⟨rfl, by rw [spreads, if_pos hi]⟩
  | fragment hi hv hf hg =>
    exact .inr ⟨_, rfl, hv, by rw [spreads, if_pos hi], by rw [spreadsIn, hf]⟩

/-- A fragment that is spread at the root, or in the body of a fragment that can be come to. -/
inductive Reachable (c : Collector) (roots : List String) : String → Prop
  | root {name} (h : name ∈ roots) : Reachable c roots name
  | inside {name m} (h : Reachable c roots m) (hm : name ∈ c.spreadsIn m) : Reachable c roots name

/-- No name occurs twice at the root and in the bodies of different fragments that can be come to. -/
def SpreadOnce (c : Collector) (roots : List String) : Prop :=
  ∀ names : List String, names.Nodup → (∀ name ∈ names, c.Reachable roots name) →
    (roots ++ names.flatMap c.spreadsIn).Nodup

/-- What is still to come: no fragment twice, and none that was entered. -/
structure Fresh (c : Collector) (roots v : List String) : Prop where
  once : c.SpreadOnce roots
  new : ∀ name, c.Reachable roots name → name ∉ v

section
variable {c : Collector} {roots v : List String} {name : String}

theorem Reachable.mono {others : List String} (h : c.Reachable roots name)
    (hsub : roots ⊆ others) : c.Reachable others name := by
  induction h with
  | root h => exact .root (hsub h)
  | inside h hm ih => exact .inside ih hm

theorem Fresh.drop {before : List String} (h : c.Fresh (before ++ roots) v) : c.Fresh roots v where
  once names hnodup hr := by
    have hall := h.once names hnodup fun m hm => (hr m hm).mono (List.subset_append_right _ _)
    rw [List.append_assoc] at hall
    exact hall.of_append_right
  new m hm := h.new m (hm.mono (List.subset_append_right _ _))

/-- Opening a fragment brings nothing that could not be come to before. -/
theorem Reachable.of_opened {m : String} (h : c.Reachable (c.spreadsIn name ++ roots) m) :
    c.Reachable (name :: roots) m := by
  induction h with
  | root h =>
    rcases List.mem_append.1 h with h | h
    · exact .inside (.root List.mem_cons_self) h
    · exact .root (List.mem_cons_of_mem _ h)
  | inside h hm ih => exact .inside ih hm

/-- A fragment that is spread once does not occur again when it has been opened. -/
theorem SpreadOnce.ne_of_opened (h : c.SpreadOnce (name :: roots)) {m : String}
    (hm : c.Reachable (c.spreadsIn name ++ roots) m) : m ≠ name := by
  -- together with the body of one more fragment there is one occurrence, at the root
  have hnot : ∀ k, c.Reachable (name :: roots) k → name ∉ roots ∧ name ∉ c.spreadsIn k := by
    intro k hk
    have hk := h [k] (List.nodup_singleton k) (by simpa using hk)
    simp only [List.flatMap_cons, List.flatMap_nil, List.append_nil, List.cons_append,
      List.nodup_cons, List.mem_append, not_or] at hk
    exact hk.1
  rintro rfl
  cases hm with
  | root hm =>
    have hself := hnot m (.root List.mem_cons_self)
    rcases List.mem_append.1 hm with hm | hm
    · exact hself.2 hm
    · exact hself.1 hm
  | inside hk hm => exact (hnot _ hk.of_opened).2 hm

theorem Fresh.enter (h : c.Fresh (name :: roots) v) :
    c.Fresh (c.spreadsIn name ++ roots) (name :: v) where
  once names hnodup hr := by
    have hname : name ∉ names := fun hmem => h.once.ne_of_opened (hr name hmem) rfl
    have hall := h.once (name :: names) (List.nodup_cons.2 ⟨hname, hnodup⟩) (by
      intro m hm
      rcases List.mem_cons.1 hm with rfl | hm
      · exact .root List.mem_cons_self
      · exact (hr m hm).of_opened)
    rw [List.cons_append, List.nodup_cons, List.flatMap_cons, ← List.append_assoc] at hall
    exact (List.perm_append_comm.append_right _).nodup_iff.1 hall.2
  new m hm := by
    rw [List.mem_cons, not_or]
    exact ⟨h.once.ne_of_opened hm, h.new m hm.of_opened⟩

theorem Opens.fresh {s : Selection} {sc : Scope} {body : List Selection}
    (ho : Opens c v s sc body) (h : c.Fresh (c.spreads s ++ roots) v) :
    c.Fresh (c.spreadsOf body ++ roots) (sc.fragment.toList ++ v) := by
  rcases ho.spreads_cases with ⟨hsc, hs⟩ | ⟨name, hsc, -, hs, hin⟩
  · rw [hsc, ← hs]
    exact h
  · rw [hs] at h
    rw [hsc, ← hin]
    exact h.enter

end

section
variable {c : Collector} {t : NamedType} {v w : List String} {s : Selection}
  {rest : List Selection}

theorem collectFor_spread_none {name : String} {ds : List Directive} {pos : Position}
    (hf : c.fragment? name = none) :
    c.collectFor t (.spread name ds pos :: rest) w = c.collectFor t rest w := by
  rw [collectFor]
  split
  · rw [hf]
  · rfl

theorem collectFor_spread_some {name : String} {ds : List Directive} {pos : Position}
    {f : Fragment} (hi : isIncluded ds c.variableValues) (hw : name ∉ w)
    (hf : c.fragment? name = some f) :
    c.collectFor t (.spread name ds pos :: rest) w =
      if c.appliesTo t f.condition then c.collectFor t (f.selections ++ rest) (name :: w)
      else c.collectFor t rest w := by
  rw [collectFor, dif_pos ⟨hi, hw⟩, hf]

theorem collectFor_cons_of_excluded (h : isIncluded s.directives c.variableValues = false) :
    c.collectFor t (s :: rest) w = c.collectFor t rest w := by
  cases s with
  | field n => simp_all [collectFor, Selection.directives]
  | inline condition ds body pos => simp_all [collectFor, Selection.directives]
  | spread name ds pos => simp_all [collectFor, Selection.directives]

theorem collectFor_cons_nothing (h : c.opening v s = .nothing)
    (hv : ∀ name ∈ c.spreads s, name ∉ v) :
    c.collectFor t (s :: rest) w = c.collectFor t rest w := by
  by_cases hi : isIncluded s.directives c.variableValues
  · rcases opening_eq_nothing h with hnot | ⟨name, ds, pos, rfl, hmem⟩
    · simp [hi] at hnot
    · exact absurd hmem (hv name (by simpa [spreads, Selection.directives] using hi))
  · exact collectFor_cons_of_excluded (by simpa using hi)

theorem collectFor_cons_node {n : Field} (h : c.opening v s = .node n) :
    c.collectFor t (s :: rest) w =
      if (t.field? n.name).isSome then n :: c.collectFor t rest w else c.collectFor t rest w := by
  obtain ⟨rfl, hi⟩ := opening_eq_node h
  rw [collectFor]
  simp [hi]

theorem collectFor_cons_fault {e : AnalysisError} (h : c.opening v s = .fault e) :
    c.collectFor t (s :: rest) w = c.collectFor t rest w := by
  rcases opening_eq_fault h with
    ⟨name, ds, body, pos, rfl, hg⟩ | ⟨name, ds, pos, rfl, ⟨hf, -⟩ | ⟨f, hf, hg⟩⟩
  · rw [collectFor]
    simp [appliesTo_eq_guard name pos, hg]
  · exact collectFor_spread_none hf
  · by_cases hi : isIncluded ds c.variableValues ∧ name ∉ w
    · rw [collectFor_spread_some hi.1 hi.2 hf]
      simp [appliesTo_eq_guard f.condition f.pos, hg]
    · rw [collectFor, dif_neg hi]

theorem collectFor_cons_body {sc : Scope} {body : List Selection} (h : Opens c v s sc body)
    (hw : w ⊆ v) :
    c.collectFor t (s :: rest) w =
      if sc.admits t then c.collectFor t (body ++ rest) (sc.fragment.toList ++ w)
      else c.collectFor t rest w := by
  cases h with
  | plain hi =>
    rw [collectFor]
    simp [hi, Scope.admits]
  | @narrowed name ds body pos g hi hg =>
    rw [collectFor]
    simp [hi, Scope.admits, appliesTo_eq_guard name pos, hg]
  | @fragment name ds pos f g hi hv hf hg =>
    rw [collectFor_spread_some hi (fun hmem => hv (hw hmem)) hf]
    simp [Scope.admits, appliesTo_eq_guard f.condition f.pos, hg]

def waitingFor (t : NamedType) (items : List (Place × Selection)) : List Selection :=
  (items.filter (·.1.admits t)).map (·.2)

theorem waitingFor_cons (p : Place) (s : Selection) (items : List (Place × Selection)) :
    waitingFor t ((p, s) :: items) =
      if p.admits t then s :: waitingFor t items else waitingFor t items := by
  by_cases hp : p.admits t <;> simp [waitingFor, hp]

theorem waitingFor_body (p : Place) (body : List Selection) (items : List (Place × Selection)) :
    waitingFor t (body.map (p, ·) ++ items) =
      if p.admits t then body ++ waitingFor t items else waitingFor t items := by
  induction body with
  | nil => simp
  | cons s rest ih =>
    rw [List.map_cons, List.cons_append, waitingFor_cons, ih]
    split <;> rfl

end

/-- Where no fragment is spread twice, a walk for all types comes to the nodes of each in the order in
which a walk for it alone does. -/
theorem flatMap_nodesFor_visits {c : Collector} (t : NamedType) (items : List (Place × Selection))
    (v w : List String) (hw : w ⊆ v)
    (hfresh : c.Fresh (c.spreadsOf (items.map (·.2))) v) :
    (c.visits items v).1.flatMap (Visit.nodesFor t) = c.collectFor t (waitingFor t items) w := by
  fun_induction visits c items v generalizing w with
  | case1 v => simp [waitingFor, collectFor]
  | case2 p s rest v ho ih =>
    rw [List.map_cons, spreadsOf] at hfresh
    have hs : ∀ name ∈ c.spreads s, name ∉ v := fun name hname =>
      hfresh.new name (.root (List.mem_append_left _ hname))
    rw [ih w hw hfresh.drop, waitingFor_cons]
    split
    · rw [collectFor_cons_nothing ho hs]
    · rfl
  | case3 p s rest v n ho ih =>
    rw [List.map_cons, spreadsOf] at hfresh
    rw [List.flatMap_cons, ih w hw hfresh.drop, waitingFor_cons, Visit.nodesFor]
    by_cases hp : p.admits t
    · rw [if_pos hp, collectFor_cons_node ho]
      by_cases hn : (t.field? n.name).isSome <;> simp [hp, hn]
    · simp [hp]
  | case4 p s rest v e ho ih =>
    rw [List.map_cons, spreadsOf] at hfresh
    rw [List.flatMap_cons, ih w hw hfresh.drop, waitingFor_cons, Visit.nodesFor, List.nil_append]
    split
    · rw [collectFor_cons_fault ho]
    · rfl
  | case5 p s rest v sc body ho ih =>
    have hopens := opening_eq_body_iff.1 ho
    rw [List.map_cons, spreadsOf] at hfresh
    have hbody : c.Fresh (c.spreadsOf
        ((body.map (p.enter sc, ·) ++ rest).map (·.2))) (sc.fragment.toList ++ v) := by
      rw [List.map_append, List.map_map, spreadsOf_append]
      simpa [Function.comp_def] using hopens.fresh hfresh
    have hv : w ⊆ sc.fragment.toList ++ v := List.Subset.trans hw (List.subset_append_right _ v)
    rw [waitingFor_cons]
    by_cases hp : p.admits t
    · rw [if_pos hp, collectFor_cons_body hopens hw]
      by_cases hsc : sc.admits t
      · have hsub : sc.fragment.toList ++ w ⊆ sc.fragment.toList ++ v := List.append_subset.2
          ⟨List.subset_append_left _ v, hv⟩
        rw [if_pos hsc, ih (sc.fragment.toList ++ w) hsub hbody, waitingFor_body,
          if_pos (by simp [Place.admits_enter, hp, hsc])]
      · rw [if_neg hsc, ih w hv hbody, waitingFor_body,
          if_neg (by simp [Place.admits_enter, hsc])]
    · rw [if_neg hp, ih w hv hbody, waitingFor_body,
        if_neg (by simp [Place.admits_enter, hp])]

theorem flatMap_nodesFor_visitsOf {c : Collector} (t parent : NamedType)
    {selections : List Selection} (h : c.SpreadOnce (c.spreadsOf selections)) :
    (c.visitsOf parent selections).flatMap (Visit.nodesFor t) = c.collectFor t selections [] := by
  have hroots : (selections.map (({ parent } : Place), ·)).map (·.2) = selections := by
    simp [Function.comp_def]
  have hwaiting : waitingFor t (selections.map (({ parent } : Place), ·)) = selections := by
    have hall := waitingFor_body (t := t) { parent } selections []
    simpa [waitingFor, Place.admits] using hall
  rw [visitsOf, flatMap_nodesFor_visits t _ [] [] (List.Subset.refl _), hwaiting]
  rw [hroots]
  exact ⟨h, fun name _ => List.not_mem_nil⟩

end Collector

def MergedField.nodesAt (ms : List MergedField) (key type : String) : List Field :=
  (ms.filter (MergedField.isFor key type)).flatMap (·.nodes)

theorem nodesAt_addAll (as : List Addition) (key type : String) :
    MergedField.nodesAt (FieldGroups.addAll [] as).toList key type =
      (as.filter (Addition.isFor key type)).map (·.node) := by
  rw [MergedField.nodesAt, FieldGroups.filter_toList_addAll]
  cases as.filter (Addition.isFor key type) <;> simp [Addition.merge]

/-- The nodes of an object type under a key are those of the visits at places that admit it. -/
theorem nodesAt_eq_nodesFor {c : Collector} {selections : List Selection} {parent : NamedType}
    {ts : List NamedType} (hs : c.schema.DeclaresNoMeta) (hts : c.schema.ObjectTypes ts)
    {ms : List MergedField} (h : c.collectFields [selections] (some ts) parent = .ok ms)
    {t : NamedType} (ht : t ∈ ts) (key : String) :
    MergedField.nodesAt ms key t.name =
      ((c.visitsOf parent selections).flatMap (Visit.nodesFor t)).filter (·.key = key) := by
  obtain ⟨hp, rfl⟩ := Collector.collectFields_eq_ok_iff.1 h
  rw [List.flatMap_cons, List.flatMap_nil, List.append_nil] at hp ⊢
  have hfor : Addition.isFor key t.name =
      fun a => decide (a.key = key) && decide (a.type.name = t.name) := rfl
  rw [nodesAt_addAll, hfor, ← List.filter_filter, filter_type_flatMap_additions hs hts ht hp,
    List.filter_flatMap, List.map_flatMap, List.filter_flatMap]
  simp only [Visit.map_node_filter_additions]

/-- Collecting for several object types gives each of them only nodes that it gets when fragments are
entered for it alone, and all of them in the same order if no fragment is spread twice. -/
theorem collectFields_refines_collectFor (c : Collector) (selections : List Selection)
    (parent : NamedType) (ts : List NamedType) (hs : c.schema.DeclaresNoMeta)
    (hts : c.schema.ObjectTypes ts) (ms : List MergedField)
    (h : c.collectFields [selections] (some ts) parent = .ok ms) :
    (∀ t ∈ ts, ∀ key, ∀ n ∈ MergedField.nodesAt ms key t.name,
        n ∈ (c.collectFor t selections []).filter (·.key = key)) ∧
      (c.SpreadOnce (c.spreadsOf selections) → ∀ t ∈ ts, ∀ key,
        MergedField.nodesAt ms key t.name =
          (c.collectFor t selections []).filter (·.key = key)) := by
  constructor
  · intro t ht key n hn
    rw [nodesAt_eq_nodesFor hs hts h ht key, List.mem_filter] at hn
    obtain ⟨i, hi, -, hreach⟩ := Collector.exists_reaches_of_mem hn.1
    obtain ⟨s, hmem, rfl⟩ := List.mem_map.1 hi
    have hreach : c.Reaches t [] selections n := hreach.mono (by simpa using hmem)
    exact List.mem_filter.2 ⟨hreach.mem_collectFor, hn.2⟩
  · intro honce t ht key
    rw [nodesAt_eq_nodesFor hs hts h ht key]
    rw [Collector.flatMap_nodesFor_visitsOf t parent honce]

namespace Pets

/-- A directive under the condition `$all`. -/
def ifAll (name : String) (column : Nat) : Directive where
  name := name
  arguments := [{ name := "if", value := .variable "all", pos := ⟨"", 1, column + name.length + 2⟩ }]
  pos := ⟨"", 1, column⟩

/-- The selections `{ ... on Cat @include(if: $all) { tag: name } ...Names @skip(if: $all) ...Names tag: name
tag: name @skip(if: $all) }`. -/
def taggedIf : List Selection :=
  [.inline (some "Cat") [ifAll "include" 14] [nameAs "tag" 35] ⟨"", 1, 3⟩,
    .spread "Names" [ifAll "skip" 56] ⟨"", 1, 47⟩, .spread "Names" [] ⟨"", 1, 72⟩, nameAs "tag" 81,
    .field { key := "tag", name := "name", directives := [ifAll "skip" 101], pos := ⟨"", 1, 91⟩ }]

def collectorOfAll : Collector := { collector with variableValues := [("all", .boolean true)] }

/-- A spread that is skipped does not count. -/
theorem spreadOnce_taggedIf : collectorOfAll.SpreadOnce (collectorOfAll.spreadsOf taggedIf) := by
  have hnames : ∀ name, collectorOfAll.Reachable (collectorOfAll.spreadsOf taggedIf) name →
      name = "Names" := by
    intro name h
    induction h with
    | root h => exact List.mem_singleton.1 h
    | inside h hm ih =>
      subst ih
      cases hm
  intro names hnodup hr
  have hnil : names.flatMap collectorOfAll.spreadsIn = [] :=
    List.flatMap_eq_nil_iff.2 fun name hname => by rw [hnames name (hr name hname)]; rfl
  rw [hnil]
  decide

end Pets

/-- A cat gets its tag twice and a dog once, as each does alone; a third tag is skipped. -/
theorem collectFields_refines_collectFor_pets :
    ∃ ms,
      Pets.collectorOfAll.collectFields [Pets.taggedIf] (some [Pets.cat, Pets.dog]) Pets.animal =
        .ok ms ∧
      (MergedField.nodesAt ms "tag" "Cat").map (·.pos.column) = [35, 81] ∧
      (MergedField.nodesAt ms "tag" "Dog").map (·.pos.column) = [81] ∧
      (∀ n ∈ MergedField.nodesAt ms "tag" "Dog",
        n ∈ (Pets.collectorOfAll.collectFor Pets.dog Pets.taggedIf []).filter (·.key = "tag")) ∧
      ∀ t ∈ [Pets.cat, Pets.dog], ∀ key, MergedField.nodesAt ms key t.name =
        (Pets.collectorOfAll.collectFor t Pets.taggedIf []).filter (·.key = key) :=
  have h := fun ms => collectFields_refines_collectFor Pets.collectorOfAll Pets.taggedIf Pets.animal
    [Pets.cat, Pets.dog] Pets.declaresNoMeta Pets.objectTypes ms
  ⟨_, rfl, rfl, rfl, (h _ rfl).1 Pets.dog (by simp) "tag", (h _ rfl).2 Pets.spreadOnce_taggedIf⟩

end OperationGraph
