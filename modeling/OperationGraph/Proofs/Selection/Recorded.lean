import Mathlib.Data.List.Flatten
import Mathlib.Data.List.Perm.Subperm
import OperationGraph.Proofs.Document.Parts
import OperationGraph.Proofs.Selection.Depth

/-! # Nodes are recorded once

A walk comes to the nodes of the selection set that it starts from and to those of fragments, no more often
than they stand there, because it enters a fragment once at most. Where no node of a document stands twice,
collecting therefore records none twice for a key and an object type (`nodup_nodes_of_collectFields`). -/

namespace OperationGraph

theorem subperm_flatMap {α β : Type} {xs ys : List α} (h : xs.Subperm ys) (f : α → List β) :
    (xs.flatMap f).Subperm (ys.flatMap f) := by
  obtain ⟨zs, hperm, hsub⟩ := h
  exact ⟨zs.flatMap f, hperm.flatMap fun _ _ => .refl _, hsub.flatMap f⟩

theorem sublist_flatMap_of_mem {α β : Type} {x : α} {xs : List α} (h : x ∈ xs) (f : α → List β) :
    (f x).Sublist (xs.flatMap f) := by
  simpa using (List.singleton_sublist.2 h).flatMap f

theorem nodup_map_of_subperm {α β : Type} {xs ys : List α} (h : xs.Subperm ys) {f : α → β}
    (hys : (ys.map f).Nodup) : (xs.map f).Nodup := by
  obtain ⟨zs, hperm, hsub⟩ := h
  exact (hperm.map f).nodup_iff.1 (hys.sublist (hsub.map f))

/-! ### The nodes of a document -/

namespace Selection

def node? : Selection → Option Field
  | .field n => some n
  | _ => none

/-- The nodes of a selection set at every depth, those in named fragments left out. -/
def nodesIn (selections : List Selection) : List Field := (partsOf selections).filterMap node?

theorem nodesIn_cons (s : Selection) (rest : List Selection) :
    nodesIn (s :: rest) = s.parts.filterMap node? ++ nodesIn rest := by
  rw [nodesIn, partsOf, List.filterMap_append, nodesIn]

mutual

/-- The nodes of a selection are those at its top and those below them. -/
theorem filterMap_node?_parts_perm (s : Selection) :
    (s.parts.filterMap node?).Perm (s.nodes ++ s.nodes.flatMap fun n => nodesIn n.selections) := by
  match s with
  | .field n => simp [parts_eq, nodes, inner, node?, nodesIn]
  | .inline condition ds selections pos =>
    rw [parts_eq, nodes]
    exact nodesIn_perm selections
  | .spread name ds pos => simp [parts, nodes, node?]

theorem nodesIn_perm (selections : List Selection) :
    (nodesIn selections).Perm
      (nodesOf selections ++ (nodesOf selections).flatMap fun n => nodesIn n.selections) := by
  match selections with
  | [] => simp [nodesIn, partsOf, nodesOf]
  | s :: rest =>
    rw [nodesIn_cons, nodesOf, List.flatMap_append]
    refine ((filterMap_node?_parts_perm s).append (nodesIn_perm rest)).trans ?_
    simp only [List.append_assoc]
    refine List.Perm.append_left _ ?_
    simp only [← List.append_assoc]
    exact List.Perm.append_right _ List.perm_append_comm

end

theorem nodesOf_subperm_nodesIn (selections : List Selection) :
    (nodesOf selections).Subperm (nodesIn selections) :=
  ((nodesIn_perm selections).subperm_left).2 (List.sublist_append_left _ _).subperm

mutual

/-- A node at some depth stands at the top, or below a node there. -/
theorem exists_mem_nodes {n : Field} (s : Selection) (h : .field n ∈ s.parts) :
    ∃ m ∈ s.nodes, (partsOf n.selections).Sublist (partsOf m.selections) := by
  match s with
  | .field m =>
    rw [parts_eq] at h
    refine ⟨m, by simp [nodes], ?_⟩
    rcases List.mem_cons.1 h with heq | hbelow
    · rw [Selection.field.inj heq]
    · exact partsOf_inner_sublist m.selections hbelow
  | .inline condition ds selections pos =>
    rw [parts_eq] at h
    rw [nodes]
    rcases List.mem_cons.1 h with heq | hinside
    · cases heq
    · exact exists_mem_nodesOf selections hinside
  | .spread name ds pos => simp [parts] at h

theorem exists_mem_nodesOf {n : Field} (selections : List Selection)
    (h : .field n ∈ partsOf selections) :
    ∃ m ∈ nodesOf selections, (partsOf n.selections).Sublist (partsOf m.selections) := by
  match selections with
  | [] => simp [partsOf] at h
  | s :: rest =>
    rw [partsOf] at h
    rw [nodesOf]
    rcases List.mem_append.1 h with h | h
    · obtain ⟨m, hm, hsub⟩ := exists_mem_nodes s h
      exact ⟨m, List.mem_append_left _ hm, hsub⟩
    · obtain ⟨m, hm, hsub⟩ := exists_mem_nodesOf rest h
      exact ⟨m, List.mem_append_right _ hm, hsub⟩

end

end Selection

namespace Document

def nodes (doc : Document) : List Field := doc.selections.filterMap Selection.node?

def fragmentNodes (doc : Document) : List Field :=
  doc.fragments.flatMap fun f => Selection.nodesOf f.selections

/-- The selection sets that collecting starts from: those of operations and of fields. -/
inductive StartsFrom (doc : Document) : List Selection → Prop
  | operation {op : Operation} (h : op ∈ doc.operations) : StartsFrom doc op.selections
  | field {n : Field} (h : .field n ∈ doc.selections) : StartsFrom doc n.selections

variable {doc : Document}

theorem nodes_perm (doc : Document) :
    doc.nodes.Perm (doc.selectionSets.flatMap Selection.nodesOf ++
      (doc.selectionSets.flatMap Selection.nodesOf).flatMap fun n => Selection.nodesIn n.selections) := by
  have hnodes : doc.nodes = doc.selectionSets.flatMap Selection.nodesIn := by
    rw [nodes, selections, List.filterMap_flatMap]
    rfl
  rw [hnodes, List.flatMap_assoc]
  exact (List.Perm.flatMap_left _ fun selections _ => Selection.nodesIn_perm selections).trans
    (List.flatMap_append_perm _ _ _).symm

/-- The nodes at the top of a selection set that collecting starts from and those at the top of fragments
all stand in the document, as often as they are listed. -/
theorem nodesOf_append_subperm_nodes {selections : List Selection} (h : doc.StartsFrom selections) :
    (Selection.nodesOf selections ++ doc.fragmentNodes).Subperm doc.nodes := by
  have htops : doc.selectionSets.flatMap Selection.nodesOf =
      (doc.operations.flatMap fun op => Selection.nodesOf op.selections) ++ doc.fragmentNodes := by
    simp [selectionSets, fragmentNodes, List.flatMap_map]
  rw [(nodes_perm doc).subperm_left]
  cases h with
  | operation hop =>
    have htop := sublist_flatMap_of_mem hop fun op => Selection.nodesOf op.selections
    rw [htops]
    exact ((htop.append_right _).trans (List.sublist_append_left _ _)).subperm
  | @field n hn =>
    -- what is below the node is below one at the top, and so apart from the nodes of fragments
    obtain ⟨set, hset, hpart⟩ := List.mem_flatMap.1 hn
    obtain ⟨m, hm, hsub⟩ := Selection.exists_mem_nodesOf set hpart
    have hbelow := sublist_flatMap_of_mem (List.mem_flatMap.2 ⟨set, hset, hm⟩)
      fun n => Selection.nodesIn n.selections
    have hnodes : (Selection.nodesOf n.selections).Subperm _ :=
      (Selection.nodesOf_subperm_nodesIn n.selections).trans
        ((hsub.filterMap Selection.node?).trans hbelow).subperm
    have hfragments : doc.fragmentNodes.Sublist (doc.selectionSets.flatMap Selection.nodesOf) :=
      htops ▸ List.sublist_append_right _ _
    exact List.perm_append_comm.subperm.trans (hfragments.subperm.append hnodes)

end Document

/-! ### What a walk comes to -/

def Visit.nodes : Visit → List Field
  | .node _ n => [n]
  | .fault _ => []

theorem Selection.nodesOf_append (A B : List Selection) :
    nodesOf (A ++ B) = nodesOf A ++ nodesOf B := by
  induction A with
  | nil => simp [nodesOf]
  | cons s rest ih => simp [nodesOf, ih]

namespace Collector
variable {c : Collector}

/-- The nodes at the top of the fragments that a walk has not entered yet. -/
def reserve (c : Collector) (v : List String) : List Field :=
  (c.fragments.filter fun f => !v.contains f.name).flatMap fun f => Selection.nodesOf f.selections

theorem reserve_nil (c : Collector) :
    c.reserve [] = c.fragments.flatMap fun f => Selection.nodesOf f.selections := by
  simp [reserve]

/-- Entering a fragment takes its nodes from the reserve. -/
theorem append_reserve_subperm {name : String} {f : Fragment} {v : List String}
    (hf : c.fragment? name = some f) (hv : name ∉ v) :
    (Selection.nodesOf f.selections ++ c.reserve (name :: v)).Subperm (c.reserve v) := by
  have hname : f.name = name := by simpa using List.find?_some hf
  have hwaits : f ∈ c.fragments.filter fun f => !v.contains f.name :=
    List.mem_filter.2 ⟨List.mem_of_find?_eq_some hf, by simpa [hname] using hv⟩
  have hothers : (c.fragments.filter fun f => !(name :: v).contains f.name) =
      (c.fragments.filter fun f => !v.contains f.name).filter fun f => !(f.name = name) := by
    rw [List.filter_filter]
    apply List.filter_congr
    intro g _
    simp
  have hsub : (f :: c.fragments.filter fun f => !(name :: v).contains f.name).Subperm
      (c.fragments.filter fun f => !v.contains f.name) := by
    rw [← (List.filter_append_perm (fun f => f.name = name) _).subperm_left, hothers]
    have hfound : [f].Sublist ((c.fragments.filter fun f => !v.contains f.name).filter
        fun f => f.name = name) :=
      List.singleton_sublist.2 (List.mem_filter.2 ⟨hwaits, by simpa using hname⟩)
    exact (hfound.append_right _).subperm
  exact subperm_flatMap hsub fun f => Selection.nodesOf f.selections

/-- A walk comes to the nodes of what waits and of fragments not yet entered, and to none of them more
often than it stands there. -/
theorem nodes_visits_subperm (c : Collector) (items : List (Place × Selection)) (v : List String) :
    ((c.visits items v).1.flatMap Visit.nodes).Subperm
      (Selection.nodesOf (items.map (·.2)) ++ c.reserve v) := by
  fun_induction visits c items v with
  | case1 v => exact List.nil_subperm
  | case2 p s rest v ho ih =>
    rw [List.map_cons, Selection.nodesOf, List.append_assoc]
    exact ih.trans (List.sublist_append_right _ _).subperm
  | case3 p s rest v n ho ih =>
    obtain ⟨rfl, -⟩ := opening_eq_node ho
    rw [List.map_cons, Selection.nodesOf, Selection.nodes]
    exact (List.subperm_cons n).2 ih
  | case4 p s rest v e ho ih =>
    rw [List.map_cons, Selection.nodesOf, List.append_assoc]
    exact ih.trans (List.sublist_append_right _ _).subperm
  | case5 p s rest v sc body ho ih =>
    have hmap : (body.map (p.enter sc, ·) ++ rest).map (·.2) = body ++ rest.map (·.2) := by
      simp [Function.comp_def]
    rw [hmap, Selection.nodesOf_append] at ih
    rw [List.map_cons, Selection.nodesOf]
    cases opening_eq_body_iff.1 ho with
    | plain hi => exact ih
    | narrowed hi hg => exact ih
    | @fragment name ds pos f g hi hv hf hg =>
      rw [Selection.nodes, List.nil_append]
      -- the body is behind the selections that waited, as the reserve is
      have hperm : (Selection.nodesOf f.selections ++ Selection.nodesOf (rest.map (·.2)) ++
          c.reserve (name :: v)).Perm (Selection.nodesOf (rest.map (·.2)) ++
            (Selection.nodesOf f.selections ++ c.reserve (name :: v))) := by
        rw [← List.append_assoc]
        exact List.perm_append_comm.append_right _
      refine (ih.trans hperm.subperm).trans ?_
      exact (List.subperm_append_left _).2 (append_reserve_subperm hf hv)

theorem nodes_visitsOf_subperm (c : Collector) (parent : NamedType) (selections : List Selection) :
    ((c.visitsOf parent selections).flatMap Visit.nodes).Subperm
      (Selection.nodesOf selections ++ c.reserve []) := by
  have h := nodes_visits_subperm c (selections.map ({ parent }, ·)) []
  rwa [List.map_map, Function.comp_def, List.map_id'] at h

end Collector

/-! ### Names of possible types -/

/-- The possible types have distinct names; without a restriction, those of every type have. -/
def TypeSet.Distinct (s : Schema) : TypeSet → Prop
  | some ts => (ts.map (·.name)).Nodup
  | none => ∀ t ts, s.possibleTypes t = .ok ts → (ts.map (·.name)).Nodup

/-- The conditions around a place admit the possible types of some type each. -/
def Place.IsGuardedBy (p : Place) (s : Schema) : Prop := ∀ ts ∈ p.guards, ∃ t, s.possibleTypes t = .ok ts

theorem TypeSet.Distinct.nodup_within {s : Schema} {possible : TypeSet} (h : possible.Distinct s)
    {p : Place} (hp : p.IsGuardedBy s) : ((possible.within p).toList.map (·.name)).Nodup := by
  cases possible with
  | some ts =>
    rw [within_some]
    exact h.sublist (List.filter_sublist.map _)
  | none =>
    rw [TypeSet.within]
    cases hguards : p.guards with
    | nil => exact List.nodup_nil
    | cons ts guards =>
      -- the outermost condition takes the place of the restriction
      obtain ⟨t, ht⟩ := hp ts (by simp [hguards])
      rw [List.foldl_cons, TypeSet.restrict, foldl_restrict]
      exact (h t ts ht).sublist (List.filter_sublist.map _)

namespace Collector
variable {c : Collector}

theorem possibleTypes_of_guard {name : String} {pos : Position} {g : List NamedType × NamedType}
    (h : c.guard name pos = .ok g) : c.schema.possibleTypes g.2 = .ok g.1 := by
  unfold guard at h
  split at h
  · cases h
  · next t _ =>
    cases hts : c.possibleTypes t (some pos) with
    | error e => simp [hts] at h
    | ok ts =>
      simp only [hts, Except.ok.injEq] at h
      exact h ▸ possibleTypes_eq_ok hts

theorem isGuardedBy_enter {v : List String} {s : Selection} {sc : Scope} {body : List Selection}
    (h : Opens c v s sc body) {p : Place} (hp : p.IsGuardedBy c.schema) :
    (p.enter sc).IsGuardedBy c.schema := by
  have hguard {name : String} {pos : Position} {g : List NamedType × NamedType}
      (hg : c.guard name pos = .ok g) : ∀ ts ∈ p.guards ++ [g.1], ∃ t, c.schema.possibleTypes t = .ok ts :=
    List.forall_mem_append.2 ⟨hp, by simpa using ⟨g.2, possibleTypes_of_guard hg⟩⟩
  cases h with
  | plain hi => simpa [Place.IsGuardedBy, Place.enter] using hp
  | narrowed hi hg => exact hguard hg
  | fragment hi hv hf hg => exact hguard hg

theorem isGuardedBy_of_mem_visits {items : List (Place × Selection)} {v : List String}
    (hitems : ∀ i ∈ items, i.1.IsGuardedBy c.schema) {p : Place} {n : Field}
    (h : .node p n ∈ (c.visits items v).1) : p.IsGuardedBy c.schema := by
  fun_induction visits c items v with
  | case1 v => cases h
  | case2 q s rest v ho ih => exact ih (List.forall_mem_cons.1 hitems).2 h
  | case3 q s rest v m ho ih =>
    obtain ⟨hq, hrest⟩ := List.forall_mem_cons.1 hitems
    rcases List.mem_cons.1 h with heq | h
    · exact (Visit.node.inj heq).1 ▸ hq
    · exact ih hrest h
  | case4 q s rest v e ho ih =>
    rcases List.mem_cons.1 h with heq | h
    · cases heq
    · exact ih (List.forall_mem_cons.1 hitems).2 h
  | case5 q s rest v sc body ho ih =>
    obtain ⟨hq, hrest⟩ := List.forall_mem_cons.1 hitems
    have hbody := isGuardedBy_enter (opening_eq_body_iff.1 ho) hq
    exact ih (List.forall_mem_append.2 ⟨List.forall_mem_map.2 fun _ _ => hbody, hrest⟩) h

theorem isGuardedBy_of_mem_visitsOf {parent : NamedType} {selections : List Selection} {p : Place}
    {n : Field} (h : .node p n ∈ c.visitsOf parent selections) : p.IsGuardedBy c.schema := by
  have hstart : Place.IsGuardedBy { parent } c.schema := fun ts hts => absurd hts List.not_mem_nil
  exact isGuardedBy_of_mem_visits (List.forall_mem_map.2 fun _ _ => hstart) h

end Collector

/-! ### What is recorded -/

namespace Visit

/-- For a key and one of several types with distinct names, a node is added once at most. -/
theorem filter_attributed_sublist (n : Field) {ts : List NamedType} (hts : (ts.map (·.name)).Nodup)
    (key type : String) :
    (((attributed n ts).filter (Addition.isFor key type)).map (·.node)).Sublist [n] := by
  induction ts with
  | nil => exact List.nil_sublist _
  | cons t rest ih =>
    rw [List.map_cons, List.nodup_cons] at hts
    rw [attributed]
    cases hf : t.field? n.name with
    | none => exact List.nil_sublist _
    | some f =>
      dsimp only
      by_cases ht : n.key = key ∧ t.name = type
      · -- no other type has the name of this one
        have hnone : (attributed n rest).filter (Addition.isFor key type) = [] := by
          rw [List.filter_eq_nil_iff]
          intro a ha hfor
          obtain ⟨-, -, hmem, -⟩ := mem_attributed ha
          simp only [Addition.isFor, Bool.and_eq_true, decide_eq_true_eq] at hfor
          exact hts.1 (List.mem_map.2 ⟨a.type, hmem, hfor.2.trans ht.2.symm⟩)
        rw [List.filter_cons_of_pos (by simpa [Addition.isFor] using ht), hnone]
        exact List.Sublist.refl _
      · rw [List.filter_cons_of_neg (by simpa [Addition.isFor] using ht)]
        exact ih hts.2

end Visit

/-- The nodes of a merged field are nodes that the walk has come to, in order. -/
theorem nodes_sublist_of_mem {possible : TypeSet} {xs : List Visit}
    (hxs : ∀ p n, .node p n ∈ xs → ((possible.within p).toList.map (·.name)).Nodup) {m : MergedField}
    (hm : m ∈ (FieldGroups.addAll [] (xs.flatMap (Visit.additions possible))).toList) :
    m.nodes.Sublist (xs.flatMap Visit.nodes) := by
  obtain ⟨a, rest, hfilter, hmerge⟩ := exists_merge_of_mem hm
  have hnodes : m.nodes = xs.flatMap fun x =>
      ((x.additions possible).filter (Addition.isFor m.key m.objectType.name)).map (·.node) := by
    rw [← List.map_flatMap, ← List.filter_flatMap, hfilter]
    exact congrArg MergedField.nodes hmerge
  rw [hnodes]
  apply List.Sublist.flatMap_right
  intro x hx
  cases x with
  | fault e => exact List.nil_sublist _
  | node p n => exact Visit.filter_attributed_sublist n (hxs p n hx) _ _

/-- Where no node of a document stands twice, collecting from one selection set for types with distinct
names records no node twice for a key and a type. -/
theorem Collector.nodup_nodes_of_collectFields {α : Type} {mark : Field → α} {doc : Document}
    (hdoc : (doc.nodes.map mark).Nodup) {c : Collector} (hc : c.fragments = doc.fragments)
    {selections : List Selection} (hset : doc.StartsFrom selections) {possible : TypeSet}
    (hpossible : possible.Distinct c.schema) {parent : NamedType} {ms : List MergedField}
    (h : c.collectFields [selections] possible parent = .ok ms) :
    ∀ m ∈ ms, (m.nodes.map mark).Nodup := by
  obtain ⟨-, rfl⟩ := collectFields_eq_ok_iff.1 h
  rw [List.flatMap_singleton]
  intro m hm
  have hreserve : c.reserve [] = doc.fragmentNodes := by
    rw [reserve_nil, hc, Document.fragmentNodes]
  have hwalk := nodes_visitsOf_subperm c parent selections
  rw [hreserve] at hwalk
  have hnodes := nodes_sublist_of_mem
    (fun p n hn => hpossible.nodup_within (isGuardedBy_of_mem_visitsOf hn)) hm
  apply nodup_map_of_subperm _ hdoc
  exact hnodes.subperm.trans (hwalk.trans (Document.nodesOf_append_subperm_nodes hset))

end OperationGraph
