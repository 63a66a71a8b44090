import Mathlib.Data.Fintype.Card
import Mathlib.Data.Set.Finite.List
import OperationGraph.Proofs.Selection.Origin

/-! # How deep fields nest

Fragments may spread one another in a cycle, and the fields below a selection set still nest to a finite
depth as long as no cycle goes below a field: the fragments that are come to below a field of a fragment
are then fewer and fewer. -/

namespace OperationGraph

/-- A fragment that can be come to from a selection set, by spreads and into the selections of fields;
the flag says whether the way goes below a field. -/
inductive Leads (fragments : List Fragment) : Bool → List Selection → Fragment → Prop
  | spread {selections name ds pos f} (hmem : .spread name ds pos ∈ selections)
      (hf : fragments.find? (·.name = name) = some f) : Leads fragments false selections f
  | inline {selections condition ds body pos below f}
      (hmem : .inline condition ds body pos ∈ selections) (h : Leads fragments below body f) :
      Leads fragments below selections f
  | field {selections n below f} (hmem : .field n ∈ selections)
      (h : Leads fragments below n.selections f) : Leads fragments true selections f
  | inside {selections below below' f g} (h : Leads fragments below selections f)
      (h' : Leads fragments below' f.selections g) : Leads fragments (below || below') selections g

/-- No fragment can be come to from itself on a way that goes below a field. -/
def Document.NoFieldCycle (doc : Document) : Prop :=
  ∀ f ∈ doc.fragments, ¬ Leads doc.fragments true f.selections f

section
variable {fragments : List Fragment}

namespace Leads

theorem mono {below : Bool} {selections others : List Selection} {f : Fragment}
    (h : Leads fragments below selections f) (hsub : selections ⊆ others) :
    Leads fragments below others f := by
  induction h with
  | spread hmem hf => exact .spread (hsub hmem) hf
  | inline hmem h _ => exact .inline (hsub hmem) h
  | field hmem h _ => exact .field (hsub hmem) h
  | inside _ h' ih _ => exact .inside (ih hsub) h'

theorem mem {below : Bool} {selections : List Selection} {f : Fragment}
    (h : Leads fragments below selections f) : f ∈ fragments := by
  induction h with
  | spread _ hf => exact List.mem_of_find?_eq_some hf
  | inline _ _ ih => exact ih
  | field _ _ ih => exact ih
  | inside _ _ _ ih => exact ih

theorem not_nil {below : Bool} {f : Fragment} : ¬ Leads fragments below [] f := by
  intro h
  generalize hnil : ([] : List Selection) = selections at h
  induction h with
  | spread hmem | inline hmem | field hmem =>
    subst hnil
    cases hmem
  | inside _ _ ih => exact ih hnil

end Leads

/-- What can be come to below a node can be come to below a field from where the node is. -/
theorem Selects.leads {selections : List Selection} {n : Field} (hn : Selects fragments selections n)
    {below : Bool} {f : Fragment} (h : Leads fragments below n.selections f) :
    Leads fragments true selections f := by
  induction hn with
  | field hmem => exact .field hmem h
  | inline hmem _ ih => exact .inline hmem (ih h)
  | spread hmem hf _ ih => exact .inside (.spread hmem hf) (ih h)

theorem not_selects_nil {n : Field} : ¬ Selects fragments [] n := by
  intro h
  cases h with
  | field hmem => cases hmem
  | inline hmem => cases hmem
  | spread hmem => cases hmem

theorem Selects.head_or_tail {s : Selection} {rest : List Selection} {n : Field}
    (h : Selects fragments (s :: rest) n) : Selects fragments [s] n ∨ Selects fragments rest n := by
  cases h with
  | field hmem =>
    rcases List.mem_cons.1 hmem with rfl | hmem
    · exact .inl (.field List.mem_cons_self)
    · exact .inr (.field hmem)
  | inline hmem h =>
    rcases List.mem_cons.1 hmem with rfl | hmem
    · exact .inl (.inline List.mem_cons_self h)
    · exact .inr (.inline hmem h)
  | spread hmem hf h =>
    rcases List.mem_cons.1 hmem with rfl | hmem
    · exact .inl (.spread List.mem_cons_self hf h)
    · exact .inr (.spread hmem hf h)

theorem selects_field_iff {m n : Field} : Selects fragments [.field m] n ↔ n = m := by
  constructor
  · intro h
    cases h with
    | field hmem => simpa using hmem
    | inline hmem => simp at hmem
    | spread hmem => simp at hmem
  · rintro rfl
    exact .field List.mem_cons_self

theorem selects_inline_iff {condition : Option String} {ds : List Directive} {pos : Position}
    {body : List Selection} {n : Field} :
    Selects fragments [.inline condition ds body pos] n ↔ Selects fragments body n := by
  constructor
  · intro h
    cases h with
    | field hmem => simp at hmem
    | inline hmem h =>
      simp only [List.mem_singleton, Selection.inline.injEq] at hmem
      obtain ⟨-, -, rfl, -⟩ := hmem
      exact h
    | spread hmem => simp at hmem
  · exact .inline List.mem_cons_self

theorem selects_spread_iff {name : String} {ds : List Directive} {pos : Position} {n : Field} :
    Selects fragments [.spread name ds pos] n ↔
      ∃ f, fragments.find? (·.name = name) = some f ∧ Selects fragments f.selections n := by
  constructor
  · intro h
    cases h with
    | field hmem => simp at hmem
    | inline hmem => simp at hmem
    | spread hmem hf h =>
      simp only [List.mem_singleton, Selection.spread.injEq] at hmem
      obtain ⟨rfl, -, -⟩ := hmem
      exact ⟨_, hf, h⟩
  · rintro ⟨f, hf, h⟩
    exact .spread List.mem_cons_self hf h

/-! ### The nodes of a document are finitely many -/

mutual

/-- The nodes of a selection, those below field nodes and in named fragments left out. -/
def Selection.nodes : Selection → List Field
  | .field n => [n]
  | .inline _ _ body _ => Selection.nodesOf body
  | .spread _ _ _ => []

/-- The nodes of a selection set, those below field nodes and in named fragments left out. -/
def Selection.nodesOf : List Selection → List Field
  | [] => []
  | s :: rest => s.nodes ++ Selection.nodesOf rest

end

theorem Selection.nodes_subset {s : Selection} {selections : List Selection} (h : s ∈ selections) :
    s.nodes ⊆ nodesOf selections := by
  induction selections with
  | nil => cases h
  | cons t rest ih =>
    rw [nodesOf]
    rcases List.mem_cons.1 h with rfl | h
    · exact List.subset_append_left _ _
    · exact List.subset_append_of_subset_right _ (ih h)

theorem Selects.mem_nodesOf {selections : List Selection} {n : Field}
    (h : Selects fragments selections n) :
    n ∈ Selection.nodesOf selections ∨ ∃ f ∈ fragments, n ∈ Selection.nodesOf f.selections := by
  induction h with
  | field hmem => exact .inl (Selection.nodes_subset hmem (by simp [Selection.nodes]))
  | inline hmem _ ih =>
    refine ih.imp_left fun hbody => Selection.nodes_subset hmem ?_
    rw [Selection.nodes]
    exact hbody
  | spread hmem hf _ ih =>
    rcases ih with hbody | hother
    · exact .inr ⟨_, List.mem_of_find?_eq_some hf, hbody⟩
    · exact .inr hother

/-! ### Depth -/

/-- Fields nest to fewer than a number of levels. -/
def Shallow (fragments : List Fragment) : Nat → List Selection → Prop
  | 0, _ => False
  | k + 1, selections => ∀ n, Selects fragments selections n → Shallow fragments k n.selections

namespace Shallow

theorem of_selects {k : Nat} {selections others : List Selection}
    (h : Shallow fragments k others)
    (hsub : ∀ n, Selects fragments selections n → Selects fragments others n) :
    Shallow fragments k selections := by
  cases k with
  | zero => exact h
  | succ k => exact fun n hn => h n (hsub n hn)

theorem mono {k l : Nat} (hkl : k ≤ l) {selections : List Selection}
    (h : Shallow fragments k selections) : Shallow fragments l selections := by
  induction k generalizing l selections with
  | zero => exact h.elim
  | succ k ih =>
    cases l with
    | zero => omega
    | succ l => exact fun n hn => ih (Nat.le_of_succ_le_succ hkl) (h n hn)

theorem cons {k : Nat} {s : Selection} {rest : List Selection} (hs : Shallow fragments k [s])
    (hrest : Shallow fragments k rest) : Shallow fragments k (s :: rest) := by
  cases k with
  | zero => exact hs
  | succ k => exact fun n hn => hn.head_or_tail.elim (hs n) (hrest n)

end Shallow

theorem FieldNode.sizeOf_selections_lt (n : Field) : sizeOf n.selections < sizeOf n := by
  cases n
  simp only [FieldNode.mk.sizeOf_spec]
  omega

/-- Fields nest to a finite depth below a selection set if they do in all fragments that can be come to
from it. -/
theorem exists_shallow (selections : List Selection)
    (h : ∀ below f, Leads fragments below selections f → ∃ k, Shallow fragments k f.selections) :
    ∃ k, Shallow fragments k selections := by
  cases selections with
  | nil => exact ⟨1, fun n hn => absurd hn not_selects_nil⟩
  | cons s rest =>
    obtain ⟨l, hl⟩ := exists_shallow rest fun below f hf =>
      h below f (hf.mono (List.subset_cons_self s rest))
    have hs : ∃ k, Shallow fragments k [s] := by
      cases s with
      | field n =>
        have hsize := n.sizeOf_selections_lt
        obtain ⟨k, hk⟩ := exists_shallow n.selections fun below f hf =>
          h true f (.field List.mem_cons_self hf)
        refine ⟨k + 1, fun m hm => ?_⟩
        rw [selects_field_iff.1 hm]
        exact hk
      | inline condition ds body pos =>
        obtain ⟨k, hk⟩ := exists_shallow body fun below f hf =>
          h below f (.inline List.mem_cons_self hf)
        exact ⟨k, hk.of_selects fun n hn => selects_inline_iff.1 hn⟩
      | spread name ds pos =>
        cases hf : fragments.find? (·.name = name) with
        | none => exact ⟨1, fun n hn => by simp [selects_spread_iff, hf] at hn⟩
        | some f =>
          obtain ⟨k, hk⟩ := h false f (.spread List.mem_cons_self hf)
          exact ⟨k, hk.of_selects fun n hn => by simpa [selects_spread_iff, hf] using hn⟩
    obtain ⟨k, hk⟩ := hs
    exact ⟨max k l, (hk.mono (Nat.le_max_left k l)).cons (hl.mono (Nat.le_max_right k l))⟩
termination_by sizeOf selections
decreasing_by
  all_goals
    subst_vars
    simp only [List.cons.sizeOf_spec, Selection.field.sizeOf_spec, Selection.inline.sizeOf_spec]
    omega

/-- Finitely many nodes have a common bound. -/
theorem exists_common_shallow {p : Field → Prop} (nodes : List Field)
    (h : ∀ n ∈ nodes, p n → ∃ k, Shallow fragments k n.selections) :
    ∃ k, ∀ n ∈ nodes, p n → Shallow fragments k n.selections := by
  induction nodes with
  | nil => exact ⟨0, by simp⟩
  | cons m rest ih =>
    obtain ⟨l, hl⟩ := ih fun n hn => h n (List.mem_cons_of_mem m hn)
    have hm : ∃ k, p m → Shallow fragments k m.selections := by
      by_cases hp : p m
      · obtain ⟨k, hk⟩ := h m List.mem_cons_self hp
        exact ⟨k, fun _ => hk⟩
      · exact ⟨0, fun hm => absurd hm hp⟩
    obtain ⟨k, hk⟩ := hm
    refine ⟨max k l, fun n hn hp => ?_⟩
    rcases List.mem_cons.1 hn with rfl | hn
    · exact (hk hp).mono (Nat.le_max_left k l)
    · exact (hl n hn hp).mono (Nat.le_max_right k l)

end

/-- Without selections below the fields of its fragments a document has no cycles below fields. -/
theorem Document.noFieldCycle_of_leaves {doc : Document}
    (hleaves : ∀ f ∈ doc.fragments, ∀ n ∈ Selection.nodesOf f.selections, n.selections = []) :
    doc.NoFieldCycle := by
  have hflag : ∀ {below selections g}, Leads doc.fragments below selections g →
      (∀ n ∈ Selection.nodesOf selections, n.selections = []) → below = false := by
    intro below selections g h
    induction h with
    | spread => exact fun _ => rfl
    | inline hmem _ ih =>
      refine fun hsel => ih fun n hn => hsel n (Selection.nodes_subset hmem ?_)
      rw [Selection.nodes]
      exact hn
    | field hmem h _ =>
      intro hsel
      rw [hsel _ (Selection.nodes_subset hmem (by simp [Selection.nodes]))] at h
      exact absurd h Leads.not_nil
    | inside h _ ih ih' =>
      intro hsel
      rw [ih hsel, ih' (hleaves _ h.mem)]
      rfl
  intro f hf h
  cases hflag h (hleaves f hf)

namespace Document.NoFieldCycle

variable {doc : Document}

/-- What can be come to below the fields of fragments is well-founded. -/
theorem wellFounded (h : doc.NoFieldCycle) :
    WellFounded fun g f : { f // f ∈ doc.fragments } =>
      Leads doc.fragments true f.1.selections g.1 := by
  have : Finite { f // f ∈ doc.fragments } := (List.finite_toSet doc.fragments).to_subtype
  have : IsTrans { f // f ∈ doc.fragments } fun g f =>
      Leads doc.fragments true f.1.selections g.1 := ⟨fun _ _ _ h h' => .inside h' h⟩
  have : Std.Irrefl fun g f : { f // f ∈ doc.fragments } =>
      Leads doc.fragments true f.1.selections g.1 := ⟨fun f => h f.1 f.2⟩
  exact Finite.wellFounded_of_trans_of_irrefl _

theorem exists_shallow_fragment (h : doc.NoFieldCycle) (f : { f // f ∈ doc.fragments }) :
    ∃ k, Shallow doc.fragments k f.1.selections := by
  induction f using h.wellFounded.induction with
  | _ f ih =>
    -- below a node of the fragment only fragments further down can be come to
    have hnode : ∀ n, Selects doc.fragments f.1.selections n →
        ∃ k, Shallow doc.fragments k n.selections := by
      intro n hn
      exact exists_shallow n.selections fun below g hg => ih ⟨g, hg.mem⟩ (hn.leads hg)
    obtain ⟨k, hk⟩ := exists_common_shallow
      (Selection.nodesOf f.1.selections ++ doc.fragments.flatMap (Selection.nodesOf ·.selections))
      fun n _ => hnode n
    exact ⟨k + 1, fun n hn => hk n (by simpa using hn.mem_nodesOf) hn⟩

/-- Without cycles below fields, fields nest to a finite depth below every selection set. -/
theorem exists_shallow (h : doc.NoFieldCycle) (selections : List Selection) :
    ∃ k, Shallow doc.fragments k selections :=
  OperationGraph.exists_shallow selections fun _ f hf => h.exists_shallow_fragment ⟨f, hf.mem⟩

end Document.NoFieldCycle

end OperationGraph
