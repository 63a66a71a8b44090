import OperationGraph.Number.Decimal

/-! # Histograms

A histogram counts values by the least bound that they do not exceed, and adds them up. -/

namespace OperationGraph

/-- Increasing bounds, how many values fell to each, and how many exceed them all. -/
structure Histogram where
  buckets : List (Binary × Nat)
  beyond : Nat := 0
  sum : Binary := .zero .double false
deriving DecidableEq, Repr

namespace Histogram

/-- Bounds that grow by a factor of four. -/
def quadrupling (start : Binary) : Nat → List Binary
  | 0 => []
  | n + 1 => start :: quadrupling (start.shift 2) n

def create (bounds : List Binary) : Histogram := { buckets := bounds.map fun b => (b, 0) }

/-- Counts a value in the first bucket that admits it. -/
def countIn (x : Binary) : List (Binary × Nat) → Option (List (Binary × Nat))
  | [] => none
  | (bound, n) :: rest =>
    if x.le bound then some ((bound, n + 1) :: rest)
    else (countIn x rest).map ((bound, n) :: ·)

def observe (h : Histogram) (x : Binary) : Histogram :=
  let sum := Binary.add .double h.sum x
  match countIn x h.buckets with
  | some buckets => { h with buckets, sum }
  | none => { h with beyond := h.beyond + 1, sum }

def count (h : Histogram) : Nat := h.buckets.foldl (fun n b => n + b.2) h.beyond

/-- For each bound, how many values do not exceed it; `before` are counted already. -/
def cumulative (before : Nat) : List (Binary × Nat) → List (Binary × Nat)
  | [] => []
  | (bound, n) :: rest => (bound, before + n) :: cumulative (before + n) rest

end Histogram

end OperationGraph
