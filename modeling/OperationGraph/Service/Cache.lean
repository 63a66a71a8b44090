/-! # Memories and bounded caches

A memory keeps values under keys and may forget them. A cache is a memory that keeps a bounded number of
values. The value used last is the newest, and a value added to a full cache takes the place of the
oldest. -/

namespace OperationGraph

class Memory (μ : Type) (κ α : outParam Type) where
  /-- The value of a key. -/
  find? : μ → κ → Option α
  /-- The memory after a key was looked up. -/
  touch : μ → κ → μ
  /-- Sets the value of a key. -/
  add : μ → κ → α → μ

/-- A bounded number of values under keys, the newest first. -/
structure Cache (κ α : Type) where
  capacity : Nat
  entries : List (κ × α) := []
deriving Repr

namespace Cache

variable {κ α : Type} [DecidableEq κ]

def find? (c : Cache κ α) (k : κ) : Option α :=
  match c.entries.find? (·.1 = k) with
  | some e => some e.2
  | none => none

def erase (c : Cache κ α) (k : κ) : Cache κ α :=
  { c with entries := c.entries.filter (·.1 ≠ k) }

/-- The cache after a key was looked up: its value, if there is one, is now the newest. -/
def touch (c : Cache κ α) (k : κ) : Cache κ α :=
  match c.find? k with
  | some a => { c with entries := (k, a) :: (c.erase k).entries }
  | none => c

/-- Sets the value of a key, which is now the newest. -/
def add (c : Cache κ α) (k : κ) (a : α) : Cache κ α :=
  { c with entries := ((k, a) :: (c.erase k).entries).take c.capacity }

instance : Memory (Cache κ α) κ α where
  find? := find?
  touch := touch
  add := add

end Cache

end OperationGraph
