import OperationGraph.Event.Dispatch

/-! # Scripts for a bus

A step of a script subscribes a handler, takes one away or publishes a value. A handler is itself a
script, which is run each time something is delivered to it. -/

namespace OperationGraph

/-- A step of a script. Handlers are known by names. -/
inductive Step (τ : Type) where
  | subscribe (topic : τ) (name : String) (reaction : List (Step τ))
  | unsubscribe (name : String)
  | publish (topic : τ) (value : String)

/-- A handler: its name, and what it does on a delivery. -/
structure Reaction (τ : Type) where
  name : String
  steps : List (Step τ)

structure Delivery (τ : Type) where
  name : String
  topic : τ
  value : String
deriving DecidableEq, Repr

def Happening.delivery? {τ : Type} : Happening τ (Reaction τ) String → Option (Delivery τ)
  | called _ c => some { name := c.subscription.handler.name, topic := c.topic, value := c.value }
  | _ => none

/-- A bus, the handles last given out to names, and the steps that are left: those of the handler that
runs come first, those of the script itself last. Without a bus every step is dropped. -/
structure Stage (τ : Type) where
  bus : Option (Dispatch τ (Reaction τ) String) := some {}
  handles : List (String × Handle τ) := []
  scripts : List (List (Step τ)) := []

namespace Stage

variable {τ : Type} [DecidableEq τ]

/-- Goes on with the steps of a handler that was called. -/
def enter (s : Stage τ) (r : Dispatch τ (Reaction τ) String × Option (Subscription (Reaction τ))) :
    Stage τ :=
  { s with bus := some r.1, scripts := (r.2.map (·.handler.steps)).toList ++ s.scripts }

def perform (s : Stage τ) (d : Dispatch τ (Reaction τ) String) : Step τ → Stage τ
  | .subscribe topic name steps =>
    let (d, handle) := d.subscribe topic { name := name, steps }
    { s with bus := some d, handles := (name, handle) :: s.handles }
  | .unsubscribe name =>
    match s.handles.find? (·.1 = name) with
    | some h => { s with bus := some (d.unsubscribe h.2) }
    | none => s
  | .publish topic value => s.enter (d.publish topic value)

/-- Takes the next step. A handler that has no step left returns. -/
def advance (s : Stage τ) : Stage τ :=
  match s.bus, s.scripts with
  | some d, (step :: rest) :: outer => { s with scripts := rest :: outer }.perform d step
  | some d, [] :: script :: outer => { s with scripts := script :: outer }.enter d.finish
  | _, _ => { s with scripts := [] }

/-- Takes steps until none is left, `fuel` of them at most. -/
def settle : Nat → Stage τ → Stage τ
  | 0, s => s
  | fuel + 1, s => if s.scripts.isEmpty then s else settle fuel s.advance

def log (s : Stage τ) : List (Happening τ (Reaction τ) String) :=
  match s.bus with
  | some d => d.log
  | none => []

/-- Runs a script and lists the deliveries in order; `fuel` bounds the steps that follow one from
another. -/
def run (fuel : Nat) (s : Stage τ) (script : List (Step τ)) : Stage τ × List (Delivery τ) :=
  let after := settle fuel { s with scripts := [script] }
  (after, (after.log.drop s.log.length).filterMap Happening.delivery?)

end Stage

end OperationGraph
