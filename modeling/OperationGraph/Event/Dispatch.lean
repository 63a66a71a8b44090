import OperationGraph.Event.Bus

/-! # Publications on a bus

A publication calls its handlers one after another, each when the one before it has returned. Who is
called is settled when the publication starts. While a handler runs it may use the bus itself, so that
publications stand inside one another: the innermost one goes on first. -/

namespace OperationGraph

structure Call (τ η υ : Type) where
  topic : τ
  value : υ
  subscription : Subscription η

/-- A publication of which a handler is running, and the handlers still to be called. -/
structure Publication (τ η υ : Type) where
  number : Nat
  topic : τ
  value : υ
  waiting : List (Subscription η)

inductive Happening (τ η υ : Type) where
  | subscribed (topic : τ) (s : Subscription η)
  | unsubscribed (handle : Handle τ)
  | published (publication : Nat) (topic : τ) (value : υ)
  | called (publication : Nat) (call : Call τ η υ)
  | returned (publication : Nat)

/-- A bus, the number of publications so far, those that are not over yet, the innermost first, and all
that happened. -/
structure Dispatch (τ η υ : Type) where
  bus : Bus τ η := {}
  publications : Nat := 0
  ongoing : List (Publication τ η υ) := []
  log : List (Happening τ η υ) := []

namespace Dispatch

variable {τ η υ : Type} [DecidableEq τ]

def subscribe (d : Dispatch τ η υ) (topic : τ) (handler : η) : Dispatch τ η υ × Handle τ :=
  let (bus, handle) := d.bus.subscribe topic handler
  ({ d with bus, log := d.log ++ [.subscribed topic { number := handle.number, handler }] }, handle)

def unsubscribe (d : Dispatch τ η υ) (handle : Handle τ) : Dispatch τ η υ :=
  { d with bus := d.bus.unsubscribe handle, log := d.log ++ [.unsubscribed handle] }

def callNext (d : Dispatch τ η υ) (p : Publication τ η υ) :
    Dispatch τ η υ × Option (Subscription η) :=
  match p.waiting with
  | [] => (d, none)
  | s :: waiting =>
    ({ d with
       ongoing := { p with waiting } :: d.ongoing
       log := d.log ++ [.called p.number { topic := p.topic, value := p.value, subscription := s }] },
     some s)

/-- Publishes a value, and says whose handler is called first. -/
def publish (d : Dispatch τ η υ) (topic : τ) (value : υ) :
    Dispatch τ η υ × Option (Subscription η) :=
  let number := d.publications
  callNext { d with publications := number + 1, log := d.log ++ [.published number topic value] }
    { number, topic, value, waiting := d.bus.subscriptions topic }

/-- The handler that runs returns, and the next one of its publication is called. -/
def finish (d : Dispatch τ η υ) : Dispatch τ η υ × Option (Subscription η) :=
  match d.ongoing with
  | [] => (d, none)
  | p :: outer => callNext { d with ongoing := outer, log := d.log ++ [.returned p.number] } p

end Dispatch

end OperationGraph
