/-! # Event buses

A bus passes what is published under a topic to the handlers that are subscribed to the topic, in the
order in which they were subscribed. It holds a list of subscriptions for each topic that has any. -/

namespace OperationGraph

/-- What a subscriber is given to take its handler away: the topic, and a number of its own. -/
structure Handle (τ : Type) where
  topic : τ
  number : Nat
deriving DecidableEq, Repr

structure Subscription (η : Type) where
  number : Nat
  handler : η
deriving DecidableEq, Repr

/-- The subscriptions of the topics that have any, under each topic in the order in which they were
made, and the number given out last. -/
structure Bus (τ η : Type) where
  last : Nat := 0
  topics : List (τ × List (Subscription η)) := []
deriving DecidableEq, Repr

namespace Bus

variable {τ η : Type} [DecidableEq τ]

def subscriptions (b : Bus τ η) (topic : τ) : List (Subscription η) :=
  match b.topics.find? (·.1 = topic) with
  | some entry => entry.2
  | none => []

def store (topic : τ) (subs : List (Subscription η)) :
    List (τ × List (Subscription η)) → List (τ × List (Subscription η))
  | [] => [(topic, subs)]
  | entry :: rest =>
    if entry.1 = topic then (topic, subs) :: rest else entry :: store topic subs rest

def subscribe (b : Bus τ η) (topic : τ) (handler : η) : Bus τ η × Handle τ :=
  let number := b.last + 1
  let subs := b.subscriptions topic ++ [{ number := number, handler }]
  ({ last := number, topics := store topic subs b.topics }, { topic := topic, number })

/-- Takes a handler away. The topic goes with its last handler. -/
def unsubscribe (b : Bus τ η) (h : Handle τ) : Bus τ η :=
  let kept := (b.subscriptions h.topic).eraseP (·.number = h.number)
  if kept.isEmpty then { b with topics := b.topics.filter (·.1 ≠ h.topic) }
  else { b with topics := store h.topic kept b.topics }

end Bus

end OperationGraph
