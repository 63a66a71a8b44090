import OperationGraph.Schema.Basic

/-! # Merged fields

Field nodes that share a response key and an object type are one merged field. The groups keep the
order in which keys came first, and under a key the order in which object types came first. -/

namespace OperationGraph

/-- The nodes that select one field of one object type under one key. -/
structure MergedField where
  key : String
  nodes : List Field
  objectType : NamedType
  definition : OutputField
deriving Repr

namespace MergedField

def label (m : MergedField) : String := m.objectType.name ++ "." ++ m.key

def pos? (m : MergedField) : Option Position := m.nodes.head?.map (·.pos)

end MergedField

abbrev FieldGroups := List (String × List MergedField)

namespace FieldGroups

def addTyped (key : String) (t : NamedType) (f : OutputField) (node : Field) :
    List MergedField → List MergedField
  | [] => [{ key, nodes := [node], objectType := t, definition := f }]
  | m :: rest =>
    if m.objectType.name = t.name then { m with nodes := m.nodes ++ [node] } :: rest
    else m :: addTyped key t f node rest

def add (key : String) (t : NamedType) (f : OutputField) (node : Field) :
    FieldGroups → FieldGroups
  | [] => [(key, addTyped key t f node [])]
  | (k, ms) :: rest =>
    if k = key then (k, addTyped key t f node ms) :: rest else (k, ms) :: add key t f node rest

def toList (g : FieldGroups) : List MergedField := g.flatMap (·.2)

end FieldGroups

end OperationGraph
