import OperationGraph.Graph.Basic
import OperationGraph.Json.Basic

/-! # Graphs as plain data -/

namespace OperationGraph

structure VertexRecord where
  id : Nat
  type : String
  field : String
  name : String
  returnType : String
  parent : Nat
  locations : List (Nat × Int)
deriving DecidableEq, Repr

/-- A graph as plain data: its vertices, and the dependency of each. -/
structure GraphRecord where
  vertices : List VertexRecord := []
  edges : List (Nat × Nat) := []
deriving DecidableEq, Repr

def Vertex.record (v : Vertex) : VertexRecord where
  id := v.id
  type := v.field.objectType.name
  field := v.field.key
  name := v.field.definition.name
  returnType := v.field.definition.type.text
  parent := v.parent
  locations := v.field.nodes.map fun n => (n.pos.line, n.pos.column)

/-- The record of a graph, vertices in depth-first order. -/
def Graph.record (g : Graph) : GraphRecord where
  vertices := g.traverse.map Vertex.record
  edges := g.traverse.map fun v => (v.id, v.parent)

def placeJson (place : Nat × Int) : Json :=
  .object [("line", .int place.1), ("column", .int place.2)]

def VertexRecord.toJson (v : VertexRecord) : Json :=
  .object <|
    [("id", .int v.id), ("type", .string v.type), ("field", .string v.field),
     ("name", .string v.name), ("returnType", .string v.returnType), ("parent", .int v.parent)]
    ++ if v.locations.isEmpty then [] else [("locations", .array (v.locations.map placeJson))]

def GraphRecord.toJson (g : GraphRecord) : Json :=
  .object
    [("vertices", .array (g.vertices.map VertexRecord.toJson)),
     ("edges", .array (g.edges.map fun e => .object [("from", .int e.1), ("to", .int e.2)]))]

end OperationGraph
