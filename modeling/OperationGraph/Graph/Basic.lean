import OperationGraph.Selection.MergedField

/-! # Graphs of operations

The graph of an operation is a tree: every vertex is a merged field that depends on the field it is
selected in, and the fields at the root depend on a root of their own with the number zero. -/

namespace OperationGraph

/-- A merged field with its number and that of the vertex it depends on. -/
structure Vertex where
  id : Nat
  parent : Nat
  field : MergedField
deriving Repr

/-- The vertices of an operation in the order in which they were made. -/
structure Graph where
  vertices : List Vertex := []
deriving Repr

def rootLabel : String := "ROOT"

def Vertex.label (v : Vertex) : String := v.field.label ++ ": " ++ v.field.definition.type.text

namespace Graph

def children (g : Graph) (id : Nat) : List Vertex := g.vertices.filter (·.parent = id)

def labelOf (g : Graph) (id : Nat) : String :=
  match g.vertices.find? (·.id = id) with
  | some v => v.label
  | none => rootLabel

/-- Visits a stack of vertices and what depends on them, at most `fuel` of them. -/
def visitFrom (g : Graph) : Nat → List Vertex → List Vertex
  | 0, _ => []
  | _ + 1, [] => []
  | fuel + 1, v :: stack => v :: visitFrom g fuel (g.children v.id ++ stack)

/-- The vertices in depth-first order from the root, the root itself left out. -/
def traverse (g : Graph) : List Vertex := g.visitFrom g.vertices.length (g.children 0)

def edgeText (g : Graph) (v : Vertex) : String := v.label ++ " -> " ++ g.labelOf v.parent

/-- The dependencies in depth-first order. -/
def edgeTexts (g : Graph) : List String := g.traverse.map g.edgeText

end Graph

end OperationGraph
