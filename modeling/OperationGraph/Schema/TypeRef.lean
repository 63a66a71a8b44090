import OperationGraph.Document.Basic

/-! # Type references

A reference to a type: a name under any number of list and non-null wrappers. A schema assembled by
hand may leave a reference out. -/

namespace OperationGraph

inductive TypeRef where
  | absent
  | named (name : String)
  | list (of : TypeRef)
  | nonNull (of : TypeRef)
deriving DecidableEq, Repr, Inhabited

namespace TypeRef

def text : TypeRef → String
  | absent => ""
  | named n => n
  | list t => "[" ++ t.text ++ "]"
  | nonNull t => t.text ++ "!"

def baseName : TypeRef → String
  | absent => ""
  | named n => n
  | list t => t.baseName
  | nonNull t => t.baseName

def isNonNull : TypeRef → Bool
  | nonNull _ => true
  | _ => false

def isList : TypeRef → Bool
  | list _ => true
  | nonNull (list _) => true
  | _ => false

/-- The reference inside the outermost wrapper. -/
def unwrap : TypeRef → TypeRef
  | list t => t
  | nonNull t => t
  | t => t

def ofExpr : TypeExpr → TypeRef
  | .named n b _ => if b then nonNull (named n) else named n
  | .list e b _ => if b then nonNull (list (ofExpr e)) else list (ofExpr e)

def markNonNull : TypeExpr → TypeExpr
  | .named n _ p => .named n true p
  | .list e _ p => .list e true p

/-- The written form of a reference, without a place; a missing one is written as an empty name. -/
def toExpr : TypeRef → TypeExpr
  | absent => .named "" false default
  | named n => .named n false default
  | list t => .list t.toExpr false default
  | nonNull t => markNonNull t.toExpr

/-- The reference that a notation stands for; `fuel` bounds the nesting. -/
def readAt : Nat → List Char → Option (TypeRef × List Char)
  | 0, _ => none
  | fuel + 1, cs =>
    let inner : Option (TypeRef × List Char) := match cs with
      | '[' :: rest =>
        match readAt fuel rest with
        | some (t, ']' :: rest) => some (list t, rest)
        | _ => none
      | cs =>
        let isPart (c : Char) : Bool := c ≠ '[' && c ≠ ']' && c ≠ '!'
        some (named (String.ofList (cs.takeWhile isPart)), cs.dropWhile isPart)
    match inner with
    | some (t, '!' :: rest) => some (nonNull t, rest)
    | other => other

def read? (text : String) : Option TypeRef :=
  match readAt (text.length + 1) text.toList with
  | some (t, []) => some t
  | _ => none

end TypeRef

end OperationGraph
