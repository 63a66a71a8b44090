import OperationGraph.Schema.Basic

/-! # What every schema holds

The five scalars and the two directives that are there without a declaration. -/

namespace OperationGraph

def scalarType (name description : String) : NamedType := { name, kind := .scalar, description }

def builtinScalars : List NamedType :=
  [scalarType "String"
     "The `String` scalar type represents textual data, represented as UTF-8 character sequences.",
   scalarType "Int"
     "The `Int` scalar type represents non-fractional signed whole numeric values.",
   scalarType "Float"
     "The `Float` scalar type represents signed double-precision fractional values.",
   scalarType "Boolean" "The `Boolean` scalar type represents `true` or `false`.",
   scalarType "ID"
     "The `ID` scalar type represents a unique identifier, often used to refetch an object or as a key for caching."]

/-- A directive on selections with the one argument `if`. -/
def conditionDirective (name description argument : String) : DirectiveType where
  name
  description
  locations := ["FIELD", "FRAGMENT_SPREAD", "INLINE_FRAGMENT"]
  arguments := [{ name := "if", description := argument, type := .nonNull (.named "Boolean") }]

def builtinDirectives : List DirectiveType :=
  [conditionDirective "include"
     "Directs the executor to include this field or fragment only when the `if` argument is true."
     "Included when true.",
   conditionDirective "skip"
     "Directs the executor to skip this field or fragment when the `if` argument is true."
     "Skipped when true."]

def builtinScalar? (name : String) : Option NamedType := builtinScalars.find? (·.name = name)

/-- Directives that are never written out. -/
def impliedDirectives : List String :=
  ["include", "skip", "deprecated", "specifiedBy", "oneOf", "defer"]

def isImpliedType (name : String) : Bool := (builtinScalar? name).isSome || isMetaName name

/-- A schema with nothing but what every schema holds. -/
def Schema.empty (description : String) : Schema :=
  builtinDirectives.foldl Schema.addDirective
    (builtinScalars.foldl Schema.addType { description })

end OperationGraph
