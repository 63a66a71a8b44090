import OperationGraph.Definition.Basic

/-! # The built-in definitions

The document that stands before all others: the five scalars, the standard directives and the types of
introspection, each with its place in the text that declares them. -/

namespace OperationGraph

namespace Prelude

def place (line : Nat) (column : Int) : Position := { source := "prelude.graphql", line, column }

def named (line : Nat) (column : Int) (name : String) : TypeExpr :=
  .named name false (place line column)

def required (line : Nat) (column : Int) (name : String) : TypeExpr :=
  .named name true (place line column)

def listOf (line : Nat) (column : Int) (name : String) : TypeExpr :=
  .list (required line column name) false (place line column)

/-- A list that is never null, nor are its items. -/
def requiredList (line : Nat) (column : Int) (name : String) : TypeExpr :=
  .list (required line column name) true (place line column)

def argument (line : Nat) (column : Int) (name description : String) (type : TypeExpr)
    (default : Option Literal := none) : ArgumentDefinition :=
  { name, description, type, default, pos := place line column }

def field (line : Nat) (column : Int) (name description : String) (type : TypeExpr)
    (arguments : List ArgumentDefinition := []) : FieldDefinition :=
  { name, description, type, arguments, pos := place line column }

def value (line : Nat) (column : Int) (name description : String) : EnumValueDefinition :=
  { name, description, pos := place line column }

def scalar (line : Nat) (column : Int) (name description : String) : Definition :=
  { kind := .scalar, name, description, pos := place line column, builtIn := true }

def object (line : Nat) (column : Int) (name description : String)
    (fields : List FieldDefinition) : Definition :=
  { kind := .object, name, description, fields, pos := place line column, builtIn := true }

def enum (line : Nat) (column : Int) (name description : String)
    (values : List EnumValueDefinition) : Definition :=
  { kind := .enum, name, description, values, pos := place line column, builtIn := true }

def directive (line : Nat) (column : Int) (name description : String)
    (arguments : List ArgumentDefinition) (locations : List String) : DirectiveDefinition :=
  { name, description, arguments, locations, pos := place line column, builtIn := true }

def directives : List DirectiveDefinition :=
  [directive 19 12 "defer"
     "Directs the executor to defer this fragment when the `if` argument is true or undefined."
     [argument 20 4 "if" "Deferred when true or undefined." (named 21 7 "Boolean") (some (.boolean true)),
      argument 22 4 "label" "Unique name" (named 23 10 "String")]
     ["FRAGMENT_SPREAD", "INLINE_FRAGMENT"],
   directive 29 12 "include"
     "Directs the executor to include this field or fragment only when the `if` argument is true."
     [argument 30 6 "if" "Included when true." (required 31 7 "Boolean")]
     ["FIELD", "FRAGMENT_SPREAD", "INLINE_FRAGMENT"],
   directive 37 12 "skip"
     "Directs the executor to skip this field or fragment when the `if` argument is true."
     [argument 38 6 "if" "Skipped when true." (required 39 7 "Boolean")]
     ["FIELD", "FRAGMENT_SPREAD", "INLINE_FRAGMENT"],
   directive 43 12 "deprecated"
     "Marks an element of a GraphQL schema as no longer supported."
     [argument 46 (-214) "reason" "Explains why this element was deprecated, usually also including a suggestion for how to access supported similar data. Formatted using the Markdown syntax, as specified by [CommonMark](https://commonmark.org/)." (named 47 11 "String") (some (.string "No longer supported"))]
     ["FIELD_DEFINITION", "ARGUMENT_DEFINITION", "INPUT_FIELD_DEFINITION", "ENUM_VALUE"],
   directive 51 12 "specifiedBy"
     "Exposes a URL that specifies the behavior of this scalar."
     [argument 52 6 "url" "The URL that specifies the behavior of this scalar." (required 53 8 "String")]
     ["SCALAR"],
   directive 59 12 "oneOf"
     "Indicates exactly one field must be supplied and this field must not be `null`."
     []
     ["INPUT_OBJECT"]]

def scalars : List Definition :=
  [scalar 4 8 "Int"
     "The `Int` scalar type represents non-fractional signed whole numeric values. Int can represent values between -(2^31) and 2^31 - 1.",
   scalar 7 8 "Float"
     "The `Float` scalar type represents signed double-precision fractional values.",
   scalar 10 8 "String"
     "The `String`scalar type represents textual data, represented as UTF-8 character sequences. The String type is most often used by GraphQL to represent free-form human-readable text.",
   scalar 13 8 "Boolean"
     "The `Boolean` scalar type represents `true` or `false`.",
   scalar 16 8 "ID"
     "The `ID` scalar type represents a unique identifier, often used to refetch an object or as key for a cache. The ID type appears in a JSON response as a String; however, it is not intended to be human-readable. When expected as an input type, any string (such as \"4\") or integer (such as 4) input value will be accepted as an ID."]

def metaTypes : List Definition :=
  [object 64 6 "__Schema"
     "A GraphQL Schema defines the capabilities of a GraphQL server. It exposes all available types and directives on the server, as well as the entry points for query, mutation, and subscription operations."
     [field 65 3 "description" "" (named 65 16 "String"),
      field 67 6 "types"
        "A list of all types supported by this server." (requiredList 68 11 "__Type"),
      field 70 6 "queryType"
        "The type that query operations will be rooted at." (required 71 14 "__Type"),
      field 75 (-89) "mutationType"
        "If this server supports mutation, the type that mutation operations will be rooted at." (named 76 17 "__Type"),
      field 80 (-96) "subscriptionType"
        "If this server support subscription, the type that subscription operations will be rooted at." (named 81 21 "__Type"),
      field 83 6 "directives"
        "A list of all directives supported by this server." (requiredList 84 16 "__Directive")],
   object 92 6 "__Type"
     "The fundamental unit of any GraphQL Schema is the type. There are many kinds of types in GraphQL as represented by the `__TypeKind` enum.\n\nDepending on the kind of a type, certain fields describe information about that type. Scalar types provide no information beyond a name, description and optional `specifiedByURL`, while Enum types provide their values. Object and Interface types provide the fields they describe. Abstract types, Union and Interface, provide the Object types possible at runtime. List and NonNull types compose other types."
     [field 93 3 "kind" "" (required 93 9 "__TypeKind"),
      field 94 3 "name" "" (named 94 9 "String"),
      field 95 3 "description" "" (named 95 16 "String"),
      field 96 3 "specifiedByURL" "" (named 96 19 "String"),
      field 97 3 "fields" "" (listOf 97 48 "__Field")
        [argument 97 10 "includeDeprecated" "" (named 97 29 "Boolean") (some (.boolean false))],
      field 98 3 "interfaces" "" (listOf 98 16 "__Type"),
      field 99 3 "possibleTypes" "" (listOf 99 19 "__Type"),
      field 100 3 "enumValues" "" (listOf 100 52 "__EnumValue")
        [argument 100 14 "includeDeprecated" "" (named 100 33 "Boolean") (some (.boolean false))],
      field 101 3 "inputFields" "" (listOf 101 53 "__InputValue")
        [argument 101 15 "includeDeprecated" "" (named 101 34 "Boolean") (some (.boolean false))],
      field 102 3 "ofType" "" (named 102 11 "__Type"),
      field 103 3 "isOneOf" "" (named 103 12 "Boolean")],
   enum 107 6 "__TypeKind"
     "An enum describing what kind of type a given `__Type` is."
     [value 108 6 "SCALAR" "Indicates this type is a scalar.",
      value 113 (-80) "OBJECT"
        "Indicates this type is an object. `fields` and `interfaces` are valid fields.",
      value 118 (-101) "INTERFACE"
        "Indicates this type is an interface. `fields`, `interfaces`, and `possibleTypes` are valid fields.",
      value 121 6 "UNION" "Indicates this type is a union. `possibleTypes` is a valid field.",
      value 124 6 "ENUM" "Indicates this type is an enum. `enumValues` is a valid field.",
      value 129 (-74) "INPUT_OBJECT"
        "Indicates this type is an input object. `inputFields` is a valid field.",
      value 132 6 "LIST" "Indicates this type is a list. `ofType` is a valid field.",
      value 135 6 "NON_NULL" "Indicates this type is a non-null. `ofType` is a valid field."],
   object 142 6 "__Field"
     "Object and Interface types are described by a list of Fields, each of which has a name, potentially a list of arguments, and a return type."
     [field 143 3 "name" "" (required 143 9 "String"),
      field 144 3 "description" "" (named 144 16 "String"),
      field 145 3 "args" "" (requiredList 145 46 "__InputValue")
        [argument 145 8 "includeDeprecated" "" (named 145 27 "Boolean") (some (.boolean false))],
      field 146 3 "type" "" (required 146 9 "__Type"),
      field 147 3 "isDeprecated" "" (required 147 17 "Boolean"),
      field 148 3 "deprecationReason" "" (named 148 22 "String")],
   object 154 6 "__InputValue"
     "Arguments provided to Fields or Directives and the input fields of an InputObject are represented as Input Values which describe their type and optionally a default value."
     [field 155 3 "name" "" (required 155 9 "String"),
      field 156 3 "description" "" (named 156 16 "String"),
      field 157 3 "type" "" (required 157 9 "__Type"),
      field 161 (-82) "defaultValue"
        "A GraphQL-formatted string representing the default value for this input value." (named 162 17 "String"),
      field 163 3 "isDeprecated" "" (required 163 17 "Boolean"),
      field 164 3 "deprecationReason" "" (named 164 22 "String")],
   object 170 6 "__EnumValue"
     "One possible value for a given Enum. Enum values are unique values, not a placeholder for a string or numeric value. However an Enum value is returned in a JSON response as a string."
     [field 171 3 "name" "" (required 171 9 "String"),
      field 172 3 "description" "" (named 172 16 "String"),
      field 173 3 "isDeprecated" "" (required 173 17 "Boolean"),
      field 174 3 "deprecationReason" "" (named 174 22 "String")],
   object 182 6 "__Directive"
     "A Directive provides a way to describe alternate runtime execution and type validation behavior in a GraphQL document.\n\nIn some cases, you need to provide options to alter GraphQL's execution behavior in ways field arguments will not suffice, such as conditionally including or skipping a field. Directives provide this by describing additional information to the executor."
     [field 183 3 "name" "" (required 183 9 "String"),
      field 184 3 "description" "" (named 184 16 "String"),
      field 185 3 "isRepeatable" "" (required 185 17 "Boolean"),
      field 186 3 "locations" "" (requiredList 186 15 "__DirectiveLocation"),
      field 187 3 "args" "" (requiredList 187 46 "__InputValue")
        [argument 187 8 "includeDeprecated" "" (named 187 27 "Boolean") (some (.boolean false))]],
   enum 193 6 "__DirectiveLocation"
     "A Directive can be adjacent to many parts of the GraphQL language, a __DirectiveLocation describes one such possible adjacencies."
     [value 194 6 "QUERY" "Location adjacent to a query operation.",
      value 197 6 "MUTATION" "Location adjacent to a mutation operation.",
      value 200 6 "SUBSCRIPTION" "Location adjacent to a subscription operation.",
      value 203 6 "FIELD" "Location adjacent to a field.",
      value 206 6 "FRAGMENT_DEFINITION" "Location adjacent to a fragment definition.",
      value 209 6 "FRAGMENT_SPREAD" "Location adjacent to a fragment spread.",
      value 212 6 "INLINE_FRAGMENT" "Location adjacent to an inline fragment.",
      value 215 6 "VARIABLE_DEFINITION" "Location adjacent to a variable definition.",
      value 218 6 "SCHEMA" "Location adjacent to a schema definition.",
      value 221 6 "SCALAR" "Location adjacent to a scalar definition.",
      value 224 6 "OBJECT" "Location adjacent to an object type definition.",
      value 227 6 "FIELD_DEFINITION" "Location adjacent to a field definition.",
      value 230 6 "ARGUMENT_DEFINITION" "Location adjacent to an argument definition.",
      value 233 6 "INTERFACE" "Location adjacent to an interface definition.",
      value 236 6 "UNION" "Location adjacent to a union definition.",
      value 239 6 "ENUM" "Location adjacent to an enum definition.",
      value 242 6 "ENUM_VALUE" "Location adjacent to an enum value definition.",
      value 245 6 "INPUT_OBJECT" "Location adjacent to an input object type definition.",
      value 248 6 "INPUT_FIELD_DEFINITION"
        "Location adjacent to an input object field definition."]]

end Prelude

def builtinDocument : TypeSystemDocument where
  directives := Prelude.directives
  definitions := Prelude.scalars ++ Prelude.metaTypes

end OperationGraph
