import OperationGraph.Schema.Basic
import OperationGraph.Text.Quoted

/-! # Coercion of values

A raw value is brought into the form that a type asks for. Null passes unless the type excludes it, a
single value stands for a list of one, and the defaults of input fields are filled in as they are.

Lists and non-null wrappers are peeled off by `coerceRef`, which hands the named type inside to
`coerceNamed`. Only input objects lead from there to further references, with a value that is nested
less deeply, so the depth of the value bounds the recursion. -/

namespace OperationGraph

/-- Why a value cannot be brought into the form of a type. -/
inductive CoercionFault where
  | nullForNonNull (type : TypeRef)
  | unknownType (name : String)
  | notAnInputType (name : String) (kind : Kind)
  | notBuiltin (value : Value) (target : String)
  | notEnum (value : Value) (type : String)
  | noSuchValue (value type : String)
  | notInputObject (value : Value) (type : String)
  | unknownField (field type : String)
  | missingField (field type : String)
  | notExactlyOne (type : String)
  | atIndex (index : Nat) (fault : CoercionFault)
  | atField (field : String) (fault : CoercionFault)
deriving Repr

def CoercionFault.message : CoercionFault → String
  | nullForNonNull t => "cannot provide null for non-null type " ++ t.text
  | unknownType n => "unknown type " ++ Text.quoted n
  | notAnInputType n k => "type " ++ n ++ " of kind " ++ k.text ++ " is not an input type"
  | notBuiltin v t => "cannot coerce " ++ v.text ++ " (" ++ v.typeName ++ ") to " ++ t
  | notEnum v t => "cannot coerce " ++ v.text ++ " (" ++ v.typeName ++ ") to enum " ++ t
  | noSuchValue v t => "value " ++ Text.quoted v ++ " does not exist in enum " ++ t
  | notInputObject v t =>
    "cannot coerce " ++ v.text ++ " (" ++ v.typeName ++ ") to input object " ++ t
  | unknownField f t => "unknown field '" ++ f ++ "' for input object " ++ t
  | missingField f t => "required field '" ++ f ++ "' of input object " ++ t ++ " was not provided"
  | notExactlyOne t => "oneOf input object " ++ t ++ " requires exactly one field"
  | atIndex i e => "at index " ++ toString i ++ ": " ++ e.message
  | atField f e => "field '" ++ f ++ "': " ++ e.message

abbrev Coerced := Except CoercionFault Value

namespace Value

/-- The least value of the type `Int`. -/
def minInt : Int := -0x80000000

/-- The greatest value of the type `Int`. -/
def maxInt : Int := 0x7fffffff

/-- Whether a number is in the range of the type `Int`. -/
def inIntRange (n : Int) : Bool := minInt ≤ n && n ≤ maxInt

/-- Coerces to the type `Int`. A single-precision number must be integral and is not confined to the
range. -/
def coerceInt : Value → Coerced
  | .int .bits32 n => .ok (.int .plain n)
  | .int .unsigned n => .error (.notBuiltin (.int .unsigned n) "int")
  | .int w n => if inIntRange n then .ok (.int .plain n) else .error (.notBuiltin (.int w n) "int")
  | .float .double x =>
    if x.isIntegral && x.inRange minInt maxInt then .ok (.int .plain x.toWord)
    else .error (.notBuiltin (.float .double x) "int")
  | .float .single x =>
    if x.isIntegral then .ok (.int .plain x.toWord)
    else .error (.notBuiltin (.float .single x) "int")
  | v => .error (.notBuiltin v "int")

/-- Coerces to the type `Float`. -/
def coerceFloat : Value → Coerced
  | .float .double x => .ok (.float .double x)
  | .float .single x => .ok (.float .double (x.convert .double))
  | .int .unsigned n => .error (.notBuiltin (.int .unsigned n) "float")
  | .int _ n => .ok (.float .double (Binary.ofInt .double n))
  | v => .error (.notBuiltin v "float")

/-- Coerces to the type `String`. -/
def coerceString : Value → Coerced
  | .string s => .ok (.string s)
  | v => .error (.notBuiltin v "string")

/-- Coerces to the type `Boolean`. -/
def coerceBoolean : Value → Coerced
  | .boolean b => .ok (.boolean b)
  | v => .error (.notBuiltin v "boolean")

/-- Coerces to the type `ID`; an integral double is written as an integer of sixty-four bits. -/
def coerceID : Value → Coerced
  | .string s => .ok (.string s)
  | .int .unsigned n => .error (.notBuiltin (.int .unsigned n) "ID")
  | .int _ n => .ok (.string (toString n))
  | .float .double x =>
    if x.isIntegral then .ok (.string (toString x.toWord))
    else .error (.notBuiltin (.float .double x) "ID")
  | v => .error (.notBuiltin v "ID")

def coerceEnum (t : NamedType) : Value → Coerced
  | .string s =>
    if t.enumValues.any (·.name = s) then .ok (.string s) else .error (.noSuchValue s t.name)
  | v => .error (.notEnum v t.name)

/-- Coerces the items of a list, counting from `index`. -/
def coerceItems (coerce : Value → Coerced) : Nat → List Value → Except CoercionFault (List Value)
  | _, [] => .ok []
  | index, v :: rest =>
    match coerce v with
    | .error e => .error (.atIndex index e)
    | .ok w =>
      match coerceItems coerce (index + 1) rest with
      | .error e => .error e
      | .ok ws => .ok (w :: ws)

def coerceRef (coerceNamed : String → Value → Coerced) : TypeRef → Value → Coerced
  | .nonNull t, v =>
    if v.isNull then .error (.nullForNonNull (.nonNull t)) else coerceRef coerceNamed t v
  | .list t, v =>
    match v with
    | .null => .ok .null
    | .list items =>
      match coerceItems (coerceRef coerceNamed t) 0 items with
      | .error e => .error e
      | .ok ws => .ok (.list ws)
    | v =>
      match coerceRef coerceNamed t v with
      | .error e => .error e
      | .ok w => .ok (.list [w])
  | .named n, v => if v.isNull then .ok .null else coerceNamed n v
  | .absent, v => if v.isNull then .ok .null else coerceNamed "" v

/-- What an input field contributes to a coerced object, given how to coerce to a reference. -/
def coerceField (coerce : TypeRef → Value → Coerced) (t : NamedType) (entries : Entries)
    (f : InputValue) : Except CoercionFault (Option Value) :=
  match entries.find? f.name with
  | some raw =>
    match coerce f.type raw with
    | .error e => .error (.atField f.name e)
    | .ok w => .ok (some w)
  | none =>
    if !f.default.isNull then .ok (some f.default)
    else if f.type.isNonNull then .error (.missingField f.name t.name)
    else .ok none

def coerceFields (coerce : TypeRef → Value → Coerced) (t : NamedType) (entries : Entries) :
    List InputValue → Entries → Except CoercionFault Entries
  | [], out => .ok out
  | f :: rest, out =>
    match coerceField coerce t entries f with
    | .error e => .error e
    | .ok none => coerceFields coerce t entries rest out
    | .ok (some w) => coerceFields coerce t entries rest (out.put f.name w)

def coerceInputObject (coerce : TypeRef → Value → Coerced) (t : NamedType) : Value → Coerced
  | .object entries =>
    match entries.find? fun e => (t.inputField? e.1).isNone with
    | some e => .error (.unknownField e.1 t.name)
    | none =>
      match coerceFields coerce t entries t.inputFields [] with
      | .error e => .error e
      | .ok out =>
        if t.oneOf && out.length ≠ 1 then .error (.notExactlyOne t.name) else .ok (.object out)
  | v => .error (.notInputObject v t.name)

def builtinCoercion? (name : String) : Option (Value → Coerced) :=
  if name = "Int" then some coerceInt
  else if name = "Float" then some coerceFloat
  else if name = "String" then some coerceString
  else if name = "Boolean" then some coerceBoolean
  else if name = "ID" then some coerceID
  else none

/-- Coerces a value that is not null to a named type; `fuel` bounds the nesting of input objects. -/
def coerceNamed (s : Schema) : Nat → String → Value → Coerced
  | fuel, name, v =>
    match builtinCoercion? name with
    | some coerce => coerce v
    | none =>
      match s.type? name with
      | none => .error (.unknownType name)
      | some t =>
        match t.kind with
        | .enum => coerceEnum t v
        | .scalar => .ok v
        | .inputObject =>
          match fuel with
          | 0 => .error (.notInputObject v t.name)
          | fuel + 1 => coerceInputObject (coerceRef (coerceNamed s fuel)) t v
        | kind => .error (.notAnInputType t.name kind)

def coerce (s : Schema) (t : TypeRef) (v : Value) : Coerced :=
  coerceRef (coerceNamed s v.depth) t v

end Value

end OperationGraph
