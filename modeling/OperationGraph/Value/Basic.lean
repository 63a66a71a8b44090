import OperationGraph.Moment
import OperationGraph.Number.Decimal
import OperationGraph.Text.Quoted
import OperationGraph.Text.Sorted

/-! # Dynamic values

The values that variables, defaults and arguments carry at run time. Numbers come in four widths of
integers and two of floating point, and objects hold their entries in the order of their names. Files
may also bring moments, and mappings whose keys are not all texts. -/

namespace OperationGraph

/-- The widths of integers: the plain one, the two that are named by their bits, and the one for
numbers too great for these. -/
inductive IntWidth where
  | plain
  | bits32
  | bits64
  | unsigned
deriving DecidableEq, Repr

inductive FloatWidth where
  | single
  | double
deriving DecidableEq, Repr

def FloatWidth.format : FloatWidth → BinaryFormat
  | single => .single
  | double => .double

inductive Value where
  | null
  | boolean (b : Bool)
  | int (width : IntWidth) (n : Int)
  | float (width : FloatWidth) (x : Binary)
  | string (s : String)
  | list (items : List Value)
  | object (entries : List (String × Value))
  | moment (m : Moment)
  | mapping (entries : List (Value × Value))
deriving Repr, Inhabited

/-- Named values in the order of their names. -/
abbrev Entries := List (String × Value)

namespace Entries

def find? (es : Entries) (name : String) : Option Value :=
  (List.find? (fun e => e.1 = name) es).map (·.2)

def put (es : Entries) (name : String) (v : Value) : Entries :=
  putOrdered Prod.fst (name, v) es

/-- The entries of a list of pairs; of repeated names the last counts. -/
def ofList (ps : List (String × Value)) : Entries :=
  ps.foldl (fun es p => es.put p.1 p.2) []

end Entries

namespace Value

def isNull : Value → Bool
  | null => true
  | _ => false

def boolean? : Value → Option Bool
  | boolean b => some b
  | _ => none

def typeName : Value → String
  | null => "<nil>"
  | boolean _ => "bool"
  | int .plain _ => "int"
  | int .bits32 _ => "int32"
  | int .bits64 _ => "int64"
  | int .unsigned _ => "uint64"
  | float .single _ => "float32"
  | float .double _ => "float64"
  | string _ => "string"
  | list _ => "[]interface \x7b\x7d"
  | object _ => "map[string]interface \x7b\x7d"
  | moment m => m.typeName
  | mapping _ => "map[interface \x7b\x7d]interface \x7b\x7d"

mutual

/-- A value in messages: texts without quotes, lists and objects in brackets with blanks between. -/
def text : Value → String
  | null => "<nil>"
  | boolean b => if b then "true" else "false"
  | int _ n => toString n
  | float w x => x.text w.format .general
  | string s => s
  | list items => "[" ++ " ".intercalate (itemTexts items) ++ "]"
  | object entries => "map[" ++ " ".intercalate (entryTexts entries) ++ "]"
  | moment m => m.text
  | mapping entries => "map[" ++ " ".intercalate (pairTexts entries) ++ "]"

def itemTexts : List Value → List String
  | [] => []
  | v :: rest => v.text :: itemTexts rest

def entryTexts : List (String × Value) → List String
  | [] => []
  | (k, v) :: rest => (k ++ ":" ++ v.text) :: entryTexts rest

def pairTexts : List (Value × Value) → List String
  | [] => []
  | (k, v) :: rest => (k.text ++ ":" ++ v.text) :: pairTexts rest

end

mutual

/-- A value as an expression, with the types of lists, objects and mappings. -/
def expression : Value → String
  | null => "interface \x7b\x7d(nil)"
  | int .unsigned n => "0x" ++ Text.hexText n.toNat
  | string s => Text.quoted s
  | list items => "[]interface \x7b\x7d\x7b" ++ ", ".intercalate (itemExpressions items) ++ "\x7d"
  | object entries =>
    "map[string]interface \x7b\x7d\x7b" ++ ", ".intercalate (entryExpressions entries) ++ "\x7d"
  | moment m => m.expression
  | mapping entries =>
    "map[interface \x7b\x7d]interface \x7b\x7d\x7b" ++ ", ".intercalate (pairExpressions entries)
      ++ "\x7d"
  | v => v.text

def itemExpressions : List Value → List String
  | [] => []
  | v :: rest => v.expression :: itemExpressions rest

def entryExpressions : List (String × Value) → List String
  | [] => []
  | (k, v) :: rest => (Text.quoted k ++ ":" ++ v.expression) :: entryExpressions rest

def pairExpressions : List (Value × Value) → List String
  | [] => []
  | (k, v) :: rest => (k.expression ++ ":" ++ v.expression) :: pairExpressions rest

end

mutual

/-- How deeply lists and objects nest in a value. -/
def depth : Value → Nat
  | list items => itemsDepth items + 1
  | object entries => entriesDepth entries + 1
  | mapping entries => pairsDepth entries + 1
  | _ => 0

def itemsDepth : List Value → Nat
  | [] => 0
  | v :: rest => max v.depth (itemsDepth rest)

def entriesDepth : List (String × Value) → Nat
  | [] => 0
  | (_, v) :: rest => max v.depth (entriesDepth rest)

def pairsDepth : List (Value × Value) → Nat
  | [] => 0
  | (_, v) :: rest => max v.depth (pairsDepth rest)

end

end Value

end OperationGraph
