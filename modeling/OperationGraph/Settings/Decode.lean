import OperationGraph.Duration
import OperationGraph.Number.Integer
import OperationGraph.Text.Blank
import OperationGraph.Text.Truth
import OperationGraph.Value.Basic

/-! # Reading settings

A setting has the type that its use asks for, and a value of another type is converted if that makes
sense: texts to numbers, numbers to truth values, a text with commas to a list. All faults are
collected. -/

namespace OperationGraph

inductive SettingFault where
  | notGroup (name : String) (v : Value)
  | unconvertible (name target : String) (v : Value)
  | integer (name : String) (fault : IntegerFault)
  | truth (name text : String)
  | duration (name : String) (fault : DurationFault)
deriving Repr

namespace SettingFault

def sortName : Value → String
  | .list _ => "slice"
  | .object _ => "map"
  | v => v.typeName

def message : SettingFault → String
  | notGroup name v => "'" ++ name ++ "' expected a map, got '" ++ sortName v ++ "'"
  | unconvertible name target v =>
    "'" ++ name ++ "' expected type '" ++ target ++ "', got unconvertible type '" ++ v.typeName
      ++ "', value: '" ++ v.text ++ "'"
  | integer name fault => "cannot parse '" ++ name ++ "' as int: " ++ fault.message
  | truth name text => "cannot parse '" ++ name ++ "' as bool: " ++ Text.truthFault text
  | duration name fault => "error decoding '" ++ name ++ "': " ++ fault.message

end SettingFault

/-- What was read, with all that did not fit. -/
structure Decoded (α : Type) where
  value : α
  faults : List SettingFault := []

namespace Decoded

/-- Whether a floating-point number is not zero. -/
def isNonzero : Binary → Bool
  | .finite _ m _ => m ≠ 0
  | _ => true

/-- The number of sixty-four bits that has the bits of a number. -/
def wrap (n : Int) : Int := (n + 0x8000000000000000) % 0x10000000000000000 - 0x8000000000000000

def text (name : String) : Value → Decoded String
  | .null => ⟨"", []⟩
  | .boolean b => ⟨if b then "1" else "0", []⟩
  | .int _ n => ⟨toString n, []⟩
  | .float w x => ⟨x.text w.format .positional, []⟩
  | .string s => ⟨s, []⟩
  | v => ⟨"", [.unconvertible name "string" v]⟩

def truth (name : String) : Value → Decoded Bool
  | .null => ⟨false, []⟩
  | .boolean b => ⟨b, []⟩
  | .int _ n => ⟨n ≠ 0, []⟩
  | .float _ x => ⟨isNonzero x, []⟩
  | .string s =>
    match Text.truth? s with
    | some b => ⟨b, []⟩
    | none => ⟨false, if s = "" then [] else [.truth name s]⟩
  | v => ⟨false, [.unconvertible name "bool" v]⟩

/-- Reads an integer; `target` names its type in messages. -/
def integer (name target : String) : Value → Decoded Int
  | .null => ⟨0, []⟩
  | .boolean b => ⟨if b then 1 else 0, []⟩
  | .int _ n => ⟨wrap n, []⟩
  | .float _ x => ⟨x.toWord, []⟩
  | .string s =>
    match Integer.read (if s = "" then "0" else s) with
    | .ok n => ⟨n, []⟩
    | .error e => ⟨0, [.integer name e]⟩
  | v => ⟨0, [.unconvertible name target v]⟩

/-- Reads a duration; a number counts nanoseconds. -/
def duration (name : String) : Value → Decoded Duration
  | .string s =>
    match Duration.read s with
    | .ok d => ⟨d, []⟩
    | .error e => ⟨⟨0⟩, [.duration name e]⟩
  | v => let n := integer name "time.Duration" v
    ⟨⟨n.value⟩, n.faults⟩

def items (name : String) (vs : List Value) : Decoded (List String) :=
  let read := vs.zipIdx.map fun (v, i) => text (name ++ "[" ++ toString i ++ "]") v
  ⟨read.map (·.value), read.flatMap (·.faults)⟩

/-- Reads a list of texts; a single text is split at commas. -/
def list (name : String) : Value → Decoded (List String)
  | .null => ⟨[], []⟩
  | .string s => ⟨if s = "" then [] else Text.split ',' s, []⟩
  | .list vs => items name vs
  | .object [] => ⟨[], []⟩
  | v => items name [v]

/-- Reads the settings of a group. A moment has parts too, but none of them is a setting. -/
def group (name : String) : Value → Decoded Entries
  | .null => ⟨[], []⟩
  | .moment _ => ⟨[], []⟩
  | .object es => ⟨es, []⟩
  | v => ⟨[], [.notGroup name v]⟩

end Decoded

end OperationGraph
