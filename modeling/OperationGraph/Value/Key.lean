import OperationGraph.Value.Basic

/-! # Keys of mappings

Scalars can be keys. Two keys are one only if they have one type, so the number one and its text are two
keys. Mappings are kept in the order of their keys: by type first and by value then. -/

namespace OperationGraph

def Day.number (d : Day) : Nat :=
  let before := d.year - 1
  let leapDays := before / 4 - before / 100 + before / 400
  let months := (List.range (d.month - 1)).foldl (fun n m => n + daysIn d.year (m + 1)) 0
  (if d.year = 0 then 0 else 366 + 365 * before + leapDays) + months + d.day

/-- The seconds of universal time from the start of the calendar up to an instant. -/
def Moment.seconds : Moment → Int
  | instant d t zone =>
    (d.number * 86400 + t.hour * 3600 + t.minute * 60 + t.second : Nat) - zone.getD 0
  | _ => 0

/-- The part of a second by which a moment is later. -/
def Moment.nanoseconds : Moment → Nat
  | instant _ t _ => t.nanosecond
  | _ => 0

namespace Value

/-- The place of a value's type among the types of keys. -/
def keyRank : Value → Nat
  | null => 0
  | int .unsigned _ => 1
  | int _ _ => 2
  | float _ _ => 3
  | boolean _ => 4
  | string _ => 5
  | moment _ => 6
  | _ => 7

/-- Whether a value has no parts, so that it can be a key. -/
def isScalar : Value → Bool
  | list _ => false
  | object _ => false
  | mapping _ => false
  | _ => true

/-- Whether two values are one key. No number is none, and instants with offsets are never one. -/
def sameKey : Value → Value → Bool
  | null, null => true
  | boolean a, boolean b => a = b
  | int v m, int w n => v = w && m = n
  | float v x, float w y => v = w && x.le y && y.le x
  | string s, string t => s = t
  | moment (.instant d t none), moment (.instant d' t' none) => d = d' && t = t'
  | _, _ => false

def keyBefore : Value → Value → Bool
  | boolean a, boolean b => !a && b
  | float _ .nan, float _ .nan => false
  | float _ .nan, float _ _ => true
  | float _ x, float _ y => x.le y && !y.le x
  | string s, string t => s < t
  | moment a, moment b =>
    a.nanoseconds < b.nanoseconds || a.nanoseconds = b.nanoseconds && a.seconds < b.seconds
  | int v m, int w n =>
    if (int v m).keyRank = (int w n).keyRank then m < n else (int v m).keyRank < (int w n).keyRank
  | a, b => a.keyRank < b.keyRank

def putPair (k v : Value) : List (Value × Value) → List (Value × Value)
  | [] => [(k, v)]
  | p :: rest =>
    if p.1.sameKey k then (k, v) :: rest
    else if k.keyBefore p.1 then (k, v) :: p :: rest
    else p :: putPair k v rest

end Value

end OperationGraph
