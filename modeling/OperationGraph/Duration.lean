import OperationGraph.Number.Decimal
import OperationGraph.Text.Hex
import OperationGraph.Text.Utf8

/-! # Durations

A duration is a number of nanoseconds of sixty-four bits. It is written as a sum of amounts with units,
as in `1h30m0.5s`. -/

namespace OperationGraph

structure Duration where
  nanoseconds : Int
deriving DecidableEq, Repr

inductive DurationFault where
  | invalid (text : String)
  | missingUnit (text : String)
  | unknownUnit (unit text : String)
deriving DecidableEq, Repr

namespace Duration

/-- The written form of one character of a duration in a message: beyond plain characters each byte is
written in hexadecimal. -/
def quotedChar (c : Char) : List Char :=
  if c.toNat < 0x20 || 0x80 ≤ c.toNat then
    (Text.charBytes c).flatMap fun b => '\\' :: 'x' :: Text.hexDigits 2 b
  else if c = '"' || c = '\\' then ['\\', c]
  else [c]

def quoted (s : String) : String := String.ofList ('"' :: s.toList.flatMap quotedChar ++ ['"'])

def unit? (name : String) : Option Nat :=
  match name with
  | "ns" => some 1
  | "us" => some 1000
  | "µs" => some 1000
  | "μs" => some 1000
  | "ms" => some 1000000
  | "s" => some 1000000000
  | "m" => some 60000000000
  | "h" => some 3600000000000
  | _ => none

/-- Digits of a fraction that fit into a word, with their scale. -/
def fractionOf : List Nat → Nat → Nat → Nat × Nat
  | [], n, scale => (n, scale)
  | d :: rest, n, scale =>
    if 0x7fffffffffffffff / 10 < n || 0x8000000000000000 < n * 10 + d then (n, scale)
    else fractionOf rest (n * 10 + d) (scale * 10)

/-- The nanoseconds of a fraction of a unit, by way of two roundings. -/
def fractionNanoseconds (unit : Nat) (fraction : List Nat) : Nat :=
  let (n, scale) := fractionOf fraction 0 1
  match Binary.ofRatio .double false n 1, Binary.ofRatio .double false unit scale with
  | .finite _ m e, .finite _ m' e' =>
    let (a, b) := Binary.magnitude m e
    let (c, d) := Binary.magnitude m' e'
    match Binary.ofRatio .double false (a * c) (b * d) with
    | .finite _ m e => (Binary.truncate false m e).toNat
    | _ => 0
  | _, _ => 0

/-- Whether a character belongs to an amount rather than to a unit. -/
def isAmount (c : Char) : Bool := c = '.' || c.isDigit

/-- Adds up amounts with units to `total` in a word of sixty-four bits; `fuel` bounds their number. -/
def sum (text : String) : Nat → Nat → List Char → Except DurationFault Nat
  | 0, _, _ => .error (.invalid text)
  | fuel + 1, total, cs =>
    match cs with
    | [] => .ok total
    | cs =>
      let (whole, rest) := spanDigits cs
      let (fraction, rest) := match rest with
        | '.' :: r => spanDigits r
        | r => ([], r)
      let name := rest.takeWhile fun c => !isAmount c
      if whole.isEmpty && fraction.isEmpty || 0x8000000000000000 < ofDigits whole then .error (.invalid text)
      else if name.isEmpty then .error (.missingUnit text)
      else
        match unit? (String.ofList name) with
        | none => .error (.unknownUnit (String.ofList name) text)
        | some unit =>
          let amount := ofDigits whole * unit + fractionNanoseconds unit fraction
          let total := (total + amount) % 0x10000000000000000
          if 0x8000000000000000 / unit < ofDigits whole || 0x8000000000000000 < amount || 0x8000000000000000 < total then
            .error (.invalid text)
          else sum text fuel total (rest.dropWhile fun c => !isAmount c)

/-- Reads a duration. Zero needs no unit. -/
def read (text : String) : Except DurationFault Duration :=
  let (negative, cs) := match text.toList with
    | '-' :: r => (true, r)
    | '+' :: r => (false, r)
    | r => (false, r)
  if cs = ['0'] then .ok ⟨0⟩
  else if cs.isEmpty then .error (.invalid text)
  else
    match sum text (cs.length + 1) 0 cs with
    | .error e => .error e
    | .ok n =>
      if negative then .ok ⟨-(n : Int)⟩
      else if 0x8000000000000000 ≤ n then .error (.invalid text)
      else .ok ⟨n⟩

/-- A number of units with `places` decimals, trailing zeros left out. -/
def decimals (n places : Nat) : String :=
  let whole := n / Nat.pow 10 places
  let rest := n % Nat.pow 10 places
  if rest = 0 then toString whole
  else
    let ds := (toString rest).toList
    let ds := List.replicate (places - ds.length) '0' ++ ds
    toString whole ++ "." ++ String.ofList (ds.reverse.dropWhile (· = '0')).reverse

/-- A positive number of nanoseconds: below a second in the greatest fitting unit, else in hours, minutes
and seconds. -/
def magnitudeText (n : Nat) : String :=
  if n = 0 then "0s"
  else if n < 1000 then toString n ++ "ns"
  else if n < 1000000 then decimals n 3 ++ "µs"
  else if n < 1000000000 then decimals n 6 ++ "ms"
  else
    let minutes := n / 60000000000
    let seconds := decimals (n % 60000000000) 9 ++ "s"
    if minutes = 0 then seconds
    else if minutes / 60 = 0 then toString minutes ++ "m" ++ seconds
    else toString (minutes / 60) ++ "h" ++ toString (minutes % 60) ++ "m" ++ seconds

def text (d : Duration) : String :=
  (if d.nanoseconds < 0 then "-" else "") ++ magnitudeText d.nanoseconds.natAbs

end Duration

def DurationFault.message : DurationFault → String
  | invalid t => "time: invalid duration " ++ Duration.quoted t
  | missingUnit t => "time: missing unit in duration " ++ Duration.quoted t
  | unknownUnit u t =>
    "time: unknown unit " ++ Duration.quoted u ++ " in duration " ++ Duration.quoted t

end OperationGraph
