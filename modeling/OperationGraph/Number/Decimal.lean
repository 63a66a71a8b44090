import OperationGraph.Number.Binary

/-! # Decimal numerals

Reading a decimal numeral into the nearest binary number, and the fewest decimal digits that read
back as a given number. -/

namespace OperationGraph

/-- The numeral `0.d₁d₂… · 10 ^ point` without its sign. -/
structure Decimal where
  digits : List Nat
  point : Int
deriving DecidableEq, Repr

/-- The decimal digits of a natural number, the highest first. -/
def natDigits (n : Nat) : List Nat := (Nat.toDigits 10 n).map fun c => c.toNat - '0'.toNat

def ofDigits (ds : List Nat) : Nat := ds.foldl (fun n d => n * 10 + d) 0

def digit? (c : Char) : Option Nat := if c.isDigit then some (c.toNat - '0'.toNat) else none

/-- The digits at the start of a text and what follows them. -/
def spanDigits (cs : List Char) : List Nat × List Char :=
  ((cs.takeWhile Char.isDigit).filterMap digit?, cs.dropWhile Char.isDigit)

namespace Binary

/-- Decimal exponents beyond this bound are out of the range of every format. -/
def decimalBound : Nat := 400

/-- The number of a format nearest to `value · 10 ^ exponent`, where `width` digits were written. -/
def ofScaled (f : BinaryFormat) (negative : Bool) (value width : Nat) (exponent : Int) : Binary :=
  if value = 0 then zero f negative
  else if exponent + width < -decimalBound then zero f negative
  else if decimalBound + width < exponent then .infinite negative
  else if exponent < 0 then ofRatio f negative value (Nat.pow 10 exponent.natAbs)
  else ofRatio f negative (value * Nat.pow 10 exponent.natAbs) 1

/-- Reads an exponent such as `e-3`. -/
def readExponent? : List Char → Option Int
  | [] => some 0
  | mark :: rest =>
    if mark = 'e' ∨ mark = 'E' then
      let (negative, ds) := match rest with
        | '-' :: r => (true, r)
        | '+' :: r => (false, r)
        | r => (false, r)
      match spanDigits ds with
      | ([], _) => none
      | (n, []) => some (if negative then -(ofDigits n : Int) else ofDigits n)
      | _ => none
    else none

/-- Reads an unsigned decimal numeral: digits, a fraction and an exponent. -/
def readUnsigned? (f : BinaryFormat) (negative : Bool) (cs : List Char) : Option Binary :=
  let (whole, rest) := spanDigits cs
  let (fraction, rest) := match rest with
    | '.' :: r => spanDigits r
    | r => ([], r)
  let ds := whole ++ fraction
  if ds.isEmpty then none
  else (readExponent? rest).map fun e =>
    ofScaled f negative (ofDigits ds) ds.length (e - fraction.length)

/-- Reads a decimal numeral with an optional sign, or the name of an infinity or of no number. -/
def read? (f : BinaryFormat) (cs : List Char) : Option Binary :=
  let (negative, rest) := match cs with
    | '-' :: r => (true, r)
    | '+' :: r => (false, r)
    | r => (false, r)
  let word := rest.map Char.toLower
  if word = ['i', 'n', 'f'] ∨ word = ['i', 'n', 'f', 'i', 'n', 'i', 't', 'y'] then
    some (.infinite negative)
  else if word = ['n', 'a', 'n'] then if cs = rest then some .nan else none
  else readUnsigned? f negative rest

/-- The number of digits before the point of a positive ratio; nothing before it counts down. -/
def pointOf (num den : Nat) : Int :=
  let guess : Int := (natDigits num).length - (natDigits den).length
  let below (x : Int) : Bool :=
    if x < 0 then num * Nat.pow 10 x.natAbs < den else num < den * Nat.pow 10 x.natAbs
  if below guess then guess else guess + 1

def shiftRatio (num den : Nat) (exponent : Int) : Nat × Nat :=
  if exponent < 0 then (num, den * Nat.pow 10 exponent.natAbs)
  else (num * Nat.pow 10 exponent.natAbs, den)

/-- A decimal that reads back as the given number, on the grid of `count` digits. -/
def digitsOn? (f : BinaryFormat) (m : Nat) (e : Int) (count : Nat) : Option Decimal :=
  let (num, den) := magnitude m e
  let point := pointOf num den
  let (n, d) := shiftRatio num den (count - point)
  let lower := n / d
  let readsBack (c : Nat) : Bool :=
    let (n, d) := shiftRatio c 1 (point - count)
    ofRatio f false n d = .finite false m e
  let pick (c : Nat) : Option Decimal :=
    if c = Nat.pow 10 count then some ⟨[1], point + 1⟩ else some ⟨natDigits c, point⟩
  if readsBack lower && readsBack (lower + 1) && n % d ≠ 0 then
    pick (roundRatio n d)
  else if readsBack lower then pick lower
  else if readsBack (lower + 1) then pick (lower + 1)
  else none

/-- The fewest digits that read back, nearest to the number, among at most `count` digits more. -/
def digitsFrom (f : BinaryFormat) (m : Nat) (e : Int) : Nat → Nat → Decimal
  | 0, _ => ⟨[0], 1⟩
  | more + 1, count => (digitsOn? f m e count).getD (digitsFrom f m e more (count + 1))

/-- The shortest decimal of a positive number; seventeen digits are always enough. -/
def shortest (f : BinaryFormat) (m : Nat) (e : Int) : Decimal :=
  if m = 0 then ⟨[0], 1⟩ else digitsFrom f m e 17 1

end Binary

/-- When a numeral is written with an exponent, by the power of ten of its first digit. -/
structure NumeralLayout where
  scientific : Int → Bool

namespace NumeralLayout

/-- General text: an exponent for very small numbers and from a million on. -/
def general : NumeralLayout := ⟨fun x => x < -4 || x ≥ 6⟩

def positional : NumeralLayout := ⟨fun _ => false⟩

/-- The layout of data exchange: an exponent below a millionth and from `10 ^ 21` on. -/
def exchange : NumeralLayout := ⟨fun x => x < -6 || x ≥ 21⟩

end NumeralLayout

namespace Decimal

def digitChar (d : Nat) : Char := Char.ofNat ('0'.toNat + d)

def positionalText (d : Decimal) : List Char :=
  let ds := d.digits.map digitChar
  if d.point ≤ 0 then
    if d.digits = [0] then ['0'] else '0' :: '.' :: List.replicate d.point.natAbs '0' ++ ds
  else
    let n := d.point.toNat
    if ds.length ≤ n then ds ++ List.replicate (n - ds.length) '0'
    else ds.take n ++ '.' :: ds.drop n

/-- The digits with one before the point and an exponent of at least two digits. -/
def scientificText (d : Decimal) : List Char :=
  let ds := d.digits.map digitChar
  let x := d.point - 1
  let shown := match ds with
    | [] => []
    | [c] => [c]
    | c :: r => c :: '.' :: r
  let power := (toString x.natAbs).toList
  let power := if power.length < 2 then '0' :: power else power
  shown ++ 'e' :: (if x < 0 then '-' else '+') :: power

def text (layout : NumeralLayout) (d : Decimal) : List Char :=
  if d.digits ≠ [0] && layout.scientific (d.point - 1) then d.scientificText else d.positionalText

end Decimal

/-- The text of a binary number: its shortest decimal in a layout, or the name of a special value. -/
def Binary.text (f : BinaryFormat) (layout : NumeralLayout) : Binary → String
  | .nan => "NaN"
  | .infinite s => if s then "-Inf" else "+Inf"
  | .finite s m e =>
    String.ofList ((if s then ['-'] else []) ++ (Binary.shortest f m e).text layout)

end OperationGraph
