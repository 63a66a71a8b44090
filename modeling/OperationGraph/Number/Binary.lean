/-! # Binary floating-point numbers

A number of a binary format is kept as its exact value: a sign, a mantissa and a power of two. So
integrality, conversion and rounding are statements about natural numbers. `Binary.ofRatio` rounds
a ratio to the nearest number of a format, a tie going to the even mantissa. -/

namespace OperationGraph

/-- The precision of a binary format and the range of the exponent of its last place. -/
structure BinaryFormat where
  precision : Nat
  minExponent : Int
  maxExponent : Int
deriving DecidableEq, Repr

namespace BinaryFormat

/-- Numbers of sixty-four bits. -/
def double : BinaryFormat := ⟨53, -1074, 971⟩

/-- Numbers of thirty-two bits. -/
def single : BinaryFormat := ⟨24, -149, 104⟩

end BinaryFormat

/-- No number, an infinity, or `± mantissa · 2 ^ exponent`. -/
inductive Binary where
  | nan
  | infinite (negative : Bool)
  | finite (negative : Bool) (mantissa : Nat) (exponent : Int)
deriving DecidableEq, Repr

/-- A ratio rounded to the nearest natural number, a half to the even neighbour. -/
def roundRatio (num den : Nat) : Nat :=
  let q := num / den
  let r := num % den
  if 2 * r < den then q
  else if den < 2 * r then q + 1
  else if q % 2 = 0 then q else q + 1

/-- The ratio `num / den` divided by a power of two. -/
def scaleRatio (num den : Nat) (exponent : Int) : Nat × Nat :=
  if exponent < 0 then (num * Nat.pow 2 exponent.natAbs, den)
  else (num, den * Nat.pow 2 exponent.natAbs)

namespace Binary

def zero (f : BinaryFormat) (negative : Bool) : Binary := .finite negative 0 f.minExponent

/-- The exponent of the last place that a format keeps of a positive ratio. -/
def placeOf (f : BinaryFormat) (num den : Nat) : Int :=
  let guess : Int := (num.log2 : Int) - den.log2 - f.precision
  let (n, d) := scaleRatio num den guess
  let exact := if Nat.pow 2 f.precision ≤ n / d then guess + 1 else guess
  max exact f.minExponent

/-- The number of a format that is nearest to a ratio with positive denominator. -/
def ofRatio (f : BinaryFormat) (negative : Bool) (num den : Nat) : Binary :=
  if num = 0 then zero f negative
  else
    let place := placeOf f num den
    let (n, d) := scaleRatio num den place
    let m := roundRatio n d
    let (m, place) :=
      if m = Nat.pow 2 f.precision then (Nat.pow 2 (f.precision - 1), place + 1) else (m, place)
    if f.maxExponent < place then .infinite negative else .finite negative m place

/-- The number of a format that is nearest to an integer. -/
def ofInt (f : BinaryFormat) (n : Int) : Binary := ofRatio f (n < 0) n.natAbs 1

def magnitude (mantissa : Nat) (exponent : Int) : Nat × Nat := scaleRatio mantissa 1 (-exponent)

/-- The same value in another format, rounded if need be. -/
def convert (f : BinaryFormat) : Binary → Binary
  | .nan => .nan
  | .infinite s => .infinite s
  | .finite s m e => let (n, d) := magnitude m e; ofRatio f s n d

/-- The integer between a finite number and zero that is nearest to the number. -/
def truncate (negative : Bool) (mantissa : Nat) (exponent : Int) : Int :=
  let (n, d) := magnitude mantissa exponent
  if negative then -((n / d : Nat) : Int) else ((n / d : Nat) : Int)

/-- Whether a number has no fractional part; the infinities have none. -/
def isIntegral : Binary → Bool
  | .nan => false
  | .infinite _ => true
  | .finite _ m e => let (n, d) := magnitude m e; n % d = 0

/-- The least integer of sixty-four bits, which also stands for every value out of range. -/
def minWord : Int := -0x8000000000000000

/-- The integral part as an integer of sixty-four bits. -/
def toWord : Binary → Int
  | .nan => minWord
  | .infinite _ => minWord
  | .finite s m e =>
    let n := truncate s m e
    if minWord ≤ n ∧ n < 0x8000000000000000 then n else minWord

/-- Whether a number lies between two integers, the ends included. -/
def inRange (lo hi : Int) : Binary → Bool
  | .finite s m e =>
    let (n, d) := magnitude m e
    let v : Int := if s then -(n : Int) else n
    lo * d ≤ v && v ≤ hi * d
  | _ => false

/-- The signed numerator of a finite number over the denominator of its magnitude. -/
def signedRatio (negative : Bool) (mantissa : Nat) (exponent : Int) : Int × Nat :=
  let (n, d) := magnitude mantissa exponent
  (if negative then -(n : Int) else n, d)

/-- The sum of two numbers, rounded to a format. -/
def add (f : BinaryFormat) : Binary → Binary → Binary
  | .finite s m e, .finite s' m' e' =>
    let (n, d) := signedRatio s m e
    let (n', d') := signedRatio s' m' e'
    let sum := n * d' + n' * d
    if sum = 0 then zero f (s && s') else ofRatio f (sum < 0) sum.natAbs (d * d')
  | .infinite s, .infinite s' => if s = s' then .infinite s else .nan
  | .infinite s, .finite .. => .infinite s
  | .finite .., .infinite s => .infinite s
  | .nan, _ => .nan
  | _, .nan => .nan

/-- A number multiplied by a power of two, as long as it stays in the range of its format. -/
def shift (k : Int) : Binary → Binary
  | .finite s m e => .finite s m (e + k)
  | x => x

def le : Binary → Binary → Bool
  | .nan, _ => false
  | _, .nan => false
  | .infinite s, .infinite s' => s || !s'
  | .infinite s, .finite .. => s
  | .finite .., .infinite s => !s
  | .finite s m e, .finite s' m' e' =>
    let (n, d) := signedRatio s m e
    let (n', d') := signedRatio s' m' e'
    n * d' ≤ n' * d

end Binary

end OperationGraph
