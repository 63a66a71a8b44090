import OperationGraph.Text.Hex
import OperationGraph.Text.Quoted

/-! # Integers in settings

An integer of sixty-four bits may be written in base two, eight, ten or sixteen, as its first characters
tell, and with underscores between digits. -/

namespace OperationGraph

inductive IntegerFault where
  | malformed (text : String)
  | outOfRange (text : String)
deriving DecidableEq, Repr

def IntegerFault.message : IntegerFault → String
  | malformed t => "strconv.ParseInt: parsing " ++ Text.quoted t ++ ": invalid syntax"
  | outOfRange t => "strconv.ParseInt: parsing " ++ Text.quoted t ++ ": value out of range"

namespace Integer

def baseOf : List Char → Nat × List Char
  | '0' :: mark :: d :: rest =>
    match mark.toLower with
    | 'b' => (2, d :: rest)
    | 'o' => (8, d :: rest)
    | 'x' => (16, d :: rest)
    | _ => (8, mark :: d :: rest)
  | '0' :: rest => (8, rest)
  | cs => (10, cs)

/-- Reads digits of a base after `n`; underscores are passed over. -/
def readDigits (text : String) (base : Nat) (n : Nat) : List Char → Except IntegerFault Nat
  | [] => .ok n
  | c :: rest =>
    if c = '_' then readDigits text base n rest
    else
      match Text.hexValue? c with
      | none => .error (.malformed text)
      | some d =>
        if base ≤ d then .error (.malformed text)
        else if 0x10000000000000000 ≤ n * base + d then .error (.outOfRange text)
        else readDigits text base (n * base + d) rest

/-- Whether each underscore stands between two digits, `digit` telling whether one comes before. -/
def separates (digit : Bool) : List Char → Bool
  | [] => true
  | '_' :: rest =>
    digit && (match rest with
      | [] => false
      | c :: _ => c ≠ '_') && separates false rest
  | _ :: rest => separates true rest

/-- Whether the underscores of an unsigned numeral are in place; the mark of a base counts as a digit. -/
def underscoresInPlace (cs : List Char) : Bool :=
  match cs with
  | '0' :: mark :: rest =>
    if ['b', 'o', 'x'].contains mark.toLower then separates true rest else separates false cs
  | cs => separates false cs

def readUnsigned (text : String) (cs : List Char) : Except IntegerFault Nat :=
  if cs.isEmpty then .error (.malformed text)
  else
    let (base, ds) := baseOf cs
    match readDigits text base 0 ds with
    | .error e => .error e
    | .ok n => if underscoresInPlace cs then .ok n else .error (.malformed text)

/-- An integer of sixty-four bits by its sign and its magnitude. -/
def signed (text : String) (negative : Bool) (n : Nat) : Except IntegerFault Int :=
  if negative then if 0x8000000000000000 < n then .error (.outOfRange text) else .ok (-(n : Int))
  else if 0x8000000000000000 ≤ n then .error (.outOfRange text) else .ok n

def splitSign : List Char → Bool × List Char
  | '-' :: rest => (true, rest)
  | '+' :: rest => (false, rest)
  | cs => (false, cs)

/-- Reads an integer of sixty-four bits in a given base, without underscores. -/
def readSigned (base : Nat) (text : String) (cs : List Char) : Except IntegerFault Int :=
  let (negative, digits) := splitSign cs
  if digits.isEmpty || digits.contains '_' then .error (.malformed text)
  else
    match readDigits text base 0 digits with
    | .error e => .error e
    | .ok n => signed text negative n

def read (text : String) : Except IntegerFault Int :=
  let (negative, digits) := splitSign text.toList
  match readUnsigned text digits with
  | .error e => .error e
  | .ok n => signed text negative n

end Integer

end OperationGraph
