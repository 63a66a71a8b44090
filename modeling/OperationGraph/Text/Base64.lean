/-! # Bytes in base sixty-four

Three bytes are written as four characters. At the end one or two bytes are written with signs that fill
up, and line breaks may stand anywhere. -/

namespace OperationGraph.Text

def sextet? (c : Char) : Option Nat :=
  if 'A' ≤ c ∧ c ≤ 'Z' then some (c.toNat - 'A'.toNat)
  else if 'a' ≤ c ∧ c ≤ 'z' then some (c.toNat - 'a'.toNat + 26)
  else if c.isDigit then some (c.toNat - '0'.toNat + 52)
  else if c = '+' then some 62
  else if c = '/' then some 63
  else none

/-- The bytes of characters without line breaks. -/
def base64Groups? : List Char → Option (List Nat)
  | [] => some []
  | [a, b, '=', '='] => do
    let (x, y) := (← sextet? a, ← sextet? b)
    return [x * 4 + y / 16]
  | [a, b, c, '='] => do
    let (x, y, z) := (← sextet? a, ← sextet? b, ← sextet? c)
    return [x * 4 + y / 16, y % 16 * 16 + z / 4]
  | a :: b :: c :: d :: rest => do
    let (x, y, z, w) := (← sextet? a, ← sextet? b, ← sextet? c, ← sextet? d)
    return [x * 4 + y / 16, y % 16 * 16 + z / 4, z % 4 * 64 + w] ++ (← base64Groups? rest)
  | _ => none

def base64? (cs : List Char) : Option (List Nat) :=
  base64Groups? (cs.filter fun c => c ≠ '\n' && c ≠ '\r')

end OperationGraph.Text
