/-! # Characters and bytes

The bytes of a text in UTF-8, and the text that a sequence of bytes stands for. A byte that belongs
to no well-formed character is a stray byte. It is carried by a character that is set aside for it, so
that reading bytes as text loses nothing. -/

namespace OperationGraph.Text

/-- The character that stands for what cannot be read. -/
def replacement : Char := '�'

/-- Where the characters that carry stray bytes are set aside. -/
def strayBase : Nat := 0x10DC00

/-- The character that carries a stray byte. -/
def stray (b : Nat) : Char := Char.ofNat (strayBase + b)

/-- The stray byte that a character carries. -/
def strayByte? (c : Char) : Option Nat :=
  if strayBase + 0x80 ≤ c.toNat ∧ c.toNat < strayBase + 0x100 then some (c.toNat - strayBase) else none

/-- A character, or the replacement character for a stray byte. -/
def settled (c : Char) : Char := if (strayByte? c).isSome then replacement else c

def codeBytes (n : Nat) : List Nat :=
  if n < 0x80 then [n]
  else if n < 0x800 then [0xC0 + n / 0x40, 0x80 + n % 0x40]
  else if n < 0x10000 then [0xE0 + n / 0x1000, 0x80 + n / 0x40 % 0x40, 0x80 + n % 0x40]
  else [0xF0 + n / 0x40000, 0x80 + n / 0x1000 % 0x40, 0x80 + n / 0x40 % 0x40, 0x80 + n % 0x40]

def charBytes (c : Char) : List Nat :=
  match strayByte? c with
  | some b => [b]
  | none => codeBytes c.toNat

def bytes (cs : List Char) : List Nat := cs.flatMap charBytes

def byteLength (cs : List Char) : Nat := (bytes cs).length

/-- The text of the first bytes of a text. Of a character that is cut the bytes before the cut are
stray. -/
def firstBytes : Nat → List Char → List Char
  | _, [] => []
  | n, c :: cs =>
    let size := (charBytes c).length
    if size ≤ n then c :: firstBytes (n - size) cs else ((charBytes c).take n).map stray

def continuation? (b : Nat) : Option Nat :=
  if 0x80 ≤ b ∧ b < 0xC0 then some (b - 0x80) else none

/-- The character at the start of a sequence of bytes, with the number of bytes it takes. -/
def decodeChar? : List Nat → Option (Char × Nat)
  | [] => none
  | a :: rest =>
    if a < 0x80 then some (Char.ofNat a, 1)
    else
      match rest.map continuation? with
      | some x :: tail =>
        if 0xC2 ≤ a ∧ a < 0xE0 then some (Char.ofNat ((a - 0xC0) * 0x40 + x), 2)
        else
          match tail with
          | some y :: tail =>
            let n := (a - 0xE0) * 0x1000 + x * 0x40 + y
            if 0xE0 ≤ a ∧ a < 0xF0 ∧ 0x800 ≤ n ∧ ¬ (0xD800 ≤ n ∧ n < 0xE000) then
              some (Char.ofNat n, 3)
            else
              match tail with
              | some z :: _ =>
                let n := (a - 0xF0) * 0x40000 + x * 0x1000 + y * 0x40 + z
                if 0xF0 ≤ a ∧ a < 0xF5 ∧ 0x10000 ≤ n ∧ n < 0x110000 then some (Char.ofNat n, 4)
                else none
              | _ => none
          | _ => none
      | _ => none

/-- Reads bytes as text; `skip` counts bytes of the character just read. -/
def decodeFrom : Nat → List Nat → List Char
  | _, [] => []
  | skip + 1, _ :: rest => decodeFrom skip rest
  | 0, b :: rest =>
    match decodeChar? ((b :: rest).take 4) with
    | some (c, n) =>
      if (strayByte? c).isSome then stray b :: decodeFrom 0 rest else c :: decodeFrom (n - 1) rest
    | none => stray b :: decodeFrom 0 rest

def decode (bs : List Nat) : List Char := decodeFrom 0 bs

end OperationGraph.Text
