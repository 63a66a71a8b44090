import OperationGraph.Text.Hex
import OperationGraph.Text.Utf8

/-! # Escapes in the exchange format

A character beyond the first sixteen bits is escaped as a pair of surrogates. Half a pair on its own
stands for the replacement character. -/

namespace OperationGraph.Json

def isBlank (c : Char) : Bool := c = ' ' || c = '\t' || c = '\n' || c = '\r'

def skip (cs : List Char) : List Char := cs.dropWhile isBlank

def escape? : Char → Option Char
  | '"' => some '"'
  | '\\' => some '\\'
  | '/' => some '/'
  | 'b' => some '\x08'
  | 'f' => some '\x0c'
  | 'n' => some '\n'
  | 'r' => some '\r'
  | 't' => some '\t'
  | _ => none

/-- Whether a code point is half of a pair. -/
def isSurrogate (n : Nat) : Bool := 0xD800 ≤ n && n < 0xE000

/-- A code point, or the replacement character for half of a pair. -/
def ofCode (n : Nat) : Char := if isSurrogate n then Text.replacement else Char.ofNat n

def ofSurrogates? (high low : Nat) : Option Char :=
  if 0xD800 ≤ high ∧ high < 0xDC00 ∧ 0xDC00 ≤ low ∧ low < 0xE000 then
    some (Char.ofNat (0x10000 + (high - 0xD800) * 0x400 + (low - 0xDC00)))
  else none

/-- What is read from the front of a text, and the rest. -/
abbrev Read? (α : Type) := Option (α × List Char)

end OperationGraph.Json
