import OperationGraph.Text.Hex
import OperationGraph.Text.Printable
import OperationGraph.Text.Utf8

/-! # Quoted text

A quoted text stands between double quotes. Quotes and backslashes are escaped, the seven usual
control characters have short names, printable characters stand for themselves, and all others are
written by their code point in hexadecimal. A stray byte is written by its value. -/

namespace OperationGraph.Text

/-- The written form of one character inside a quoted text. -/
def quotedChar (c : Char) : List Char :=
  match strayByte? c with
  | some b => '\\' :: 'x' :: hexDigits 2 b
  | none =>
    if c = '"' then ['\\', '"']
    else if c = '\\' then ['\\', '\\']
    else if isPrintable c then [c]
    else if c = '\x07' then ['\\', 'a']
    else if c = '\x08' then ['\\', 'b']
    else if c = '\x0c' then ['\\', 'f']
    else if c = '\n' then ['\\', 'n']
    else if c = '\r' then ['\\', 'r']
    else if c = '\t' then ['\\', 't']
    else if c = '\x0b' then ['\\', 'v']
    else if c.toNat < 0x80 then '\\' :: 'x' :: hexDigits 2 c.toNat
    else if c.toNat < 0x10000 then '\\' :: 'u' :: hexDigits 4 c.toNat
    else '\\' :: 'U' :: hexDigits 8 c.toNat

def quoted (s : String) : String :=
  String.ofList ('"' :: s.toList.flatMap quotedChar ++ ['"'])

def quotedSingle (c : Char) : String :=
  if c = '\'' then "'\\''"
  else if c = '"' then "'\"'"
  else "'" ++ String.ofList (quotedChar c) ++ "'"

/-- The first byte of a character, as a character between single quotes. -/
def quotedByte (c : Char) : String := quotedSingle (Char.ofNat ((charBytes c).headD 0))

end OperationGraph.Text
