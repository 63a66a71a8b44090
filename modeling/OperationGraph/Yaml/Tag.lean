import OperationGraph.Text.Hex
import OperationGraph.Yaml.Fault
import OperationGraph.Yaml.Token

/-! # Tags, anchors and directives in structured text -/

namespace OperationGraph.Yaml

/-- Reads the name of an anchor, or of an alias for one, after its sign. -/
def anchorName (cur : Cursor) : Except Fault (String × Cursor) :=
  let name := (cur.rest.drop 1).takeWhile isNameChar
  let after := cur.advance (1 + name.length)
  let ends := endsWord after.here
    || (after.here.map fun c => ['?', ':', ',', ']', '}', '%', '@', '\x60'].contains c).getD true
  if name.isEmpty || !ends then .error (.inToken cur.mark after.mark .missingName)
  else .ok (String.ofList name, after)

def isTagChar (c : Char) : Bool :=
  isNameChar c || [';', '/', '?', ':', '@', '&', '=', '+', '$', ',', '.', '!', '~', '*', '\'', '(', ')',
    '[', ']', '%'].contains c

/-- The number of bytes of a character by its first one; zero if there is no such character. -/
def octetCount (b : Nat) : Nat :=
  if b < 0x80 then 1 else if b < 0xC0 then 0 else if b < 0xE0 then 2 else if b < 0xF0 then 3
  else if b < 0xF8 then 4 else 0

def octet? (cur : Cursor) : Option Nat :=
  match cur.rest with
  | '%' :: a :: b :: _ => Text.hexNumber? [a, b]
  | _ => none

/-- Reads the escaped bytes of a character after its first one. -/
def laterOctets (start : Mark) : Nat → Cursor → Except Fault (List Nat × Cursor)
  | 0, cur => .ok ([], cur)
  | n + 1, cur =>
    match octet? cur with
    | none => .error (.inToken start cur.mark .missingOctet)
    | some b =>
      if 0x80 ≤ b ∧ b < 0xC0 then
        (laterOctets start n (cur.advance 3)).map fun (bs, c) => (b :: bs, c)
      else .error (.inToken start cur.mark .badLaterOctet)

/-- Reads the escaped bytes of a character. -/
def octets (start : Mark) (cur : Cursor) : Except Fault (List Nat × Cursor) :=
  match octet? cur with
  | none => .error (.inToken start cur.mark .missingOctet)
  | some b =>
    match octetCount b with
    | 0 => .error (.inToken start cur.mark .badFirstOctet)
    | n + 1 => (laterOctets start n (cur.advance 3)).map fun (bs, c) => (b :: bs, c)

/-- Reads the characters of a tag; `acc` is what has been read, reversed. -/
def tagChars (start : Mark) : Nat → List Char → Cursor → Except Fault (List Char × Cursor)
  | 0, acc, cur => .ok (acc.reverse, cur)
  | fuel + 1, acc, cur =>
    match cur.here with
    | none => .ok (acc.reverse, cur)
    | some c =>
      if !isTagChar c then .ok (acc.reverse, cur)
      else if c = '%' then
        match octets start cur with
        | .error f => .error f
        | .ok (bs, after) => tagChars start fuel ((Text.decode bs).reverse ++ acc) after
      else tagChars start fuel (c :: acc) (cur.advance 1)

/-- Reads a tag after a beginning that has been read already, less its first character. -/
def tagText (start : Mark) (begun : List Char) (cur : Cursor) : Except Fault (String × Cursor) := do
  let (text, after) ← tagChars start (cur.rest.length + 1) (begun.drop 1).reverse cur
  if begun.isEmpty && text.isEmpty then throw (.inToken start after.mark .missingTag)
  else return (String.ofList text, after)

/-- Reads the handle of a tag: an exclamation mark, and possibly a name and another mark. In a directive
only a single mark may stand without the other. -/
def tagHandle (directive : Bool) (start : Mark) (cur : Cursor) : Except Fault (List Char × Cursor) :=
  match cur.rest with
  | '!' :: rest =>
    let name := rest.takeWhile isNameChar
    let after := cur.advance (1 + name.length)
    if after.here = some '!' then .ok ('!' :: name ++ ['!'], after.advance 1)
    else if directive && !name.isEmpty then .error (.inToken start after.mark .missingExclamation)
    else .ok ('!' :: name, after)
  | _ => .error (.inToken start cur.mark .missingExclamation)

/-- Reads a tag as its handle and the rest of it. A tag in angle brackets has no handle. -/
def tag (cur : Cursor) : Except Fault (TokenKind × Cursor) := do
  let start := cur.mark
  let (handle, suffix, after) ← (do
    if cur.next = some '<' then
      let (suffix, after) ← tagText start [] (cur.advance 2)
      if after.here ≠ some '>' then throw (.inToken start after.mark .missingTagEnd)
      return ("", suffix, after.advance 1)
    else
      let (handle, after) ← tagHandle false start cur
      if 1 < handle.length && handle.getLast? = some '!' then
        let (suffix, after) ← tagText start [] after
        return (String.ofList handle, suffix, after)
      else
        let (suffix, after) ← tagText start handle after
        return if suffix = "" then ("", "!", after) else ("!", suffix, after)
    : Except Fault (String × String × Cursor))
  if endsWord after.here then return (.tag handle suffix, after)
  else throw (.inToken start after.mark .missingBlankOrBreak)

/-- Reads a part of a version: one digit or two. -/
def versionPart (start : Mark) (cur : Cursor) : Except Fault (Nat × Cursor) :=
  let digits := cur.rest.takeWhile Char.isDigit
  if digits.isEmpty then .error (.inToken start cur.mark .missingVersion)
  else if 2 < digits.length then .error (.inToken start cur.mark .longVersion)
  else
    .ok (digits.foldl (fun n c => 10 * n + (c.toNat - '0'.toNat)) 0, cur.advance digits.length)

def version (start : Mark) (cur : Cursor) : Except Fault (TokenKind × Cursor) := do
  let (major, cur) ← versionPart start cur.skipBlanks
  if cur.here ≠ some '.' then throw (.inToken start cur.mark .missingVersionDigit)
  let (minor, cur) ← versionPart start (cur.advance 1)
  return (.version major minor, cur)

/-- Reads the handle of a directive and what it stands for. -/
def handleMeaning (start : Mark) (cur : Cursor) : Except Fault (TokenKind × Cursor) := do
  let (handle, cur) ← tagHandle true start cur.skipBlanks
  if !cur.atBlank then throw (.inToken start cur.mark .missingBlank)
  let (meaning, cur) ← tagText start [] cur.skipBlanks
  if !endsWord cur.here then throw (.inToken start cur.mark .missingBlankOrBreak)
  return (.handle (String.ofList handle) meaning, cur)

def directive (cur : Cursor) : Except Fault (TokenKind × Cursor) := do
  let start := cur.mark
  let name := (cur.rest.drop 1).takeWhile isNameChar
  let cur := cur.advance (1 + name.length)
  if name.isEmpty then throw (.inToken start cur.mark .missingDirectiveName)
  if !endsWord cur.here then throw (.inToken start cur.mark .badDirectiveName)
  let (kind, cur) ← match String.ofList name with
    | "YAML" => version start cur
    | "TAG" => handleMeaning start cur
    | _ => throw (.inToken start cur.mark .unknownDirective)
  let cur := cur.skipBlanks
  let cur := if cur.here = some '#' then cur.skipLine else cur
  if !endsLine cur.here then throw (.inToken start cur.mark .missingLineBreak)
  return (kind, if cur.atBreak then cur.nextLine else cur)

end OperationGraph.Yaml
