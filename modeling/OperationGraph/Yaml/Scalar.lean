import OperationGraph.Text.Hex
import OperationGraph.Yaml.Fault

/-! # Scalars in structured text

A scalar is written plainly, between quotes or apostrophes, or as a block of lines. Line breaks inside
are folded: a single one is a blank, and of several the first is dropped. Only a literal block keeps its
lines. -/

namespace OperationGraph.Yaml

/-- Blanks and line breaks between two words of a scalar. -/
structure Gap where
  blanks : List Char := []
  broken : Bool := false
  first : List Char := []
  more : List Char := []

namespace Gap

def text (g : Gap) : List Char :=
  if !g.broken then g.blanks
  else if g.first = ['\n'] then if g.more.isEmpty then [' '] else g.more
  else g.first ++ g.more

def addBreak (g : Gap) (cur : Cursor) : Gap :=
  if g.broken then { g with more := g.more ++ cur.breakText }
  else { blanks := [], broken := true, first := cur.breakText, more := g.more }

/-- Reads a gap. Inside a plain scalar that starts at `start`, no tab may stand in the first `indent`
columns of a line. -/
def read (start : Mark) (indent : Int) : Nat → Gap → Cursor → Except Fault (Gap × Cursor)
  | 0, g, cur => .ok (g, cur)
  | fuel + 1, g, cur =>
    if cur.atBreak then read start indent fuel (g.addBreak cur) cur.nextLine
    else
      match cur.here with
      | none => .ok (g, cur)
      | some c =>
        if !isBlank c then .ok (g, cur)
        else if g.broken then
          if c = '\t' && (cur.mark.column : Int) < indent then
            .error (.inToken start cur.mark .tabInIndent)
          else read start indent fuel g (cur.advance 1)
        else read start indent fuel { g with blanks := g.blanks ++ [c] } (cur.advance 1)

end Gap

/-- The word of a plain scalar at the start of a text. A colon before a blank ends it, and inside
brackets so do the signs of lists and maps. -/
def plainWord (flow : Bool) : List Char → List Char
  | [] => []
  | c :: rest =>
    if isBlank c || isBreak c || (c = ':' && endsWord rest.head?)
        || (flow && [',', '?', '[', ']', '{', '}'].contains c) then []
    else c :: plainWord flow rest

/-- Reads a plain scalar; `acc` is what has been read and `gap` what came after it. Outside brackets
its lines are indented by `indent` columns at least. The result tells whether a line break follows. -/
def plainFrom (start : Mark) (flow : Bool) (indent : Int) :
    Nat → List Char → Gap → Cursor → Except Fault (List Char × Bool × Cursor)
  | 0, acc, gap, cur => .ok (acc, gap.broken, cur)
  | fuel + 1, acc, gap, cur => do
    if cur.atDocumentBound || cur.here = some '#' then return (acc, gap.broken, cur)
    let word := plainWord flow cur.rest
    let after := cur.advance word.length
    let (acc, gap) := if word.isEmpty then (acc, gap) else (acc ++ gap.text ++ word, {})
    if !after.atBlank && !after.atBreak then return (acc, gap.broken, after)
    let (gap, after) ← gap.read start indent (after.rest.length + 1) after
    if !flow && (after.mark.column : Int) < indent then return (acc, gap.broken, after)
    plainFrom start flow indent fuel acc gap after

/-- Reads a plain scalar, and whether a line break follows. -/
def plainScalar (flow : Bool) (indent : Int) (cur : Cursor) :
    Except Fault (String × Bool × Cursor) := do
  let (text, broken, after) ← plainFrom cur.mark flow indent (cur.rest.length + 1) [] {} cur
  return (String.ofList text, broken, after)

def escape? : Char → Option Char
  | '0' => some '\x00'
  | 'a' => some '\x07'
  | 'b' => some '\x08'
  | 't' => some '\t'
  | '\t' => some '\t'
  | 'n' => some '\n'
  | 'v' => some '\x0b'
  | 'f' => some '\x0c'
  | 'r' => some '\r'
  | 'e' => some '\x1b'
  | ' ' => some ' '
  | '"' => some '"'
  | '\'' => some '\''
  | '\\' => some '\\'
  | 'N' => some '\x85'
  | '_' => some '\xa0'
  | 'L' => some '\u2028'
  | 'P' => some '\u2029'
  | _ => none

/-- The number of digits of an escape by code point. -/
def codeWidth : Option Char → Nat
  | some 'x' => 2
  | some 'u' => 4
  | some 'U' => 8
  | _ => 0

def readEscape (start : Mark) (cur : Cursor) : Except Fault (Char × Cursor) :=
  let width := codeWidth cur.next
  if width = 0 then
    match cur.next.bind escape? with
    | some c => .ok (c, cur.advance 2)
    | none => .error (.inToken start cur.mark .unknownEscape)
  else
    let digits := (cur.rest.drop 2).take width
    match if digits.length = width then Text.hexNumber? digits else none with
    | none => .error (.inToken start cur.mark .missingCodeDigit)
    | some n =>
      if 0x110000 ≤ n ∨ (0xD800 ≤ n ∧ n < 0xE000) then
        .error (.inToken start cur.mark .badCodePoint)
      else .ok (Char.ofNat n, cur.advance (2 + width))

/-- Reads the word of a quoted scalar; `acc` is what has been read, reversed. The result tells whether an
escaped line break ends it. -/
def quotedWord (start : Mark) (quote : Char) :
    Nat → List Char → Cursor → Except Fault (List Char × Bool × Cursor)
  | 0, acc, cur => .ok (acc.reverse, false, cur)
  | fuel + 1, acc, cur =>
    match cur.here with
    | none => .ok (acc.reverse, false, cur)
    | some c =>
      if isBlank c || isBreak c then .ok (acc.reverse, false, cur)
      else if c = '\'' && quote = '\'' && cur.next = some '\'' then
        quotedWord start quote fuel ('\'' :: acc) (cur.advance 2)
      else if c = quote then .ok (acc.reverse, false, cur)
      else if c = '\\' && quote = '"' then
        if (cur.next.map isBreak).getD false then .ok (acc.reverse, true, (cur.advance 1).nextLine)
        else
          match readEscape start cur with
          | .error f => .error f
          | .ok (d, after) => quotedWord start quote fuel (d :: acc) after
      else quotedWord start quote fuel (c :: acc) (cur.advance 1)

/-- Reads the words of a quoted scalar up to its closing quote; `acc` is what has been read. -/
def quotedFrom (start : Mark) (quote : Char) :
    Nat → List Char → Cursor → Except Fault (List Char × Cursor)
  | 0, _, cur => .error (.inToken start cur.mark .endInText)
  | fuel + 1, acc, cur => do
    if cur.atDocumentBound then throw (.inToken start cur.mark .documentInText)
    if cur.rest.isEmpty then throw (.inToken start cur.mark .endInText)
    let (word, broken, cur) ← quotedWord start quote (cur.rest.length + 1) [] cur
    if cur.here = some quote then return (acc ++ word, cur.advance 1)
    let (gap, cur) ← Gap.read start 0 (cur.rest.length + 1) { broken } cur
    quotedFrom start quote fuel (acc ++ word ++ gap.text) cur

def quotedScalar (quote : Char) (cur : Cursor) : Except Fault (String × Cursor) := do
  let (text, after) ← quotedFrom cur.mark quote (cur.rest.length + 1) [] (cur.advance 1)
  return (String.ofList text, after)

/-- What happens to the line breaks at the end of a block: all but the first are dropped, or all, or
none. -/
inductive Chomping where
  | clip
  | strip
  | keep
deriving DecidableEq, Repr

def Chomping.ofSign? : Option Char → Option Chomping
  | some '+' => some keep
  | some '-' => some strip
  | _ => none

/-- Reads the digit that tells how far a block is indented; zero stands for none. -/
def blockIndent (start : Mark) (cur : Cursor) : Except Fault (Nat × Cursor) :=
  match cur.here with
  | some c =>
    if c = '0' then .error (.inToken start cur.mark .zeroIndent)
    else if c.isDigit then .ok (c.toNat - '0'.toNat, cur.advance 1)
    else .ok (0, cur)
  | none => .ok (0, cur)

/-- Reads the signs after the first one of a block, up to the end of the line. -/
def blockHeader (start : Mark) (cur : Cursor) : Except Fault (Chomping × Nat × Cursor) := do
  let (chomping, increment, cur) ←
    match Chomping.ofSign? cur.here with
    | some chomping => do
      let (increment, cur) ← blockIndent start (cur.advance 1)
      pure (chomping, increment, cur)
    | none => do
      let (increment, after) ← blockIndent start cur
      match if increment = 0 then none else Chomping.ofSign? after.here with
      | some chomping => pure (chomping, increment, after.advance 1)
      | none => pure (.clip, increment, after)
  let cur := cur.skipBlanks
  let cur := if cur.here = some '#' then cur.skipLine else cur
  if endsLine cur.here then return (chomping, increment, if cur.atBreak then cur.nextLine else cur)
  else throw (.inToken start cur.mark .missingLineBreak)

/-- Reads the empty lines of a block and the indentation of the next line. An indentation of zero is not
known yet; `widest` is the widest one seen. -/
def blockBreaks (start : Mark) (indent : Nat) :
    Nat → Nat → List Char → Cursor → Except Fault (Nat × List Char × Cursor)
  | 0, widest, breaks, cur => .ok (widest, breaks, cur)
  | fuel + 1, widest, breaks, cur =>
    let spaces := (cur.rest.takeWhile (· = ' ')).length
    let cur := cur.advance (if indent = 0 then spaces else min spaces (indent - cur.mark.column))
    let widest := max widest cur.mark.column
    if (indent = 0 || cur.mark.column < indent) && cur.here = some '\t' then
      .error (.inToken start cur.mark .tabForIndent)
    else if cur.atBreak then
      blockBreaks start indent fuel widest (breaks ++ cur.breakText) cur.nextLine
    else .ok (widest, breaks, cur)

/-- Reads the lines of a block. Here `acc` is what has been read, `ending` the break after its last line,
`breaks` the further ones, and `blank` tells whether the last line began with a blank. A folded block
joins lines that do not begin with one. -/
def blockLines (start : Mark) (literal : Bool) (indent : Nat) :
    Nat → List Char → List Char → List Char → Bool → Cursor →
      Except Fault (List Char × List Char × List Char × Cursor)
  | 0, acc, ending, breaks, _, cur => .ok (acc, ending, breaks, cur)
  | fuel + 1, acc, ending, breaks, blank, cur => do
    if cur.mark.column ≠ indent || cur.rest.isEmpty then return (acc, ending, breaks, cur)
    let folds := !literal && !blank && !cur.atBlank && ending = ['\n']
    let joint := if folds then if breaks.isEmpty then [' '] else [] else ending
    let line := cur.rest.takeWhile (!isBreak ·)
    let after := cur.skipLine
    let (_, more, next) ← blockBreaks start indent (cur.rest.length + 1) 0 []
      (if after.atBreak then after.nextLine else after)
    blockLines start literal indent fuel (acc ++ joint ++ breaks ++ line) after.breakText more
      cur.atBlank next

/-- Reads a block inside something that is indented by `outer` columns. -/
def blockScalar (literal : Bool) (outer : Int) (cur : Cursor) : Except Fault (String × Cursor) := do
  let start := cur.mark
  let (chomping, increment, cur) ← blockHeader start (cur.advance 1)
  let fuel := cur.rest.length + 1
  let given := if increment = 0 then 0 else (max outer 0).toNat + increment
  let (widest, breaks, cur) ← blockBreaks start given fuel 0 [] cur
  let indent := if given = 0 then max (max widest (outer + 1).toNat) 1 else given
  let (text, ending, breaks, cur) ← blockLines start literal indent fuel [] [] breaks false cur
  let tail := match chomping with
    | .strip => []
    | .clip => ending
    | .keep => ending ++ breaks
  return (String.ofList (text ++ tail), cur)

end OperationGraph.Yaml
