import OperationGraph.Yaml.Scalar
import OperationGraph.Yaml.Tag

/-! # From text to tokens of structured text

Only the colon after it shows that a scalar was a key. So a token that may be a key is remembered, and
once the colon comes, the token for the key is put in front of it. The tokens that are not taken yet wait
in a queue, which always holds two more than the one that is looked at. -/

namespace OperationGraph.Yaml

/-- A token that may turn out to be a key: its number, where it starts, whether nothing else can stand
there, and whether the queue holds it back until that is known. -/
structure PossibleKey where
  possible : Bool := false
  required : Bool := false
  held : Bool := false
  number : Nat := 0
  mark : Mark := {}
deriving Repr

structure TokenQueue where
  cursor : Cursor
  started : Bool := false
  /-- The brackets that are open. -/
  level : Nat := 0
  /-- The column of the innermost list or map that is shown by indentation. -/
  indent : Int := -1
  indents : List Int := []
  keyAllowed : Bool := true
  /-- The possible keys in and around the brackets, innermost first. -/
  keys : List PossibleKey := [{}]
  waiting : List Token := []
  taken : Nat := 0
deriving Repr

namespace TokenQueue

/-- How deeply brackets and indented parts may nest. -/
def maxDepth : Nat := 10000

/-- The queue of a text. A mark of the byte order at its start is dropped. -/
def ofText (text : String) : Except Fault TokenQueue :=
  let cs := match text.toList with
    | '\ufeff' :: rest => rest
    | cs => cs
  if cs.all isAllowed then .ok { cursor := { rest := cs } }
  else .error (.malformed 0 .forbiddenCharacter)

def mark (q : TokenQueue) : Mark := q.cursor.mark

def faultHere (q : TokenQueue) (p : Problem) : Fault := .inToken q.mark q.mark p

def append (q : TokenQueue) (kind : TokenKind) (mark : Mark) : TokenQueue :=
  { q with waiting := q.waiting ++ [⟨kind, mark⟩] }

/-- Puts a token in front of the one with a number, or at the end if that one is taken. -/
def insert (q : TokenQueue) (number : Nat) (kind : TokenKind) (mark : Mark) : TokenQueue :=
  if number < q.taken then q.append kind mark
  else
    let n := number - q.taken
    { q with waiting := q.waiting.take n ++ ⟨kind, mark⟩ :: q.waiting.drop n }

def nextNumber (q : TokenQueue) : Nat := q.taken + q.waiting.length

/-- Goes past a token of one character and a comment after it, and puts the token at the end. -/
def take (q : TokenQueue) (kind : TokenKind) : TokenQueue :=
  { q with cursor := (q.cursor.advance 1).skipComment }.append kind q.mark

def currentKey (q : TokenQueue) : PossibleKey := q.keys.headD {}

/-- Whether a possible key still is one. It has to be on the line of its colon and not far from it. -/
def isKey (q : TokenQueue) (k : PossibleKey) : Except Fault Bool :=
  if !k.possible then .ok false
  else if k.mark.line < q.mark.line || k.mark.index + 1024 < q.mark.index then
    if k.required then .error (.inToken k.mark q.mark .missingColon) else .ok false
  else .ok true

def dropKey (q : TokenQueue) : Except Fault TokenQueue :=
  let k := q.currentKey
  if k.possible && k.required then .error (.inToken k.mark q.mark .missingColon)
  else .ok { q with keys := { k with possible := false } :: q.keys.drop 1 }

/-- Remembers the next token as a possible key, if there may be one. -/
def saveKey (q : TokenQueue) : Except Fault TokenQueue := do
  if !q.keyAllowed then return q
  let q ← q.dropKey
  let key : PossibleKey :=
    { possible := true, required := q.level = 0 && q.indent = q.mark.column, held := true,
      number := q.nextNumber, mark := q.mark }
  return { q with keys := key :: q.keys.drop 1 }

/-- Opens a list or a map at a column that is further to the right. Its token goes to the end, or in front
of the token with a number. -/
def indentTo (q : TokenQueue) (column : Nat) (number : Option Nat) (kind : TokenKind) (mark : Mark) :
    Except Fault TokenQueue :=
  if q.level ≠ 0 || (column : Int) ≤ q.indent then .ok q
  else if maxDepth ≤ q.indents.length then .error (.inToken q.currentKey.mark q.mark .tooDeep)
  else
    let q := { q with indents := q.indent :: q.indents, indent := column }
    .ok (match number with
      | some n => q.insert n kind mark
      | none => q.append kind mark)

/-- Closes the lists and maps that lie further to the right than a column. -/
def unindentFrom (mark : Mark) (column : Int) : List Int → TokenQueue → TokenQueue
  | [], q => q
  | outer :: rest, q =>
    if column < q.indent then
      unindentFrom mark column rest
        ({ q with indent := outer, indents := rest }.append .blockEnd mark)
    else q

/-- Closes the lists and maps that lie further to the right than a column; inside brackets there are
none. -/
def unindentTo (q : TokenQueue) (column : Int) (mark : Mark) : TokenQueue :=
  if q.level ≠ 0 then q else unindentFrom mark column q.indents q

/-- Goes past a comment, and past further ones with nothing but blanks and line breaks between. -/
def skipComments : Nat → Cursor → Cursor
  | 0, cur => cur
  | fuel + 1, cur =>
    let cur := cur.skipLine
    if (cur.rest.dropWhile fun c => isBlank c || isBreak c).head? = some '#' then
      skipComments fuel (toComment (cur.rest.length + 1) cur)
    else cur
where
  /-- Goes past blanks and line breaks. -/
  toComment : Nat → Cursor → Cursor
    | 0, cur => cur
    | fuel + 1, cur =>
      if cur.atBreak then toComment fuel cur.nextLine
      else if cur.atBlank then toComment fuel (cur.advance 1)
      else cur

/-- Goes to the next token. Outside brackets a new line may start a key, and where a key may start no tab
is blank. -/
def skipToToken : Nat → TokenQueue → TokenQueue
  | 0, q => q
  | fuel + 1, q =>
    let tabs := q.level ≠ 0 || !q.keyAllowed
    let cur := q.cursor.skipWhile fun c => c = ' ' || (tabs && c = '\t')
    let cur := if cur.here = some '#' then skipComments (cur.rest.length + 1) cur else cur
    if cur.atBreak then
      skipToToken fuel { q with cursor := cur.nextLine, keyAllowed := q.keyAllowed || q.level = 0 }
    else { q with cursor := cur }

/-- The end of the text, which starts a line of its own. -/
def endStream (q : TokenQueue) : Except Fault TokenQueue := do
  let m := q.mark
  let m := if m.column = 0 then m else { m with column := 0, line := m.line + 1 }
  let q := { q with cursor := { q.cursor with mark := m } }.unindentTo (-1) m
  let q ← q.dropKey
  return { q with keyAllowed := false }.append .streamEnd m

/-- A directive or a sign between documents, which closes all that is open. -/
def betweenDocuments (q : TokenQueue) (read : Cursor → Except Fault (TokenKind × Cursor)) :
    Except Fault TokenQueue := do
  let q ← (q.unindentTo (-1) q.mark).dropKey
  let (kind, cursor) ← read q.cursor
  return { q with keyAllowed := false, cursor }.append kind q.mark

def openBracket (q : TokenQueue) (kind : TokenKind) : Except Fault TokenQueue := do
  let q ← q.saveKey
  if maxDepth ≤ q.level then throw (q.faultHere .tooDeep)
  let inner : PossibleKey := { number := q.nextNumber, mark := q.mark }
  return { q with keys := inner :: q.keys, level := q.level + 1, keyAllowed := true }.take kind

/-- A closing bracket. Brackets without a possible key inside are not held back as one. -/
def closeBracket (q : TokenQueue) (kind : TokenKind) : Except Fault TokenQueue := do
  let q ← q.dropKey
  let inner := q.currentKey.number
  let q := if q.level = 0 then q else
    { q with
      keys := (q.keys.drop 1).map fun k => { k with held := k.held && k.number ≠ inner },
      level := q.level - 1 }
  return { q with keyAllowed := false }.take kind

def comma (q : TokenQueue) : Except Fault TokenQueue := do
  let q ← q.dropKey
  return { q with keyAllowed := true }.take .comma

/-- The sign before an entry of a list. A comment after it belongs to the entry. -/
def entry (q : TokenQueue) : Except Fault TokenQueue := do
  if q.level = 0 && !q.keyAllowed then throw (q.faultHere .misplacedEntry)
  let q ← q.indentTo q.mark.column none .listStart q.mark
  let q ← q.dropKey
  return { q with keyAllowed := true, cursor := q.cursor.advance 1 }.append .entry q.mark

def explicitKey (q : TokenQueue) : Except Fault TokenQueue := do
  if q.level = 0 && !q.keyAllowed then throw (q.faultHere .misplacedKey)
  let q ← q.indentTo q.mark.column none .mapStart q.mark
  let q ← q.dropKey
  return { q with keyAllowed := q.level = 0 }.take .key

def colon (q : TokenQueue) : Except Fault TokenQueue := do
  let k := q.currentKey
  if ← q.isKey k then
    let q := q.insert k.number .key k.mark
    let q ← q.indentTo k.mark.column (some k.number) .mapStart k.mark
    let q := { q with keys := { k with possible := false } :: q.keys.drop 1, keyAllowed := false }
    return q.take .value
  else
    if q.level = 0 && !q.keyAllowed then throw (q.faultHere .misplacedValue)
    let q ← q.indentTo q.mark.column none .mapStart q.mark
    return { q with keyAllowed := q.level = 0 }.take .value

def word (q : TokenQueue) (read : Cursor → Except Fault (TokenKind × Cursor)) :
    Except Fault TokenQueue := do
  let q ← q.saveKey
  let (kind, cursor) ← read q.cursor
  return { q with keyAllowed := false, cursor := cursor.skipComment }.append kind q.mark

/-- A plain scalar. A key may follow if a line break does. -/
def plain (q : TokenQueue) : Except Fault TokenQueue := do
  let q ← q.saveKey
  let (text, broken, cursor) ← plainScalar (q.level ≠ 0) (q.indent + 1) q.cursor
  let cursor := if broken then cursor else cursor.skipComment
  return { q with keyAllowed := broken, cursor }.append (.scalar text true) q.mark

def block (q : TokenQueue) (literal : Bool) : Except Fault TokenQueue := do
  let q ← q.dropKey
  let (text, cursor) ← blockScalar literal q.indent q.cursor
  return { q with keyAllowed := true, cursor }.append (.scalar text false) q.mark

/-- Whether a plain scalar may start with a character, given the one after it. -/
def startsPlain (level : Nat) (c : Char) (next : Option Char) : Bool :=
  !(isBlank c || isBreak c
      || ['-', '?', ':', ',', '[', ']', '{', '}', '#', '&', '*', '!', '|', '>', '\'', '"', '%', '@',
        '\x60'].contains c)
    || (c = '-' && !(next.map isBlank).getD false)
    || (level = 0 && (c = '?' || c = ':') && !endsWord next)

/-- Reads one more token, perhaps with others that it implies. -/
def fetch (q : TokenQueue) : Except Fault TokenQueue := do
  if !q.started then return { q with started := true }.append .streamStart q.mark
  let before := q.mark
  let q := skipToToken (q.cursor.rest.length + 1) q
  let q := q.unindentTo q.mark.column before
  let next := q.cursor.next
  match q.cursor.here with
  | none => q.endStream
  | some c =>
    if c = '%' && q.mark.column = 0 then q.betweenDocuments directive
    else if q.cursor.atDocumentSign '-' then
      q.betweenDocuments fun cur => .ok (.documentStart, (cur.advance 3).skipComment)
    else if q.cursor.atDocumentSign '.' then
      q.betweenDocuments fun cur => .ok (.documentEnd, (cur.advance 3).skipComment)
    else if c = '[' then q.openBracket .flowListStart
    else if c = '{' then q.openBracket .flowMapStart
    else if c = ']' then q.closeBracket .flowListEnd
    else if c = '}' then q.closeBracket .flowMapEnd
    else if c = ',' then q.comma
    else if c = '-' && endsWord next then q.entry
    else if c = '?' && (q.level ≠ 0 || endsWord next) then q.explicitKey
    else if c = ':' && (q.level ≠ 0 || endsWord next) then q.colon
    else if c = '*' then
      q.word fun cur => (anchorName cur).map fun (n, after) => (.reference n, after)
    else if c = '&' then
      q.word fun cur => (anchorName cur).map fun (n, after) => (.anchor n, after)
    else if c = '!' then q.word tag
    else if c = '|' && q.level = 0 then q.block true
    else if c = '>' && q.level = 0 then q.block false
    else if c = '\'' || c = '"' then
      q.word fun cur => (quotedScalar c cur).map fun (t, after) => (.scalar t false, after)
    else if startsPlain q.level c next then q.plain
    else throw (q.faultHere .noToken)

def frontMayBeKey (q : TokenQueue) : Except Fault Bool :=
  match q.keys.find? fun k => k.possible && k.held && k.number = q.taken with
  | some k => q.isKey k
  | none => .ok false

/-- Reads tokens until the one at the front and two more are there, and the one at the front is known not
to be a key without its token. -/
def fill : Nat → TokenQueue → Except Fault TokenQueue
  | 0, q => .ok q
  | fuel + 1, q => do
    if q.waiting.length ≤ 2 then fill fuel (← q.fetch)
    else if ← q.frontMayBeKey then fill fuel (← q.fetch)
    else return q

def peek (q : TokenQueue) : Except Fault (Token × TokenQueue) := do
  let q ← q.fill (q.cursor.rest.length + 8)
  return (q.waiting.headD ⟨.streamEnd, q.mark⟩, q)

def pop (q : TokenQueue) : TokenQueue := { q with waiting := q.waiting.drop 1, taken := q.taken + 1 }

end TokenQueue

end OperationGraph.Yaml
