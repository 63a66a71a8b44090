import OperationGraph.Moment
import OperationGraph.Number.Integer
import OperationGraph.Toml.Text
import OperationGraph.Value.Basic

/-! # Numbers and moments in tables of settings

First the spelling of a number or a moment is taken from the front of a text, by rules that look only at
single characters. What the spelling stands for is found out later. -/

namespace OperationGraph.Toml

inductive ScalarKind where
  | truth
  | integer
  | float
  | date
  | time
  | dateTime
  | instant
deriving DecidableEq, Repr

structure Scalar where
  kind : ScalarKind
  spelling : List Char
deriving DecidableEq, Repr

/-- A word that has to stand at the start of a text. -/
def word (kind : ScalarKind) (w : String) (cs : List Char) : Read Scalar :=
  if w.toList.isPrefixOf cs then .ok (⟨kind, w.toList⟩, cs.drop w.length)
  else .error (.expectedWord w)

/-- Whether a character may stand in an integer with the mark of a base. -/
def isBaseDigit? : Char → Option (Char → Bool)
  | 'x' => some fun c => (Text.hexValue? c).isSome || c = '_'
  | 'o' => some fun c => ('0' ≤ c && c ≤ '7') || c = '_'
  | 'b' => some fun c => c = '0' || c = '1' || c = '_'
  | _ => none

/-- The spelling of a decimal number; `float` tells whether it has a point or an exponent so far. The
names of the infinities and of no number may end it. -/
def spellNumber (float : Bool) (acc : List Char) : List Char → Read Scalar
  | [] => .ok (⟨if float then .float else .integer, acc.reverse⟩, [])
  | c :: rest =>
    if c.isDigit || c = '+' || c = '-' || c = '_' then spellNumber float (c :: acc) rest
    else if c = '.' || c = 'e' || c = 'E' then spellNumber true (c :: acc) rest
    else if c = 'i' then
      match rest with
      | 'n' :: 'f' :: r => .ok (⟨.float, acc.reverse ++ ['i', 'n', 'f']⟩, r)
      | _ => .error (.letterInNumber 'i')
    else if c = 'n' then
      match rest with
      | 'a' :: 'n' :: r => .ok (⟨.float, acc.reverse ++ ['n', 'a', 'n']⟩, r)
      | _ => .error (.letterInNumber 'n')
    else .ok (⟨if float then .float else .integer, acc.reverse⟩, c :: rest)

/-- Reads a number. After a zero only a point, an exponent or the mark of a base continue it. -/
def number (cs : List Char) : Read Scalar :=
  let decimal : Read Scalar :=
    match spellNumber false [] cs with
    | .error f => .error f
    | .ok (s, rest) => if s.spelling.isEmpty then .error .numberIncomplete else .ok (s, rest)
  match cs with
  | '0' :: mark :: rest =>
    if mark = '.' || mark = 'e' || mark = 'E' || Text.byteLength (cs.take 3) ≤ 2 then decimal
    else
      match isBaseDigit? mark with
      | some isDigit => .ok (⟨.integer, '0' :: mark :: rest.takeWhile isDigit⟩, rest.dropWhile isDigit)
      | none => .ok (⟨.integer, ['0']⟩, mark :: rest)
  | _ => decimal

/-- What the characters of a moment have shown of it. -/
structure Shown where
  date : Bool := false
  time : Bool := false
  zone : Bool := false
  blank : Bool := false

def Shown.kind (s : Shown) : ScalarKind :=
  if s.time then if s.date then if s.zone then .instant else .dateTime else .time else .date

/-- The spelling of a moment, `index` characters of which are in `acc`, reversed. One blank may stand
in it before a digit, and the two characters after it are not looked at. -/
def spellMoment : Nat → Shown → Nat → List Char → List Char → Scalar × List Char
  | 0, shown, _, acc, cs => (⟨shown.kind, acc.reverse⟩, cs)
  | _ + 1, shown, _, acc, [] => (⟨shown.kind, acc.reverse⟩, [])
  | fuel + 1, shown, index, acc, c :: rest =>
    let further (shown : Shown) := spellMoment fuel shown (index + 1) (c :: acc) rest
    if c.isDigit then further shown
    else if c = '-' then further { shown with date := true, zone := shown.zone || 8 ≤ index }
    else if c = 'T' || c = 't' || c = ':' || c = '.' then further { shown with time := true }
    else if c = '+' || c = 'Z' || c = 'z' then further { shown with zone := true }
    else if c = ' ' && !shown.blank && (rest.head?.map Char.isDigit).getD false then
      let skipped := rest.take 2
      spellMoment fuel { shown with blank := true, time := true } (index + 1 + skipped.length)
        (skipped.reverse ++ c :: acc) (rest.drop 2)
    else (⟨shown.kind, acc.reverse⟩, c :: rest)

/-- Whether digits at the start of a text are the hour or the year of a moment. -/
def startsMoment (cs : List Char) : Bool :=
  match cs with
  | _ :: _ :: _ :: _ =>
    match cs.takeWhile Char.isDigit, cs.dropWhile Char.isDigit with
    | [_, _], ':' :: _ => true
    | [_, _, _, _], '-' :: _ => true
    | _, _ => false
  | _ => false

def scalar (cs : List Char) : Read Scalar :=
  match cs with
  | 't' :: _ => word .truth "true" cs
  | 'f' :: _ => word .truth "false" cs
  | 'i' :: _ => word .float "inf" cs
  | 'n' :: _ => word .float "nan" cs
  | _ => if startsMoment cs then .ok (spellMoment (cs.length + 1) {} 0 [] cs) else number cs

/-- Drops the underscores of an integer, each of which has to stand between digits. -/
def joinDigits (spelling : List Char) : Except Fault (List Char) :=
  let unsigned := match spelling with
    | '+' :: r => r
    | '-' :: r => r
    | r => r
  if unsigned.isEmpty then .ok spelling
  else if unsigned.head? = some '_' then .error .underscoreFirst
  else if unsigned.getLast? = some '_' then .error .underscoreLast
  else if (spelling.zip (spelling.drop 1)).contains ('_', '_') then .error .underscoresTogether
  else .ok (spelling.filter (· ≠ '_'))

def integerIn (base : Nat) (name : String) (digits : List Char) : Except Fault Int :=
  match Integer.readSigned base (String.ofList digits) digits with
  | .ok n => .ok n
  | .error e => .error (.notInteger name e.message)

def integerOf (spelling : List Char) : Except Fault Int := do
  match spelling with
  | '0' :: 'x' :: d :: rest => integerIn 16 "hexadecimal" (← joinDigits (d :: rest))
  | '0' :: 'o' :: d :: rest => integerIn 8 "octal" (← joinDigits (d :: rest))
  | '0' :: 'b' :: d :: rest => integerIn 2 "binary" (← joinDigits (d :: rest))
  | _ =>
    let digits ← joinDigits spelling
    let unsigned := match digits with
      | '+' :: r => r
      | '-' :: r => r
      | r => r
    if 1 < unsigned.length && unsigned.head? = some '0' then .error .leadingZero
    else integerIn 10 "decimal" digits

/-- Drops the underscores of a floating-point number; `digit` tells whether a digit has been read since
the last underscore or sign, and `before` is the character before. -/
def joinFloat (digit : Bool) (before : Option Char) : List Char → Except Fault (List Char)
  | [] => .ok []
  | c :: rest =>
    let next := rest.head?
    if c = '_' then
      if !digit then .error .underscoresTogether
      else if next = some 'e' || next = some 'E' then .error .underscoreBeforeExponent
      else joinFloat false (some c) rest
    else if c = '+' || c = '-' then (joinFloat false (some c) rest).map (c :: ·)
    else if c = 'e' || c = 'E' then
      if next = some '_' then .error .underscoreAfterExponent
      else (joinFloat digit (some c) rest).map (c :: ·)
    else if c = '.' then
      if next = some '_' then .error .underscoreAfterPoint
      else if before = some '_' then .error .underscoreBeforePoint
      else (joinFloat digit (some c) rest).map (c :: ·)
    else (joinFloat true (some c) rest).map (c :: ·)

def checkPoint (seen : Bool) (before : Option Char) : List Char → Except Fault Unit
  | [] => .ok ()
  | c :: rest =>
    if c ≠ '.' then checkPoint seen (some c) rest
    else if seen then .error .secondPoint
    else if !(before.map Char.isDigit).getD false then .error .pointWithoutDigitBefore
    else if !(rest.head?.map Char.isDigit).getD false then .error .pointWithoutDigitAfter
    else checkPoint true (some c) rest

def floatOf (spelling : List Char) : Except Fault Binary := do
  if spelling = ['+', 'n', 'a', 'n'] || spelling = ['-', 'n', 'a', 'n'] then return .nan
  if spelling.head? = some '_' then throw .underscoreFirst
  if spelling.getLast? = some '_' then throw .underscoreLast
  let joined ← if spelling.contains '_' then joinFloat false none spelling else pure spelling
  if joined.head? = some '.' then throw .pointFirst
  if joined.getLast? = some '.' then throw .pointLast
  checkPoint false none joined
  let unsigned := match joined with
    | '+' :: r => r
    | '-' :: r => r
    | r => r
  match unsigned with
  | '0' :: d :: _ => if d.isDigit then throw .floatLeadingZero
  | _ => pure ()
  let parsing := "strconv.ParseFloat: parsing " ++ Text.quoted (String.ofList joined) ++ ": "
  let isName := unsigned = ['i', 'n', 'f']
  match Binary.read? .double joined with
  | some (.infinite s) =>
    if isName then return .infinite s else throw (.notFloat (parsing ++ "value out of range"))
  | some x => return x
  | none => throw (.notFloat (parsing ++ "invalid syntax"))

def figures (cs : List Char) : Except Fault Nat :=
  if cs.all Char.isDigit then .ok (cs.foldl (fun n c => 10 * n + (c.toNat - '0'.toNat)) 0)
  else .error .dateDigit

def dayOf (cs : List Char) : Except Fault Day := do
  if cs.length ≠ 10 || cs.getD 4 ' ' ≠ '-' || cs.getD 7 ' ' ≠ '-' then throw .dateForm
  let year ← figures (cs.take 4)
  let month ← figures ((cs.drop 5).take 2)
  let day ← figures (cs.drop 8)
  let d : Day := ⟨year, month, day⟩
  if d.isValid then return d else throw .impossibleDate

/-- The time at the start of a spelling, and the rest. -/
def clockOf (cs : List Char) : Except Fault (ClockTime × List Char) := do
  if cs.length < 8 then throw .timeForm
  let hour ← figures (cs.take 2)
  if 23 < hour then throw .hourRange
  if cs.getD 2 ' ' ≠ ':' then throw .hourColon
  let minute ← figures ((cs.drop 3).take 2)
  if 59 < minute then throw .minuteRange
  if cs.getD 5 ' ' ≠ ':' then throw .minuteColon
  let second ← figures ((cs.drop 6).take 2)
  if 60 < second then throw .secondRange
  match cs.drop 8 with
  | '.' :: rest =>
    let ds := rest.takeWhile Char.isDigit
    if rest.isEmpty then throw .missingDecimals
    if ds.isEmpty then throw .missingDecimal
    let decimals := ds.map fun c => c.toNat - '0'.toNat
    return (⟨hour, minute, second, ClockTime.nanosecondsOf decimals, min ds.length 9⟩,
      rest.drop ds.length)
  | rest => return (⟨hour, minute, second, 0, 0⟩, rest)

/-- The day and the time at the start of a spelling, and the rest. -/
def dateTimeOf (cs : List Char) : Except Fault (Day × ClockTime × List Char) := do
  if cs.length < 11 then throw .dateTimeForm
  let d ← dayOf (cs.take 10)
  if !(['T', 't', ' '].contains (cs.getD 10 'T')) then throw .dateTimeSeparator
  let (t, rest) ← clockOf (cs.drop 11)
  return (d, t, rest)

def zoneOf (cs : List Char) : Except Fault Zone := do
  match cs with
  | [] => throw .zoneForm
  | c :: rest =>
    if c = 'Z' || c = 'z' then if rest.isEmpty then return none else throw .afterZone
    if cs.length ≠ 6 then throw .zoneForm
    if c ≠ '+' && c ≠ '-' then throw .zoneSign
    if cs.getD 3 ' ' ≠ ':' then throw .zoneColon
    let hours ← figures (rest.take 2)
    if 23 < hours then throw .zoneHours
    let minutes ← figures (cs.drop 4)
    if 59 < minutes then throw .zoneMinutes
    let seconds : Int := hours * 3600 + minutes * 60
    return if seconds = 0 then none else some (if c = '-' then -seconds else seconds)

def Scalar.value (s : Scalar) : Except Fault Value := do
  match s.kind with
  | .truth => return .boolean (s.spelling = ['t', 'r', 'u', 'e'])
  | .integer => return .int .bits64 (← integerOf s.spelling)
  | .float => return .float .double (← floatOf s.spelling)
  | .date => return .moment (.date (← dayOf s.spelling))
  | .time =>
    let (t, rest) ← clockOf s.spelling
    if rest.isEmpty then return .moment (.time t) else throw .afterTime
  | .dateTime =>
    let (d, t, rest) ← dateTimeOf s.spelling
    if rest.isEmpty then return .moment (.dateTime d t) else throw .afterDateTime
  | .instant =>
    let (d, t, rest) ← dateTimeOf s.spelling
    return .moment (.instantOf d t (← zoneOf rest))

end OperationGraph.Toml
