import OperationGraph.Number.Integer
import OperationGraph.Text.Base64
import OperationGraph.Value.Basic
import OperationGraph.Yaml.Fault

/-! # What scalars stand for

A scalar without quotes stands for null, a truth value, a number or a moment if it looks like one, and for
itself otherwise. A tag may ask for one of these. -/

namespace OperationGraph.Yaml

def coreTag : String := "tag:yaml.org,2002:"

def shortTag (tag : String) : String :=
  if tag.startsWith coreTag then "!!" ++ (tag.drop coreTag.length).toString else tag

/-- Whether a text has the form of a decimal number: digits with a point among them or after them, and
an exponent. -/
def isDecimal (cs : List Char) : Bool :=
  let (whole, rest) := spanDigits (Integer.splitSign cs).2
  let (fraction, rest) := match rest with
    | '.' :: r => spanDigits r
    | r => ([], r)
  !(whole.isEmpty && fraction.isEmpty) && (Binary.readExponent? rest).isSome

def double? (cs : List Char) : Option Value :=
  match Binary.read? .double cs with
  | some (.finite s m e) => some (.float .double (.finite s m e))
  | _ => none

/-- Whether each underscore stands between two digits, `digit` telling whether one comes before. -/
def partsDigits (digit : Bool) : List Char → Bool
  | [] => true
  | c :: rest =>
    if c = '_' then digit && rest.head?.any Char.isDigit && partsDigits false rest
    else partsDigits c.isDigit rest

/-- The integer that a text without underscores writes, if it has at most sixty-four bits. -/
def integer? (cs : List Char) : Option Value :=
  match Integer.read (String.ofList cs) with
  | .ok n => some (.int .plain n)
  | .error _ =>
    match Integer.readUnsigned "" cs with
    | .ok n => some (.int .unsigned n)
    | .error _ => none

/-- The integer after the marks for base two or eight and a sign of its own. -/
def markedInteger? (cs : List Char) : Option Value :=
  let marked (base : Nat) (sign digits : List Char) : Option Value :=
    match Integer.readSigned base "" (sign ++ digits) with
    | .ok n => some (.int .plain n)
    | .error _ => none
  match cs with
  | '0' :: 'b' :: ds => marked 2 [] ds
  | '-' :: '0' :: 'b' :: ds => marked 2 ['-'] ds
  | '0' :: 'o' :: ds => marked 8 [] ds
  | '-' :: '0' :: 'o' :: ds => marked 8 ['-'] ds
  | _ => none

/-- The number that a text writes. -/
def number? (cs : List Char) : Option Value :=
  let plain := cs.filter (· ≠ '_')
  match integer? plain with
  | some v => some v
  | none =>
    match if isDecimal plain then double? plain else none with
    | some v => some v
    | none => markedInteger? plain

/-- One digit or two at the start of a text. -/
def oneOrTwo? : List Char → Option (Nat × List Char)
  | c :: d :: rest =>
    if !c.isDigit then none
    else if d.isDigit then some ((c.toNat - '0'.toNat) * 10 + (d.toNat - '0'.toNat), rest)
    else some (c.toNat - '0'.toNat, d :: rest)
  | [c] => if c.isDigit then some (c.toNat - '0'.toNat, []) else none
  | [] => none

/-- Drops a character that has to stand at the start of a text. -/
def expect? (c : Char) : List Char → Option (List Char)
  | [] => none
  | d :: rest => if d = c then some rest else none

def day? (cs : List Char) : Option (Day × List Char) := do
  let year := cs.takeWhile Char.isDigit
  if year.length ≠ 4 then none
  let (month, rest) ← oneOrTwo? (← expect? '-' (cs.drop 4))
  let (day, rest) ← oneOrTwo? (← expect? '-' rest)
  let d : Day := ⟨year.foldl (fun n c => 10 * n + (c.toNat - '0'.toNat)) 0, month, day⟩
  if d.isValid then some (d, rest) else none

/-- The decimals of a second after a point or a comma, if there are any. -/
def decimalsOf (cs : List Char) : List Nat × List Char :=
  match cs with
  | c :: rest =>
    let ds := rest.takeWhile Char.isDigit
    if (c = '.' || c = ',') && !ds.isEmpty then
      (ds.map fun d => d.toNat - '0'.toNat, rest.drop ds.length)
    else ([], cs)
  | [] => ([], [])

def clock? (cs : List Char) : Option (ClockTime × List Char) := do
  let (hour, rest) ← oneOrTwo? cs
  let (minute, rest) ← oneOrTwo? (← expect? ':' rest)
  let (second, rest) ← oneOrTwo? (← expect? ':' rest)
  if 24 ≤ hour || 60 ≤ minute || 60 ≤ second then none
  let (decimals, rest) := decimalsOf rest
  return (⟨hour, minute, second, ClockTime.nanosecondsOf decimals, 0⟩, rest)

def zone? (cs : List Char) : Option Zone := do
  match cs with
  | ['Z'] => some none
  | [sign, a, b, ':', c, d] =>
    let (hours, _) ← oneOrTwo? [a, b]
    let (minutes, _) ← oneOrTwo? [c, d]
    if !b.isDigit || !d.isDigit || 24 < hours || 60 < minutes then none
    let seconds : Int := hours * 3600 + minutes * 60
    if sign = '+' then some (if seconds = 0 then none else some seconds)
    else if sign = '-' then some (if seconds = 0 then none else some (-seconds))
    else none
  | _ => none

/-- The instant that a text writes: a day alone, or a day and a time, with a zone after the letter
between them and without one after blanks. -/
def instant? (cs : List Char) : Option Moment :=
  match day? cs with
  | none => none
  | some (d, []) => some (.instant d {} none)
  | some (d, c :: rest) =>
    if c = 'T' || c = 't' then do
      let (t, rest) ← clock? rest
      return .instant d t (← zone? rest)
    else if c = ' ' then
      match clock? (rest.dropWhile (· = ' ')) with
      | some (t, []) => some (.instant d t none)
      | _ => none
    else none

/-- The tag and the value of a scalar without quotes, of which a moment may be one. -/
def plainValue (moments : Bool) (text : String) : String × Value :=
  if ["", "~", "null", "Null", "NULL"].contains text then ("!!null", .null)
  else if ["true", "True", "TRUE"].contains text then ("!!bool", .boolean true)
  else if ["false", "False", "FALSE"].contains text then ("!!bool", .boolean false)
  else if [".nan", ".NaN", ".NAN"].contains text then ("!!float", .float .double .nan)
  else if [".inf", ".Inf", ".INF", "+.inf", "+.Inf", "+.INF"].contains text then
    ("!!float", .float .double (.infinite false))
  else if ["-.inf", "-.Inf", "-.INF"].contains text then ("!!float", .float .double (.infinite true))
  else
    match text.toList with
    | [] => ("!!null", .null)
    | c :: rest =>
      if c = '.' then
        match if partsDigits false rest then double? (c :: rest.filter (· ≠ '_')) else none with
        | some v => ("!!float", v)
        | none => ("!!str", .string text)
      else if c.isDigit || c = '-' || c = '+' then
        match if moments then instant? (c :: rest) else none with
        | some m => ("!!timestamp", .moment m)
        | none =>
          match number? (c :: rest) with
          | some (.float w x) => ("!!float", .float w x)
          | some v => ("!!int", v)
          | none => ("!!str", .string text)
      else ("!!str", .string text)

/-- The tag that a plain scalar has by its looks. -/
def plainTag (text : String) : String :=
  if text = "<<" then "!!merge" else (plainValue true text).1

def resolve (tag text : String) : Except Fault Value :=
  if tag = "!!str" then .ok (.string text)
  else if tag = "!!binary" then
    match Text.base64? text.toList with
    | some bs => .ok (.string (String.ofList (Text.decode bs)))
    | none => .error .badBinary
  else if ["!!bool", "!!int", "!!float", "!!null", "!!timestamp"].contains tag then
    match plainValue (tag = "!!timestamp") text with
    | ("!!int", .int w n) =>
      if tag = "!!int" then .ok (.int w n)
      else if tag = "!!float" && w ≠ .unsigned then .ok (.float .double (Binary.ofInt .double n))
      else .error (.unresolvable "!!int" text tag)
    | (found, v) => if found = tag then .ok v else .error (.unresolvable found text tag)
  else .ok (.string text)

end OperationGraph.Yaml
