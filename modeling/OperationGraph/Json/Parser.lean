import OperationGraph.Json.Basic
import OperationGraph.Json.Fault
import OperationGraph.Json.Text

/-! # Reading the exchange format

`parse` reads a value, or tells the first place at which the text is none. -/

namespace OperationGraph.Json

/-- What is read from the front of a text and the rest, or what is wrong. -/
abbrev Parsed (α : Type) := Except Fault (α × List Char)

/-- Reads the rest of a word that stands for a value. -/
def parseWord (word : String) (j : Json) : List Char → List Char → Parsed Json
  | [], cs => .ok (j, cs)
  | _ :: _, [] => .error .incomplete
  | wanted :: more, c :: cs =>
    if c = wanted then parseWord word j more cs else .error (.unexpected c (.literal word wanted))

/-- The fault of an escape by code point without its four digits. What is shown is six bytes long; at
the end of a text the digits may only be missing. -/
def codeEscapeFault (fromBackslash : List Char) : Fault :=
  let bs := Text.bytes fromBackslash
  if bs.length < 6 && (fromBackslash.drop 2).all fun c => (Text.hexValue? c).isSome then .incomplete
  else .badEscape (String.ofList (Text.decode (bs.take 6)))

/-- The low surrogate that is escaped at the start of a text. -/
def lowSurrogate? : List Char → Read? Nat
  | '\\' :: 'u' :: a :: b :: c :: d :: rest =>
    ((Text.hexNumber? [a, b, c, d]).filter fun n => 0xDC00 ≤ n && n < 0xE000).map (·, rest)
  | _ => none

/-- Reads the inside of a text up to its closing quote; `acc` is the text so far, reversed, and `fuel`
bounds the length. -/
def parseText : Nat → List Char → List Char → Parsed String
  | 0, _, _ => .error .incomplete
  | _ + 1, _, [] => .error .incomplete
  | _ + 1, acc, '"' :: rest => .ok (String.ofList acc.reverse, rest)
  | fuel + 1, acc, '\\' :: 'u' :: rest =>
    match if 4 ≤ rest.length then Text.hexNumber? (rest.take 4) else none with
    | none => .error (codeEscapeFault ('\\' :: 'u' :: rest))
    | some n =>
      match lowSurrogate? (rest.drop 4) with
      | none => parseText fuel (ofCode n :: acc) (rest.drop 4)
      | some (low, after) =>
        match ofSurrogates? n low with
        | some c => parseText fuel (c :: acc) after
        | none => parseText fuel (ofCode n :: acc) (rest.drop 4)
  | _ + 1, _, ['\\'] => .error .incomplete
  | fuel + 1, acc, '\\' :: e :: rest =>
    match escape? e with
    | some c => parseText fuel (c :: acc) rest
    | none => .error (.badEscape (String.ofList (Text.decode ((Text.bytes ['\\', e]).take 2))))
  | fuel + 1, acc, c :: rest =>
    if c.toNat < 0x20 then .error (.unexpected c .text) else parseText fuel (c :: acc) rest

def parseDigits : List Char → Parsed (List Char)
  | [] => .error .incomplete
  | c :: cs =>
    if c.isDigit then .ok (c :: cs.takeWhile Char.isDigit, cs.dropWhile Char.isDigit)
    else .error (.unexpected c .number)

/-- Reads the digits before the point, without superfluous zeros. -/
def parseWhole : List Char → Parsed (List Char)
  | '0' :: rest => .ok (['0'], rest)
  | cs => parseDigits cs

def parseFraction : List Char → Parsed (List Char)
  | '.' :: rest => (parseDigits rest).map fun (ds, r) => ('.' :: ds, r)
  | cs => .ok ([], cs)

def parseExponent : List Char → Parsed (List Char)
  | [] => .ok ([], [])
  | c :: rest =>
    if c = 'e' || c = 'E' then
      let (sign, rest) := match rest with
        | '-' :: r => (['-'], r)
        | '+' :: r => (['+'], r)
        | r => ([], r)
      (parseDigits rest).map fun (ds, r) => (c :: sign ++ ds, r)
    else .ok ([], c :: rest)

def parseNumber (sign cs : List Char) : Except Fault (Json × List Char) := do
  let (whole, rest) ← parseWhole cs
  let (fraction, rest) ← parseFraction rest
  let (exponent, rest) ← parseExponent rest
  return (.number (String.ofList (sign ++ whole ++ fraction ++ exponent)), rest)

/-- How deeply lists and objects may nest. -/
def maxDepth : Nat := 10000

mutual

/-- Reads a value after leading blanks; `fuel` bounds the steps and `room` the nesting. -/
def parseValue : Nat → Nat → List Char → Parsed Json
  | 0, _, _ => .error .incomplete
  | fuel + 1, room, cs =>
    match skip cs with
    | [] => .error .incomplete
    | '"' :: rest => (parseText (fuel + 1) [] rest).map fun (s, r) => (.string s, r)
    | '[' :: rest =>
      match room with
      | 0 => .error .tooDeep
      | room + 1 =>
        match skip rest with
        | ']' :: r => .ok (.array [], r)
        | r => (parseItems fuel room r).map fun (js, r) => (.array js, r)
    | '{' :: rest =>
      match room with
      | 0 => .error .tooDeep
      | room + 1 =>
        match skip rest with
        | '}' :: r => .ok (.object [], r)
        | r => (parseMembers fuel room r).map fun (ms, r) => (.object ms, r)
    | 't' :: rest => parseWord "true" (.bool true) ['r', 'u', 'e'] rest
    | 'f' :: rest => parseWord "false" (.bool false) ['a', 'l', 's', 'e'] rest
    | 'n' :: rest => parseWord "null" .null ['u', 'l', 'l'] rest
    | '-' :: rest => parseNumber ['-'] rest
    | c :: rest =>
      if c.isDigit then parseNumber [] (c :: rest) else .error (.unexpected c .value)

/-- Reads the items of a list, of which there is one, up to the closing bracket. -/
def parseItems : Nat → Nat → List Char → Except Fault (List Json × List Char)
  | 0, _, _ => .error .incomplete
  | fuel + 1, room, cs => do
    let (j, rest) ← parseValue fuel room cs
    match skip rest with
    | [] => .error .incomplete
    | ',' :: rest =>
      let (js, rest) ← parseItems fuel room rest
      return (j :: js, rest)
    | ']' :: rest => return ([j], rest)
    | c :: _ => .error (.unexpected c .afterItem)

/-- Reads the members of an object, of which there is one, up to the closing brace. -/
def parseMembers : Nat → Nat → List Char → Except Fault (List (String × Json) × List Char)
  | 0, _, _ => .error .incomplete
  | fuel + 1, room, cs =>
    match skip cs with
    | [] => .error .incomplete
    | '"' :: rest => do
      let (name, rest) ← parseText (fuel + 1) [] rest
      match skip rest with
      | [] => .error .incomplete
      | ':' :: rest =>
        let (j, rest) ← parseValue fuel room rest
        match skip rest with
        | [] => .error .incomplete
        | ',' :: rest =>
          let (ms, rest) ← parseMembers fuel room rest
          return ((name, j) :: ms, rest)
        | '}' :: rest => return ([(name, j)], rest)
        | c :: _ => .error (.unexpected c .afterMember)
      | c :: _ => .error (.unexpected c .afterName)
    | c :: _ => .error (.unexpected c .name)

end

/-- Reads one value with nothing but blanks around it. -/
def parse (text : String) : Except Fault Json :=
  let cs := text.toList
  match parseValue (2 * cs.length + 2) maxDepth cs with
  | .error e => .error e
  | .ok (j, rest) =>
    match skip rest with
    | [] => .ok j
    | c :: _ => .error (.unexpected c .afterValue)

/-- The value that a text stands for, if any. -/
def parse? (text : String) : Option Json := (parse text).toOption

end OperationGraph.Json
