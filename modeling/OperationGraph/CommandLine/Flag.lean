import OperationGraph.Duration
import OperationGraph.Number.Integer
import OperationGraph.Text.Separated
import OperationGraph.Text.Truth
import OperationGraph.Value.Basic

/-! # Flags

A flag has a name after two dashes, and perhaps a letter after one. Its value follows an equals sign or is
the next argument; a flag that is a truth value needs none. -/

namespace OperationGraph

inductive FlagKind where
  | text
  | truth
  | integer
  | duration
  | list
deriving DecidableEq, Repr

structure Flag where
  name : String
  letter : Option Char := none
  kind : FlagKind := .text
  /-- The setting that the flag stands for. -/
  setting : Option String := none
deriving DecidableEq, Repr

inductive FlagError where
  | malformed (argument : String)
  | unknown (name : String)
  | unknownLetter (c : Char) (letters : String)
  | noValue (argument : String)
  | noLetterValue (c : Char) (letters : String)
  | invalid (value : String) (flag : Flag) (problem : String)
deriving DecidableEq, Repr

namespace FlagError

def flagText (f : Flag) : String :=
  match f.letter with
  | some c => "-" ++ c.toString ++ ", --" ++ f.name
  | none => "--" ++ f.name

def message : FlagError → String
  | malformed argument => "bad flag syntax: " ++ argument
  | unknown name => "unknown flag: --" ++ name
  | unknownLetter c letters =>
    "unknown shorthand flag: " ++ Text.quotedByte c ++ " in -" ++ letters
  | noValue argument => "flag needs an argument: " ++ argument
  | noLetterValue c letters =>
    "flag needs an argument: " ++ Text.quotedByte c ++ " in -" ++ letters
  | invalid value flag problem =>
    "invalid argument " ++ Text.quoted value ++ " for " ++ Text.quoted (flagText flag) ++ " flag: "
      ++ problem

end FlagError

def FlagKind.read (kind : FlagKind) (text : String) : Except String Value :=
  match kind with
  | .text => .ok (.string text)
  | .truth =>
    match Text.truth? text with
    | some b => .ok (.boolean b)
    | none => .error (Text.truthFault text)
  | .integer => ((Integer.read text).map (.int .plain)).mapError IntegerFault.message
  | .duration => ((Duration.read text).map fun d => .string d.text).mapError DurationFault.message
  | .list => ((Text.separated text).map fun xs => .list (xs.map .string)).mapError (·.message)

/-- Flags that were given, and the arguments that are none. -/
structure Given where
  flags : List (String × Value) := []
  arguments : List String := []
deriving Repr

namespace Given

def value? (g : Given) (name : String) : Option Value := (g.flags.find? (·.1 = name)).map (·.2)

def text (g : Given) (name : String) (default : String) : String :=
  match g.value? name with
  | some (.string s) => s
  | _ => default

/-- The value of a flag that is given once more: lists grow, any other value is replaced. -/
def merge : Option Value → Value → Value
  | some (.list old), .list new => .list (old ++ new)
  | _, new => new

def set (g : Given) (f : Flag) (text : String) : Except FlagError Given :=
  match f.kind.read text with
  | .error problem => .error (.invalid text f problem)
  | .ok v =>
    .ok { g with flags := (f.name, merge (g.value? f.name) v) :: g.flags.filter (·.1 ≠ f.name) }

/-- Reads letters after one dash. A flag at their end that still needs a value is given back with the
error that arises if there is none. -/
def setLetters (flags : List Flag) (g : Given) :
    List Char → Except FlagError (Given × Option (Flag × FlagError))
  | [] => .ok (g, none)
  | c :: rest =>
    match flags.find? (·.letter = some c) with
    | none => .error (.unknownLetter c (String.ofList (c :: rest)))
    | some f =>
      if rest.head? = some '=' && 1 < rest.length then
        (g.set f (String.ofList rest.tail)).map fun g => (g, none)
      else if f.kind = .truth then
        match g.set f "true" with
        | .error e => .error e
        | .ok g => setLetters flags g rest
      else if rest.isEmpty then .ok (g, some (f, .noLetterValue c c.toString))
      else (g.set f (String.ofList rest)).map fun g => (g, none)

/-- Reads a name after two dashes, likewise. -/
def setName (flags : List Flag) (g : Given) (argument : String) :
    Except FlagError (Given × Option (Flag × FlagError)) :=
  let cs := argument.toList.drop 2
  let name := String.ofList (cs.takeWhile (· ≠ '='))
  if cs.head? = some '-' || cs.head? = some '=' then .error (.malformed argument)
  else
    match flags.find? (·.name = name) with
    | none => .error (.unknown name)
    | some f =>
      match cs.dropWhile (· ≠ '=') with
      | _ :: value => (g.set f (String.ofList value)).map fun g => (g, none)
      | [] =>
        if f.kind = .truth then (g.set f "true").map fun g => (g, none)
        else .ok (g, some (f, .noValue argument))

/-- Reads arguments. Two dashes alone end the flags, and one dash alone is no flag. -/
def read (flags : List Flag) (g : Given) : List String → Except FlagError Given
  | [] => .ok g
  | argument :: rest =>
    if argument = "--" then .ok { g with arguments := g.arguments ++ rest }
    else if argument = "-" || argument.toList.head? ≠ some '-' then
      read flags { g with arguments := g.arguments ++ [argument] } rest
    else
      let step :=
        if argument.toList.take 2 = ['-', '-'] then setName flags g argument
        else setLetters flags g (argument.toList.drop 1)
      match step with
      | .error e => .error e
      | .ok (g, none) => read flags g rest
      | .ok (g, some (f, e)) =>
        match rest with
        | [] => .error e
        | value :: rest =>
          match g.set f value with
          | .error e => .error e
          | .ok g => read flags g rest

end Given

end OperationGraph
