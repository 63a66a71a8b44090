import OperationGraph.Json.Basic
import OperationGraph.Text.Lower
import OperationGraph.Text.Quoted

/-! # Log records -/

namespace OperationGraph

inductive LogLevel where
  | debug
  | info
  | warn
  | error
  | dpanic
  | panic
  | fatal
deriving DecidableEq, Repr

namespace LogLevel

def all : List LogLevel := [debug, info, warn, error, dpanic, panic, fatal]

def name : LogLevel → String
  | debug => "debug"
  | info => "info"
  | warn => "warn"
  | error => "error"
  | dpanic => "dpanic"
  | panic => "panic"
  | fatal => "fatal"

/-- The levels that are logged at a level: it and all graver ones. -/
def enabled (l : LogLevel) : List LogLevel := all.dropWhile (· ≠ l)

/-- A text that names no level. -/
structure Unknown where
  text : String
deriving DecidableEq, Repr

def Unknown.message (u : Unknown) : String :=
  "log level: unrecognized level: " ++ Text.quoted u.text

/-- The level of a name in any letter case; no name is `info`. -/
def ofText (text : String) : Except Unknown LogLevel :=
  if text = "" then .ok info
  else
    match all.find? fun l => l.name = Text.lower text with
    | some l => .ok l
    | none => .error ⟨text⟩

end LogLevel

structure LogRecord where
  level : LogLevel
  message : String
  fields : List (String × Json) := []
deriving Repr

end OperationGraph
