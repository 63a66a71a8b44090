import OperationGraph.CommandLine.Flag
import OperationGraph.Text.Lower

/-! # Commands

The first argument that is no flag and no value of a flag names a command. -/

namespace OperationGraph

inductive Command where
  | help
  | analyze
  | serve
  | schema
  | version
deriving DecidableEq, Repr

def programName : String := "fieldgraph"

def programVersion : String := "0.1.0"

namespace Command

def named : List (String × Command) :=
  [("analyze", analyze), ("serve", serve), ("schema", schema), ("version", version)]

def path (c : Command) : String :=
  match named.find? (·.2 = c) with
  | some (name, _) => programName ++ " " ++ name
  | none => programName

def commonFlags : List Flag :=
  [{ name := "config", letter := some 'c' },
    { name := "schema", kind := .list, setting := some "schema" },
    { name := "log-level", setting := some "log_level" },
    { name := "log-development", kind := .truth, setting := some "log_development" }]

def serveFlags : List Flag :=
  [{ name := "addr", setting := some "server.addr" },
    { name := "watch", kind := .truth, setting := some "server.watch" },
    { name := "pretty", kind := .truth, setting := some "server.pretty" },
    { name := "timeout", kind := .duration, setting := some "server.timeout" },
    { name := "max-body-bytes", kind := .integer, setting := some "server.max_body_bytes" },
    { name := "cache-size", kind := .integer, setting := some "server.cache_size" },
    { name := "cors-origin", kind := .list, setting := some "server.cors_origins" },
    { name := "otel-endpoint", setting := some "otel.endpoint" },
    { name := "metrics", kind := .truth, setting := some "metrics.enabled" }]

def analyzeFlags : List Flag :=
  [{ name := "operation", letter := some 'o' },
    { name := "variables" },
    { name := "format", letter := some 'f' }]

def helpFlag : Flag := { name := "help", letter := some 'h', kind := .truth }

def flags (c : Command) : List Flag :=
  commonFlags ++ (match c with
    | analyze => analyzeFlags
    | serve => serveFlags
    | _ => []) ++ [helpFlag]

/-- Whether an argument is a common flag whose value is the next argument. An unknown flag counts as
one. -/
def takesNext (argument : String) : Bool :=
  match argument.toList with
  | '-' :: '-' :: name =>
    !name.contains '=' && !commonFlags.any fun f => f.name.toList = name && f.kind = .truth
  | ['-', c] => c ≠ '=' && !commonFlags.any fun f => f.letter = some c && f.kind = .truth
  | _ => false

/-- The first argument that is no flag; the value of a flag at the end is not looked for. -/
def firstWord? : List String → Option String
  | [] => none
  | a :: rest =>
    if a = "--" then none
    else if takesNext a then
      match rest with
      | _ :: b :: rest => firstWord? (b :: rest)
      | _ => none
    else if a ≠ "" && a.toList.head? ≠ some '-' then some a
    else firstWord? rest

/-- Arguments without the first that is a given word and no flag. -/
def without (word : String) : List String → List String
  | [] => []
  | a :: rest =>
    if a = "--" then a :: rest
    else if takesNext a then
      match rest with
      | v :: rest => a :: v :: without word rest
      | [] => [a]
    else if a = word then rest
    else a :: without word rest

/-- One row of the table of edit distances, from the row before: `left` is the entry to the left, and
`corner` the one above it. -/
def distanceRow (c : Char) (corner left : Nat) : List Char → List Nat → List Nat
  | d :: ds, above :: row =>
    let here := if c = d then corner else min (min left above) corner + 1
    here :: distanceRow c above here ds row
  | _, _ => []

/-- The rows of the table below a row, of which the last entry of the last one is the distance. -/
def distanceFrom (word : List Char) : Nat → List Nat → List Char → Nat
  | i, row, [] => row.getLastD i
  | i, row, c :: cs => distanceFrom word (i + 1) (distanceRow c i (i + 1) word row) cs

/-- How many characters have to be changed, added or left out to turn one word into another. -/
def distance (a b : String) : Nat :=
  distanceFrom b.toList 0 ((List.range b.length).map (· + 1)) a.toList

def suggestions (word : String) : List String :=
  (named.map (·.1) ++ ["completion"]).filter fun name =>
    distance (Text.lower word) name ≤ 2 || (Text.lower word).toList.isPrefixOf name.toList

end Command

/-- Why the arguments of the program make no sense. -/
inductive UsageError where
  | unknownCommand (word path : String) (suggestions : List String)
  | tooMany (most given : Nat)
  | flag (e : FlagError)
deriving Repr

def UsageError.message : UsageError → String
  | unknownCommand word path suggestions =>
    "unknown command " ++ Text.quoted word ++ " for " ++ Text.quoted path ++
      (if suggestions.isEmpty then ""
      else "\n\nDid you mean this?\n" ++ String.join (suggestions.map fun s => "\t" ++ s ++ "\n"))
  | tooMany most given =>
    "accepts at most " ++ toString most ++ " arg(s), received " ++ toString given
  | flag e => e.message

namespace Command

def find (arguments : List String) : Except UsageError (Command × List String) :=
  match firstWord? arguments with
  | none => .ok (.help, arguments)
  | some word =>
    match named.find? (·.1 = word) with
    | some (_, c) => .ok (c, without word arguments)
    | none =>
      if word = "help" || word = "completion" then .ok (.help, [])
      else .error (.unknownCommand word programName (suggestions word))

def check (c : Command) (arguments : List String) : Except UsageError Unit :=
  match c, arguments with
  | .help, _ => .ok ()
  | .analyze, as => if 1 < as.length then .error (.tooMany 1 as.length) else .ok ()
  | c, a :: _ => .error (.unknownCommand a c.path [])
  | _, [] => .ok ()

/-- The command that arguments call, with its flags; help is a command of its own. -/
def read (arguments : List String) : Except UsageError (Command × Given) :=
  match find arguments with
  | .error e => .error e
  | .ok (c, rest) =>
    match Given.read c.flags {} rest with
    | .error e => .error (.flag e)
    | .ok g =>
      match g.value? helpFlag.name, c.check g.arguments with
      | some (.boolean true), _ => .ok (.help, g)
      | _, .error e => .error e
      | _, .ok _ => .ok (c, g)

def flagSettings (g : Given) : List (String × Option Value) :=
  (commonFlags ++ serveFlags).filterMap fun f =>
    f.setting.map fun key =>
      (key, (g.value? f.name).map fun v =>
        match v with
        | .list [.string ""] => .list []
        | v => v)

end Command

end OperationGraph
