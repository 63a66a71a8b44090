import OperationGraph.CommandLine.Command
import OperationGraph.Graph.Analyze
import OperationGraph.Graph.Export
import OperationGraph.Json.Printer
import OperationGraph.Log
import OperationGraph.Schema.Render
import OperationGraph.Settings.Basic
import OperationGraph.Settings.File

/-! # Running a command

A command reads files and its standard input through a host and gives a text to print, or an error. The
analysis of an endless document gives neither. -/

namespace OperationGraph

/-- What a command sees of the world. -/
structure Host (m : Type → Type) where
  read : String → m Reading
  input : m String
  environment : List (String × String)

inductive CommandError where
  | usage (e : UsageError)
  | settingsFile (e : SettingsFileError)
  | settings (e : SettingsError)
  | level (e : LogLevel.Unknown)
  | format (name : String)
  | files (e : FilesError)
  | unreadableQuery (e : ReadError)
  | unreadableVariables (e : ReadError)
  | malformedVariables (path : String) (e : Yaml.Fault)
  | malformedQuery (e : SyntaxError)
  | analysis (e : AnalysisError)

def CommandError.message : CommandError → String
  | usage e => e.message
  | settingsFile e => e.message
  | settings e => e.message
  | level e => e.message
  | format name => "unknown format " ++ Text.quoted name
  | files e => e.text
  | unreadableQuery e => "read query: " ++ e.message
  | unreadableVariables e => "read variables: " ++ e.message
  | malformedVariables path e => "decode variables " ++ path ++ ": " ++ e.message
  | malformedQuery e => e.diagnostic.text
  | analysis e => e.message

def Graph.listing (g : Graph) : String := String.join (g.edgeTexts.map (· ++ "\n"))

namespace Host

variable {m : Type → Type} [Monad m]

/-- The layers of settings with the file that a flag names. -/
def layers (host : Host m) (g : Given) : ExceptT CommandError m Layers := do
  let start := { Layers.start host.environment with flags := Command.flagSettings g }
  match g.text "config" "" with
  | "" => return start
  | path =>
    let reading ← ExceptT.lift (host.read path)
    ExceptT.mk (pure ((start.addFile path reading).mapError .settingsFile))

def settings (l : Layers) : Except CommandError Settings := do
  let s ← (Settings.ofLayers l).mapError .settings
  let _ ← (LogLevel.ofText s.logLevel).mapError .level
  return s

def loadSchema (host : Host m) (s : Settings) : ExceptT CommandError m Schema := do
  let readings ← ExceptT.lift (s.schema.mapM fun p => do return (p, ← host.read p))
  ExceptT.mk (pure ((Schema.ofReadings readings).mapError .files))

/-- Reads the query from the file that the argument names, or from the standard input. -/
def query (host : Host m) (g : Given) : ExceptT CommandError m String := do
  match g.arguments.headD "-" with
  | "-" => ExceptT.lift host.input
  | path =>
    let reading ← ExceptT.lift (host.read path)
    ExceptT.mk (pure (reading.mapError .unreadableQuery))

/-- Reads the variables from the file that a flag names. -/
def readVariables (host : Host m) (g : Given) : ExceptT CommandError m Entries := do
  match g.text "variables" "" with
  | "" => return []
  | path =>
    let reading ← ExceptT.lift (host.read path)
    let text ← ExceptT.mk (pure (reading.mapError .unreadableVariables))
    ExceptT.mk (pure ((Yaml.parse text).mapError (.malformedVariables path)))

/-- Prints the graph of a query, unless the analysis is endless. -/
def runAnalyze (host : Host m) (l : Layers) (g : Given) :
    ExceptT CommandError m (Option String) := do
  let format := g.text "format" "text"
  if format ≠ "text" && format ≠ "json" then throw (.format format)
  let s ← ExceptT.mk (pure (settings l))
  let schema ← host.loadSchema s
  let text ← host.query g
  let given ← host.readVariables g
  let doc ← ExceptT.mk (pure ((Document.parse text).mapError .malformedQuery))
  match analyze schema doc (g.text "operation" "") given with
  | .failed e => throw (.analysis e)
  | .unfinished => return none
  | .finished graph =>
    return some (if format = "json" then graph.record.toJson.document true else graph.listing)

def runCommand (host : Host m) (c : Command) (g : Given) :
    ExceptT CommandError m (Option String) := do
  match c with
  | .help => return some ""
  | c =>
    let l ← host.layers g
    match c with
    | .version => return some (programName ++ " version " ++ programVersion ++ "\n")
    | .analyze => host.runAnalyze l g
    | c =>
      let s ← ExceptT.mk (pure (settings l))
      let schema ← host.loadSchema s
      return some (if c = .schema then schema.render else "")

/-- Runs the program with arguments: what it prints, unless it never comes to that, or why it fails. -/
def run (host : Host m) (arguments : List String) : m (Except CommandError (Option String)) :=
  match Command.read arguments with
  | .error e => pure (.error (.usage e))
  | .ok (c, g) => (host.runCommand c g).run

end Host

end OperationGraph
