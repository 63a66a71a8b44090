import OperationGraph.CommandLine.Run

/-! # The program -/

namespace OperationGraph

/-- Reads a file; bytes that are no text are replaced. -/
def readFile (path : String) : IO Reading := do
  try
    let bytes ← IO.FS.readBinFile path
    return .ok (String.ofList (Text.decode (bytes.toList.map UInt8.toNat)))
  catch e =>
    match e with
    | .noFileOrDirectory .. => return .error ⟨path, .missing⟩
    | _ => return .error ⟨path, .directory⟩

def readInput : IO String := do
  let bytes ← (← IO.getStdin).readBinToEnd
  return String.ofList (Text.decode (bytes.toList.map UInt8.toNat))

/-- The settings that stand in the environment, and the groups that do. -/
def readEnvironment : IO (List (String × String)) := do
  let start := Layers.start []
  let paths := start.keys.flatMap fun k => Layers.groups (Layers.path k) ++ [Layers.path k]
  let mut found := []
  for name in distinct (paths.map start.variableOf) do
    if let some text ← IO.getEnv name then found := (name, text) :: found
  return found

end OperationGraph

open OperationGraph in
def main (arguments : List String) : IO UInt32 := do
  let host : Host IO := { read := readFile, input := readInput, environment := ← readEnvironment }
  match ← host.run arguments with
  | .ok text =>
    text.forM IO.print
    return 0
  | .error e =>
    IO.eprintln ("Error: " ++ e.message)
    return 1
