import OperationGraph.Files
import OperationGraph.Json.Parser
import OperationGraph.Settings.Layers
import OperationGraph.Toml.Document
import OperationGraph.Value.Exchange
import OperationGraph.Yaml.Contents

/-! # Files of settings

The last part of its name tells in which format a file is written. -/

namespace OperationGraph

inductive SettingsFormat where
  | json
  | yaml
  | toml
deriving DecidableEq, Repr

inductive SettingsFileFault where
  | unsupported (suffix : String)
  | unreadable (e : ReadError)
  | malformed (problem : String)
deriving DecidableEq, Repr

structure SettingsFileError where
  path : String
  fault : SettingsFileFault
deriving DecidableEq, Repr

def SettingsFileError.message (e : SettingsFileError) : String :=
  "read config " ++ e.path ++ ": " ++
    match e.fault with
    | .unsupported suffix => "Unsupported Config Type " ++ Text.quoted suffix
    | .unreadable e => e.message
    | .malformed problem => "While parsing config: " ++ problem

namespace SettingsFormat

/-- What follows the last point in the last part of a path. -/
def suffix (path : String) : String :=
  let name := (Text.splitAt '/' path.toList).getLastD []
  match Text.splitAt '.' name with
  | [] => ""
  | [_] => ""
  | parts => String.ofList (parts.getLastD [])

def ofSuffix? (suffix : String) : Option SettingsFormat :=
  match suffix with
  | "json" => some .json
  | "yaml" => some .yaml
  | "yml" => some .yaml
  | "toml" => some .toml
  | _ => none

def sortName : Json → String
  | .null => "null"
  | .bool _ => "bool"
  | .number _ => "number"
  | .string _ => "string"
  | .array _ => "array"
  | .object _ => "object"

/-- The entries of an object in the exchange format; null has none. -/
def ofExchange (text : String) : Except String Entries :=
  match Json.parse text with
  | .error f => .error f.message
  | .ok .null => .ok []
  | .ok (.object ms) =>
    match Value.ofJson? (.object ms) with
    | some (.object es) => .ok es
    | _ => .error "json: number out of range"
  | .ok j =>
    .error ("json: cannot unmarshal " ++ sortName j
      ++ " into Go value of type map[string]interface \x7b\x7d")

def read (format : SettingsFormat) (text : String) : Except String Entries :=
  match format with
  | json => ofExchange text
  | toml => (Toml.parse text).mapError Toml.Fault.message
  | yaml => (Yaml.parse text).mapError Yaml.Fault.message

end SettingsFormat

namespace Layers

/-- Adds a file that was read; its names count in lower case. -/
def addFile (l : Layers) (path : String) (reading : Reading) : Except SettingsFileError Layers :=
  let suffix := SettingsFormat.suffix path
  match SettingsFormat.ofSuffix? suffix with
  | none => .error ⟨path, .unsupported suffix⟩
  | some format =>
    match reading with
    | .error e => .error ⟨path, .unreadable e⟩
    | .ok text =>
      match format.read text with
      | .error problem => .error ⟨path, .malformed problem⟩
      | .ok es => .ok { l with file := es.lowerNames }

end Layers

end OperationGraph
