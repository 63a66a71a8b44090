import OperationGraph.Event.Basic
import OperationGraph.Files

/-! # Schemas that follow their files

A watcher holds the schema of some files and loads it again on demand. Its generation counts the loads
that succeeded, and a load that fails leaves the schema in place. -/

namespace OperationGraph

/-- Files, and the schema they held when they were last loaded with success. -/
structure Watcher where
  paths : List String
  schema : Schema
  generation : Nat := 1

namespace Watcher

/-- Loads the schema of files for the first time. -/
def start (d : Directory) (paths : List String) : Except FilesError Watcher :=
  (Schema.loadFiles d paths).map fun schema => { paths, schema }

/-- Loads the schema again. What happened is told, and so is the error if there was one. -/
def reload (w : Watcher) (d : Directory) : Watcher × Event × Option FilesError :=
  match Schema.loadFiles d w.paths with
  | .error e => (w, .schemaReloaded w.paths w.generation (some e.text), some e)
  | .ok schema =>
    let w := { w with schema, generation := w.generation + 1 }
    (w, .schemaReloaded w.paths w.generation none, none)

end Watcher

end OperationGraph
