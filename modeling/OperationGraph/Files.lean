import OperationGraph.Schema.Load
import OperationGraph.Text.Blank

/-! # Files

Texts under paths, as a directory holds them, and schemas that are loaded from them. -/

namespace OperationGraph

inductive ReadFault where
  | missing
  | directory
  | notDirectory
deriving DecidableEq, Repr

structure ReadError where
  path : String
  fault : ReadFault
deriving DecidableEq, Repr

def ReadError.message (e : ReadError) : String :=
  match e.fault with
  | .missing => "open " ++ e.path ++ ": no such file or directory"
  | .directory => "read " ++ e.path ++ ": is a directory"
  | .notDirectory => "open " ++ e.path ++ ": not a directory"

/-- The text of a path, or why there is none. -/
abbrev Reading := Except ReadError String

structure Directory where
  files : List (String × String) := []
deriving Repr

namespace Directory

/-- The parts of a path below the directory; a part `..` takes back the one before it. -/
def parts (path : String) : List String :=
  ((Text.split '/' path).foldl (fun acc p =>
    if p = "" || p = "." then acc else if p = ".." then acc.tail else p :: acc) []).reverse

def holdsBelow (d : Directory) (ps : List String) : Bool :=
  d.files.any fun f => ps.isPrefixOf (parts f.1) && ps ≠ parts f.1

def read (d : Directory) (path : String) : Reading :=
  let ps := parts path
  if path = "" then .error ⟨path, .missing⟩
  else
    match d.files.find? fun f => parts f.1 = ps with
    | some f => if path.endsWith "/" then .error ⟨path, .notDirectory⟩ else .ok f.2
    | none =>
      if ps.isEmpty || d.holdsBelow ps then .error ⟨path, .directory⟩
      else if d.files.any fun f => (parts f.1).isPrefixOf ps then .error ⟨path, .notDirectory⟩
      else .error ⟨path, .missing⟩

def write (d : Directory) (path text : String) : Directory :=
  { files := d.files.filter (fun f => parts f.1 ≠ parts path) ++ [(path, text)] }

def remove (d : Directory) (path : String) : Directory :=
  { files := d.files.filter fun f => parts f.1 ≠ parts path }

end Directory

inductive FilesError where
  | noFiles
  | unreadable (e : ReadError)
  | unloadable (e : LoadError)
deriving DecidableEq, Repr

namespace FilesError

/-- What went wrong in the sources themselves. -/
def diagnostic? : FilesError → Option Diagnostic
  | unloadable e => some e.diagnostic
  | _ => none

def text : FilesError → String
  | noFiles => "no schema files given"
  | unreadable e => "read schema: " ++ e.message
  | unloadable e => e.diagnostic.text

end FilesError

namespace Schema

def sourcesOf : List (String × Reading) → Except FilesError (List Source)
  | [] => .ok []
  | (name, reading) :: rest =>
    match reading with
    | .error e => .error (.unreadable e)
    | .ok text =>
      match sourcesOf rest with
      | .error e => .error e
      | .ok sources => .ok ({ name, text } :: sources)

def ofReadings (readings : List (String × Reading)) : Except FilesError Schema :=
  if readings.isEmpty then .error .noFiles
  else
    match sourcesOf readings with
    | .error e => .error e
    | .ok sources => (Schema.load sources).mapError .unloadable

def loadFiles (d : Directory) (paths : List String) : Except FilesError Schema :=
  ofReadings (paths.map fun p => (p, d.read p))

end Schema

end OperationGraph
