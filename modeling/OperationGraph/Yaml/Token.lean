import OperationGraph.Yaml.Cursor

/-! # Tokens of structured text -/

namespace OperationGraph.Yaml

/-- The sorts of tokens. Lists and maps that are shown by indentation have a start and an end too. -/
inductive TokenKind where
  | streamStart
  | streamEnd
  | version (major minor : Nat)
  | handle (name meaning : String)
  | documentStart
  | documentEnd
  | listStart
  | mapStart
  | blockEnd
  | flowListStart
  | flowListEnd
  | flowMapStart
  | flowMapEnd
  | entry
  | comma
  | key
  | value
  | reference (name : String)
  | anchor (name : String)
  | tag (handle suffix : String)
  | scalar (text : String) (plain : Bool)
deriving DecidableEq, Repr

structure Token where
  kind : TokenKind
  mark : Mark
deriving DecidableEq, Repr

end OperationGraph.Yaml
