import OperationGraph.Document.Reader

/-! # Reading executable documents -/

namespace OperationGraph.Reader

def variableDefinitions : Reader (List VariableDefinition) :=
  some .parenL .parenR do
    let pos := (← peek).pos
    let name ← variableName
    let _ ← expect .colon
    let type ← type
    let default ← defaultValue
    return { name, type, default, directives := ← directives false, pos }

def requiredSelections (selection : Reader Selection) : Reader (List Selection) := do
  let t ← peek
  if t.kind = .braceL then some .braceL .braceR selection
  else fail t (.expectedKind .braceL t.kind)

/-- A selection; `fuel` bounds the nesting. -/
def selectionAt : Nat → Reader Selection
  | 0 => unexpected
  | fuel + 1 => do
    if ← skip .spread then
      let t ← peek
      if t.kind = .name && t.value ≠ "on" then
        skipOne
        return .spread t.value (← directives false) t.pos
      else
        let condition ← if t.value = "on" then do
            skipOne
            pure (Option.some (← name))
          else pure none
        let directives ← directives false
        return .inline condition directives (← requiredSelections (selectionAt fuel)) t.pos
    else
      let pos := (← peek).pos
      let key ← name
      let name ← if ← skip .colon then name else pure key
      let arguments ← arguments false
      let directives ← directives false
      let selections ← some .braceL .braceR (selectionAt fuel)
      return .field { key, name, arguments, directives, selections, pos }

def selections : Reader (List Selection) := do requiredSelections (selectionAt (← bound))

/-- The word that names a kind of operation. A text without a token there is reported as such. -/
def operationType : Reader OperationType := do
  let t ← peek
  match t.kind with
  | .invalid fault => fail t (.lexical fault)
  | _ =>
    match OperationType.ofText? t.value with
    | Option.some op => skipOne; return op
    | none => fail t (.unexpected t)

/-- An operation; one that begins with its selections is a query without a name. -/
def operation : Reader Operation := do
  let t ← peek
  if t.kind = .braceL then
    return { type := .query, selections := ← selections, pos := t.pos }
  else
    let type ← operationType
    let n ← peek
    let name ← if n.kind = .name then name else pure ""
    let definitions ← variableDefinitions
    let directives ← directives false
    return { type, name, variableDefinitions := definitions, directives, selections := ← selections, pos := t.pos }

/-- A named fragment, whose name is not `on`. -/
def fragment : Reader Fragment := do
  let pos := (← peek).pos
  expectWord "fragment"
  if (← peek).value = "on" then unexpected
  else
    let name ← name
    let definitions ← variableDefinitions
    expectWord "on"
    let condition ← Reader.name
    let directives ← directives false
    return { name, variableDefinitions := definitions, condition, directives, selections := ← selections, pos }

/-- The definitions up to the end of input, `fuel` of them at most. -/
def documentAt : Nat → Document → Reader Document
  | 0, _ => unexpected
  | fuel + 1, doc => do
    let t ← peek
    match t.kind with
    | .endOfInput => return doc
    | .braceL =>
      let op ← operation
      documentAt fuel { doc with operations := doc.operations ++ [op] }
    | .name =>
      if t.value = "fragment" then
        let f ← fragment
        documentAt fuel { doc with fragments := doc.fragments ++ [f] }
      else if (OperationType.ofText? t.value).isSome then
        let op ← operation
        documentAt fuel { doc with operations := doc.operations ++ [op] }
      else unexpected
    | _ => unexpected

end Reader

def Document.parse (text : String) : Except SyntaxError Document :=
  let ts := ({ text } : Source).tokens
  (·.1) <$> (Reader.documentAt (ts.length + 1) {}).run ts

end OperationGraph
