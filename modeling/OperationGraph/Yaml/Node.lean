import OperationGraph.Yaml.Resolution
import OperationGraph.Yaml.TokenQueue

/-! # Nodes of structured text

A document is a tree of scalars, lists and maps. A node with an anchor can be referred to by aliases after
it, even from inside itself, so an alias holds only the number of the anchor. -/

namespace OperationGraph.Yaml

/-- A node with the line it starts on and its tag. Each alias has a number of its own. -/
inductive Node where
  | scalar (line : Nat) (tag text : String)
  | list (line : Nat) (tag : String) (items : List Node)
  | map (line : Nat) (tag : String) (entries : List (Node × Node))
  | reference (line : Nat) (name : String) (number anchor : Nat)
deriving Repr, Inhabited

/-- A document being read: what handles of tags stand for, the anchors by name, the nodes that have them
by number, and the number of aliases. -/
structure Reader where
  queue : TokenQueue
  handles : List (String × String) := []
  anchors : List (String × Nat) := []
  anchored : List (Nat × Node) := []
  aliases : Nat := 0

/-- A step that makes a node of tokens. -/
abbrev Composing := StateT Reader (Except Fault)

namespace Composing

def peek : Composing Token := do
  let (t, queue) ← (← get).queue.peek
  modify fun r => { r with queue }
  return t

/-- Takes the next token away. -/
def pop : Composing Unit := modify fun r => { r with queue := r.queue.pop }

/-- Takes the next token away and looks at the one after it. -/
def next : Composing Token := do
  pop
  peek

def newAnchor (name : String) : Composing Nat := do
  let n := (← get).anchors.length
  modify fun r => { r with anchors := (name, n) :: r.anchors }
  return n

def aliasOf (name : String) (mark : Mark) : Composing Node := do
  let r ← get
  match r.anchors.find? (·.1 = name) with
  | none => throw (.unknownAnchor name)
  | some (_, anchor) =>
    set { r with aliases := r.aliases + 1 }
    return .reference (mark.line + 1) name r.aliases anchor

def empty (mark : Mark) : Node := .scalar (mark.line + 1) "!!null" ""

/-- What stands in front of the content of a node. -/
structure Properties where
  anchor : Option Nat := none
  tag : String := ""

def tagOf (start mark : Mark) (handle suffix : String) : Composing String := do
  if handle = "" then return suffix
  match (← get).handles.find? (·.1 = handle) with
  | some (_, meaning) =>
    if meaning ++ suffix = "" then throw (.inNode start mark .unknownHandle)
    return meaning ++ suffix
  | none => throw (.inNode start mark .unknownHandle)

/-- Reads the anchor and the tag of a node, in either order, and looks at the token after them. -/
def properties (t : Token) : Composing (Properties × Token) := do
  match t.kind with
  | .anchor name =>
    let t' ← next
    match t'.kind with
    | .tag handle suffix =>
      let after ← next
      let tag ← tagOf t.mark t'.mark handle suffix
      return ({ anchor := some (← newAnchor name), tag }, after)
    | _ => return ({ anchor := some (← newAnchor name) }, t')
  | .tag handle suffix =>
    let t' ← next
    match t'.kind with
    | .anchor name =>
      let after ← next
      let tag ← tagOf t.mark t.mark handle suffix
      return ({ anchor := some (← newAnchor name), tag }, after)
    | _ => return ({ tag := ← tagOf t.mark t.mark handle suffix }, t')
  | _ => return ({}, t)

/-- The short form of the tag of a node, or what it is without one. -/
def Properties.tagOr (p : Properties) (other : String) : String :=
  if p.tag = "" || p.tag = "!" then other else shortTag p.tag

def Properties.keep (p : Properties) (n : Node) : Composing Node := do
  match p.anchor with
  | some a => modify fun r => { r with anchored := (a, n) :: r.anchored }
  | none => pure ()
  return n

mutual

/-- Reads a node. In a block it may be a list or a map that is shown by indentation, and where `level`
says so a list without an indentation of its own. -/
def node : Nat → Bool → Bool → Composing Node
  | 0, _, _ => do throw (.malformed 0 .missingContent)
  | fuel + 1, block, level => do
    let first ← peek
    match first.kind with
    | .reference name =>
      pop
      aliasOf name first.mark
    | _ =>
      let (p, t) ← properties first
      let line := first.mark.line + 1
      match t.kind with
      | .scalar text plain =>
        pop
        p.keep (.scalar line (p.tagOr (if plain then plainTag text else "!!str")) text)
      | .flowListStart =>
        pop
        p.keep (.list line (p.tagOr "!!seq") (← flowItems fuel t.mark true))
      | .flowMapStart =>
        pop
        p.keep (.map line (p.tagOr "!!map") (← flowEntries fuel t.mark true))
      | kind =>
        if level && kind = .entry then
          p.keep (.list line (p.tagOr "!!seq") (← levelItems fuel))
        else if block && kind = .listStart then
          pop
          p.keep (.list line (p.tagOr "!!seq") (← blockItems fuel t.mark))
        else if block && kind = .mapStart then
          pop
          p.keep (.map line (p.tagOr "!!map") (← blockEntries fuel t.mark))
        else if p.anchor.isSome || p.tag ≠ "" then
          p.keep (.scalar line (p.tagOr "!!null") "")
        else throw (.inNode first.mark t.mark .missingContent)

/-- Reads the entries of a list that is shown by indentation, up to its end. -/
def blockItems : Nat → Mark → Composing (List Node)
  | 0, start => do throw (.inNode start start .missingDash)
  | fuel + 1, start => do
    let t ← peek
    match t.kind with
    | .entry =>
      let t' ← next
      let n ← if t'.kind = .entry || t'.kind = .blockEnd then pure (empty t.mark)
        else node fuel true false
      return n :: (← blockItems fuel start)
    | .blockEnd =>
      pop
      return []
    | _ => throw (.inNode start t.mark .missingDash)

/-- Reads the entries of a list without an indentation of its own. -/
def levelItems : Nat → Composing (List Node)
  | 0 => return []
  | fuel + 1 => do
    let t ← peek
    if t.kind ≠ .entry then return []
    let t' ← next
    let n ← if [.entry, .key, .value, .blockEnd].contains t'.kind then pure (empty t.mark)
      else node fuel true false
    return n :: (← levelItems fuel)

/-- Reads the entries of a map that is shown by indentation, up to its end. -/
def blockEntries : Nat → Mark → Composing (List (Node × Node))
  | 0, start => do throw (.inNode start start .missingKey)
  | fuel + 1, start => do
    let t ← peek
    match t.kind with
    | .key =>
      let t' ← next
      let k ← if [.key, .value, .blockEnd].contains t'.kind then pure (empty t.mark)
        else node fuel true true
      let t ← peek
      let v ← if t.kind ≠ .value then pure (empty t.mark)
        else do
          let t' ← next
          if [.key, .value, .blockEnd].contains t'.kind then pure (empty t.mark)
          else node fuel true true
      return (k, v) :: (← blockEntries fuel start)
    | .blockEnd =>
      pop
      return []
    | _ => throw (.inNode start t.mark .missingKey)

/-- Reads the items of a list in brackets; `first` tells that there was none yet. A key makes a map of one
entry. -/
def flowItems : Nat → Mark → Bool → Composing (List Node)
  | 0, start, _ => do throw (.inNode start start (.missingComma ']'))
  | fuel + 1, start, first => do
    let t ← peek
    if t.kind = .flowListEnd then
      pop
      return []
    if !first && t.kind ≠ .comma then throw (.inNode start t.mark (.missingComma ']'))
    let t ← if first then pure t else next
    match t.kind with
    | .flowListEnd =>
      pop
      return []
    | .key =>
      let t' ← next
      let k ← if [.value, .comma, .flowListEnd].contains t'.kind then do
          pop
          pure (empty t'.mark)
        else node fuel false false
      let v ← pairValue fuel
      return .map (t.mark.line + 1) "!!map" [(k, v)] :: (← flowItems fuel start false)
    | _ =>
      let n ← node fuel false false
      return n :: (← flowItems fuel start false)

/-- Reads the value of the only entry of a map in a list. -/
def pairValue : Nat → Composing Node
  | 0 => return default
  | fuel + 1 => do
    let t ← peek
    if t.kind ≠ .value then return empty t.mark
    let t ← next
    if t.kind = .comma || t.kind = .flowListEnd then return empty t.mark
    node fuel false false

/-- Reads the entries of a map in brackets; `first` tells that there was none yet. -/
def flowEntries : Nat → Mark → Bool → Composing (List (Node × Node))
  | 0, start, _ => do throw (.inNode start start (.missingComma '}'))
  | fuel + 1, start, first => do
    let t ← peek
    if t.kind = .flowMapEnd then
      pop
      return []
    if !first && t.kind ≠ .comma then throw (.inNode start t.mark (.missingComma '}'))
    let t ← if first then pure t else next
    match t.kind with
    | .flowMapEnd =>
      pop
      return []
    | .key =>
      let t ← next
      let k ← if [.value, .comma, .flowMapEnd].contains t.kind then pure (empty t.mark)
        else node fuel false false
      let t ← peek
      let v ← if t.kind ≠ .value then pure (empty t.mark)
        else do
          let t ← next
          if t.kind = .comma || t.kind = .flowMapEnd then pure (empty t.mark)
          else node fuel false false
      return (k, v) :: (← flowEntries fuel start false)
    | _ =>
      let k ← node fuel false false
      let t ← peek
      return (k, empty t.mark) :: (← flowEntries fuel start false)

end

def directives : Nat → Bool → Composing Unit
  | 0, _ => return ()
  | fuel + 1, versioned => do
    let t ← peek
    match t.kind with
    | .version major minor =>
      if versioned then throw (.inNode {} t.mark .repeatedVersion)
      if major ≠ 1 || minor ≠ 1 then throw (.inNode {} t.mark .wrongVersion)
      pop
      directives fuel true
    | .handle name meaning =>
      if (← get).handles.any (·.1 = name) then throw (.inNode {} t.mark .repeatedHandle)
      modify fun r => { r with handles := r.handles ++ [(name, meaning)] }
      pop
      directives fuel versioned
    | _ =>
      let defaults := [("!", "!"), ("!!", coreTag)]
      modify fun r =>
        { r with handles := r.handles ++ defaults.filter fun d => !r.handles.any (·.1 = d.1) }

def betweenDocuments : TokenKind → Bool
  | .version .. => true
  | .handle .. => true
  | .documentStart => true
  | .documentEnd => true
  | .streamEnd => true
  | _ => false

/-- Reads the first document, if there is one. What follows it is looked at only as far as the next token
needs it. -/
def document (fuel : Nat) : Composing (Option Node) := do
  let _ ← peek
  let t ← next
  if t.kind = .streamEnd then return none
  directives fuel false
  let n ← if !betweenDocuments t.kind || t.kind = .documentEnd then node fuel true false
    else do
      let t ← peek
      if t.kind ≠ .documentStart then throw (.inNode {} t.mark .missingDocumentStart)
      let t ← next
      if betweenDocuments t.kind then pure (empty t.mark) else node fuel true false
  let _ ← peek
  return some n

end Composing

/-- The first document of a text, with the nodes that have anchors and the number of aliases. -/
structure Document where
  root : Option Node
  anchored : List (Nat × Node)
  aliases : Nat

def Document.ofText (text : String) : Except Fault Document := do
  let queue ← TokenQueue.ofText text
  let (root, r) ← (Composing.document (8 * text.length + 64)).run { queue }
  return { root, anchored := r.anchored, aliases := r.aliases }

end OperationGraph.Yaml
