import OperationGraph.Text.Utf8

/-! # Lists in one text

The items of a list are separated by commas. An item between quotes may hold commas, and a quote in it is
written twice. -/

namespace OperationGraph.Text

inductive SeparatedFault where
  | empty
  | bareQuote (column : Nat)
  | quote (column : Nat)
deriving DecidableEq, Repr

def SeparatedFault.message : SeparatedFault → String
  | empty => "EOF"
  | bareQuote column =>
    "parse error on line 1, column " ++ toString column ++ ": bare \" in non-quoted-field"
  | quote column =>
    "parse error on line 1, column " ++ toString column
      ++ ": extraneous or missing \" in quoted-field"

inductive SeparatedState where
  /-- Before an item. -/
  | start
  /-- In an item without quotes. -/
  | plain
  /-- In an item between quotes. -/
  | quoted
  /-- After a quote in such an item. -/
  | closed
deriving DecidableEq, Repr

/-- Reads the rest of a list; `item` and `items` are what has been read, reversed, and columns count
bytes. A line break outside quotes ends the list. -/
def readSeparated (column : Nat) (items : List String) (item : List Char) :
    SeparatedState → List Char → Except SeparatedFault (List String)
  | .quoted, [] => .error (.quote column)
  | _, [] => .ok ((String.ofList item.reverse :: items).reverse)
  | state, c :: rest =>
    let next := column + (charBytes c).length
    match state with
    | .quoted =>
      if c = '"' then readSeparated next items item .closed rest
      else readSeparated next items (c :: item) .quoted rest
    | state =>
      if c = '"' then
        match state with
        | .start => readSeparated next items item .quoted rest
        | .closed => readSeparated next items (c :: item) .quoted rest
        | _ => .error (.bareQuote column)
      else if c = ',' then readSeparated next (String.ofList item.reverse :: items) [] .start rest
      else if c = '\n' then .ok ((String.ofList item.reverse :: items).reverse)
      else if state = .closed then .error (.quote (column - 1))
      else readSeparated next items (c :: item) .plain rest

/-- The items of a list; an empty text has none. -/
def separated (s : String) : Except SeparatedFault (List String) :=
  if s = "" then .ok []
  else
    match s.toList.dropWhile (· = '\n') with
    | [] => .error .empty
    | cs => readSeparated 1 [] [] .start cs

end OperationGraph.Text
