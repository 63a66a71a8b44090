/-! # Blanks

The characters that Unicode counts as white space. -/

namespace OperationGraph.Text

def isBlank (c : Char) : Bool :=
  let n := c.toNat
  (9 ≤ n && n ≤ 13) || n = 0x20 || n = 0x85 || n = 0xA0 || n = 0x1680
    || (0x2000 ≤ n && n ≤ 0x200A) || n = 0x2028 || n = 0x2029 || n = 0x202F || n = 0x205F
    || n = 0x3000

/-- A text without white space at both ends. -/
def trimBlanks (s : String) : String :=
  String.ofList ((s.toList.dropWhile isBlank).reverse.dropWhile isBlank).reverse

def splitAt (sep : Char) (cs : List Char) : List (List Char) :=
  cs.foldr (fun c acc =>
    if c = sep then [] :: acc
    else
      match acc with
      | [] => [[c]]
      | part :: rest => (c :: part) :: rest) [[]]

def split (sep : Char) (s : String) : List String := (splitAt sep s.toList).map String.ofList

end OperationGraph.Text
