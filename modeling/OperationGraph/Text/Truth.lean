import OperationGraph.Text.Quoted

/-! # Truth values in settings -/

namespace OperationGraph.Text

def truth? (s : String) : Option Bool :=
  if ["1", "t", "T", "true", "TRUE", "True"].contains s then some true
  else if ["0", "f", "F", "false", "FALSE", "False"].contains s then some false
  else none

/-- What is wrong with a text that names no truth value. -/
def truthFault (s : String) : String :=
  "strconv.ParseBool: parsing " ++ quoted s ++ ": invalid syntax"

end OperationGraph.Text
