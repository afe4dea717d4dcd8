import MdxPages.Json.Reader
import MdxPages.Json.Writer
import MdxPages.Tree.Json

/-!
# Tree/JsonText — trees as JSON texts

A tree is written as its JSON value, on one line or indented, and read back from any JSON text.
What holds a scalar without a JSON form is not written, nor is anything with a margin whose blanks
cannot be counted.  How much fits into memory is not asked.
-/

namespace MdxPages.Node

/-- Whether the blanks of a margin can be counted: their number, also if it is below zero, fits into
64 bits. -/
def isMargin (i : Int) : Bool :=
  Int64.minValue.toInt ≤ i && i ≤ Int64.maxValue.toInt

/-- A tree as a JSON text. -/
def toJson (indent : Option Int) (n : Node) : Except Failure String :=
  if indent.all isMargin then (Json.dump (.indented indent) n.toValue).mapError .fault
  else .error (.fault .unfitMargin)

/-- The tree that a JSON text stands for. -/
def ofJson (text : String) : Except Failure Node := do
  ofValue (← (Json.read text).mapError (.ofProblem .invalidJsonText))

end MdxPages.Node
