import TensorResize.Operator.Attribute
import TensorResize.Text.Uppercase

/-!
# Operator nodes

What is known of an imported node apart from its arguments.
-/

namespace TensorResize

/-- An operator node: its type, such as `Resize`, and its attributes. -/
structure Operator where
  type : String
  attributes : AttributeMap

namespace Operator

/-- The label of the node in error messages: its type in upper case. -/
def tag (o : Operator) : String := uppercase o.type

end Operator

end TensorResize
