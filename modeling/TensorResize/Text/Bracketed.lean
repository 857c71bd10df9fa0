/-!
# Bracketed lists

How a list is written inside labels and displayed parameters.
-/

namespace TensorResize

/-- The texts in square brackets, with a comma and a space between neighbours. -/
def bracketed (texts : List String) : String := "[" ++ ", ".intercalate texts ++ "]"

end TensorResize
