import TensorResize.Text.Bracketed

/-!
# Instructions

The instructions a resize is lowered to: movement of elements, arithmetic, and one resize that runs
with the graph.
-/

namespace TensorResize

/-- An instruction with its static parameters. -/
inductive Instruction where
  /-- The same elements under new dimensions. -/
  | reshape (dims : List Int64)
  /-- The slices of the first input along `axis` that the second input selects. -/
  | gather (axis : Nat)
  /-- The part between a start and an end along each of `axes`. -/
  | slice (axes : List Nat) (starts ends : List Int64)
  | add
  | sub
  | mul
  /-- A resize at run time, whose second input holds scales or lengths by its element type. -/
  | resize (nearestMode coordinateMode : String)
  deriving DecidableEq

namespace Instruction

def name : Instruction → String
  | reshape _ => "reshape"
  | gather _ => "gather"
  | slice .. => "slice"
  | add => "add"
  | sub => "sub"
  | mul => "mul"
  | resize .. => "resize"

/-- The number of inputs. -/
def arity : Instruction → Nat
  | reshape _ | slice .. => 1
  | gather _ | add | sub | mul | resize .. => 2

/-- A list of integers in brackets. -/
def integers (values : List Int64) : String := bracketed (values.map fun v => toString v.toInt)

/-- The name, followed by the parameters if there are any. -/
def text : Instruction → String
  | reshape dims => "reshape[dims=" ++ integers dims ++ "]"
  | gather axis => "gather[axis=" ++ toString axis ++ "]"
  | slice axes starts ends =>
    "slice[axes=" ++ bracketed (axes.map toString) ++ ",starts=" ++ integers starts ++
      ",ends=" ++ integers ends ++ "]"
  | resize nearestMode coordinateMode =>
    "resize[nearest_mode=" ++ nearestMode ++ ",coordinate_transformation_mode=" ++
      coordinateMode ++ "]"
  | i => i.name

end Instruction

end TensorResize
