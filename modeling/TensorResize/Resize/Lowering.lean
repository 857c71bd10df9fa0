import TensorResize.Resize.Plan

/-!
# Lowering

The program of a plan, and the parser for resize nodes made of it.

## Main definitions

* `ResizePlan.program` — the calls a plan stands for.
* `lowerResize` — the program of a node.
* `resizeParser`, `Registry.standard`.
-/

namespace TensorResize

namespace ResizePlan

/-- The rows from `start` to `stop` along the leading axis. -/
def rowSlice (start stop : Int64) : Instruction := .slice [0] [start] [stop]

/-- The calls that flatten the source and gather from it; the gather is the third. -/
def gatherCalls (data : NodeId) (total : Nat) (indices : Literal) : List (Call Operand) :=
  [.instruction (.reshape [Int64.ofNat total]) [.node data],
   .literal indices,
   .instruction (.gather 0) [.result 0, .result 1]]

/-- The calls that blend the result of call `current`, the last one so far, step by step: with the
weights `w`, the lower half `l` and the upper half `h`, a step computes `(h - l) * w + l`. -/
def blendCalls (current : Nat) : List BlendStep → List (Call Operand)
  | [] => []
  | step :: rest =>
    let rows := Int64.ofNat step.rows
    [.literal step.weights,
     .instruction (rowSlice 0 rows) [.result current],
     .instruction (rowSlice rows (2 * rows)) [.result current],
     .instruction .sub [.result (current + 3), .result (current + 2)],
     .instruction .mul [.result (current + 4), .result (current + 1)],
     .instruction .add [.result (current + 5), .result (current + 2)]] ++
      blendCalls (current + 6) rest

/-- The calls a plan stands for. -/
def program : ResizePlan → Program
  | runtime data (.existing id) instruction => ⟨[.instruction instruction [.node data, .node id]]⟩
  | runtime data (.constant scales) instruction =>
    ⟨[.literal scales, .instruction instruction [.node data, .result 0]]⟩
  | nearest data total indices => ⟨gatherCalls data total indices⟩
  | linear data total indices blend => ⟨gatherCalls data total indices ++ blendCalls 2 blend⟩

end ResizePlan

/-- The program of a resize node. -/
def lowerResize (o : Operator) (args : List Argument) (settings : LoweringSettings) :
    Except LoweringError Program :=
  (planResize o args settings).map ResizePlan.program

/-- The parser for resize nodes and for the older nodes that only enlarge. -/
def resizeParser : Parser := ⟨["Resize", "Upsample"], lowerResize⟩

/-- The registry with every parser of this library. -/
def Registry.standard : Registry := .register .empty resizeParser

end TensorResize
