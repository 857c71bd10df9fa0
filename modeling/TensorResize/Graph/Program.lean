import TensorResize.Graph.Instruction
import TensorResize.Tensor.Literal

/-!
# Straight-line programs

A lowering does not touch a graph. It yields a program: a list of calls, each of which adds one
literal or one instruction, whose operands are nodes that exist already or results of earlier calls.
A builder is known by the node ids it hands out, call by call; placing a program under such ids
gives the nodes to add.

## Main definitions

* `Operand`, `Call`, `Program`.
* `Program.place` — the calls with every operand turned into a node id.
* `Program.result` — the id of the node the program computes, which is that of its last call.
-/

namespace TensorResize

/-- The place of a node in its graph. -/
abbrev NodeId := Nat

/-- How a node id is written. -/
def nodeText (id : NodeId) : String := "@" ++ toString id

/-- An operand of a call. -/
inductive Operand where
  /-- A node that is there before the program runs. -/
  | node (id : NodeId)
  /-- The node added by an earlier call, counted from zero. -/
  | result (call : Nat)
  deriving DecidableEq

/-- The node an operand stands for, if the `k`-th call adds node `ids k`. -/
def Operand.place (ids : Nat → NodeId) : Operand → NodeId
  | node id => id
  | result call => ids call

/-- The addition of one node, with operands of type `ι`. -/
inductive Call (ι : Type) where
  | literal (value : Literal)
  | instruction (operation : Instruction) (inputs : List ι)
  deriving DecidableEq

namespace Call

variable {ι κ : Type}

/-- The same call with other operands. -/
def map (f : ι → κ) : Call ι → Call κ
  | literal value => literal value
  | instruction operation inputs => instruction operation (inputs.map f)

/-- The operands, in order. -/
def inputs : Call ι → List ι
  | literal _ => []
  | instruction _ inputs => inputs

/-- The call as a line of a listing, without the id it defines. -/
def text : Call NodeId → String
  | literal value => "literal " ++ value.shape.text
  | instruction operation inputs => " ".intercalate (operation.text :: inputs.map nodeText)

end Call

/-- Calls in the order in which they are made. -/
structure Program where
  calls : List (Call Operand)
  deriving DecidableEq

namespace Program

/-- The calls under the node ids that are handed out for them. -/
def place (p : Program) (ids : Nat → NodeId) : List (Call NodeId) :=
  p.calls.map (Call.map (Operand.place ids))

/-- The id of the last node added. -/
def result (p : Program) (ids : Nat → NodeId) : NodeId := ids (p.calls.length - 1)

/-- One line per call, under consecutive ids from `first`. -/
def listing (p : Program) (first : NodeId) : List String :=
  (p.place (first + ·)).zipIdx.map fun (call, k) => nodeText (first + k) ++ " = " ++ call.text

end Program

end TensorResize
