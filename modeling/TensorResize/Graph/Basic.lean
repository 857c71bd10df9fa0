import TensorResize.Graph.Program

/-!
# Graphs

A graph holds its nodes in the order in which they were added; a node id is a position in that
order. Nodes are never changed or removed. The shape of an instruction's result is inferred when the
instruction is added, from the shapes of the inputs its rule reads. An instruction whose rule reads
a node or an axis that is not there cannot be added, and the graph stays as it was.

## Main definitions

* `Node`, `Graph`, `GraphFault`.
* `Graph.inferShape` — the shape of an instruction's result.
* `Graph.add` — one call, `Graph.append` — a whole program.
-/

namespace TensorResize

/-- What a node is. -/
inductive NodeKind where
  /-- A value given when the graph runs. -/
  | input
  /-- An optional input that was left out. -/
  | undefined
  | literal (value : Literal)
  | instruction (operation : Instruction)
  deriving DecidableEq

/-- A node with the nodes it reads, in argument order, and the shape of its value. -/
structure Node where
  kind : NodeKind
  sources : List NodeId
  shape : Shape
  deriving DecidableEq

/-- A reference to something that is not there. -/
inductive GraphFault where
  | unknownNode (id : NodeId)
  /-- An instruction without the input at this position. -/
  | missingInput (position : Nat)
  | axisOutOfRange (axis rank : Nat)
  deriving DecidableEq

/-- The number of positions below `len` that a slice from `start` to `stop` keeps. Bounds are
clamped to the axis, and a reversed slice keeps nothing. -/
def keptLength (len : Nat) (start stop : Int64) : Nat :=
  min stop.toInt.toNat len - min start.toInt.toNat len

/-- The dimensions after a slice along one axis. A symbolic dimension stays. -/
def sliceAxis (dims : List Dimension) (axis : Nat) (start stop : Int64) :
    Except GraphFault (List Dimension) :=
  match dims[axis]? with
  | none => .error (.axisOutOfRange axis dims.length)
  | some (.symbolic _) => .ok dims
  | some (.known len) => .ok (dims.set axis (.known (keptLength len start stop)))

/-- The dimensions after slices along several axes, one after the other. -/
def sliceAxes (dims : List Dimension) (axes : List Nat) (starts ends : List Int64) :
    Except GraphFault (List Dimension) :=
  (axes.zip (starts.zip ends)).foldlM (fun dims cut => sliceAxis dims cut.1 cut.2.1 cut.2.2) dims

/-- The name of the length of one axis of a resize that runs with the graph, from the resize's node
id and the axis. -/
def runtimeLengthName (id : NodeId) (axis : Nat) : String :=
  "resize" ++ toString id ++ "_" ++ toString axis

/-- Nodes in the order in which they were added, and the ids of the run-time inputs. -/
structure Graph where
  nodes : Array Node
  inputs : List NodeId
  deriving DecidableEq

namespace Graph

/-- The graph without nodes. -/
def empty : Graph := ⟨#[], []⟩

def size (g : Graph) : Nat := g.nodes.size

def isEmpty (g : Graph) : Bool := g.nodes.isEmpty

/-- The node with this id. -/
def node (g : Graph) (id : NodeId) : Except GraphFault Node :=
  match g.nodes[id]? with
  | some n => .ok n
  | none => .error (.unknownNode id)

/-- The shape of the node with this id. -/
def shape (g : Graph) (id : NodeId) : Except GraphFault Shape := do return (← g.node id).shape

/-- The graph with one more node, which gets the id `g.size`. -/
def push (g : Graph) (n : Node) : Graph := ⟨g.nodes.push n, g.inputs⟩

/-- Adds a run-time input. -/
def addInput (g : Graph) (shape : Shape) : Graph :=
  ⟨g.nodes.push ⟨.input, [], shape⟩, g.inputs ++ [g.size]⟩

/-- Adds the placeholder of an optional input that was left out. -/
def addUndefined (g : Graph) : Graph := g.push ⟨.undefined, [], .scalar .float32⟩

/-- Adds a constant. -/
def addLiteral (g : Graph) (value : Literal) : Graph := g.push ⟨.literal value, [], value.shape⟩

/-- The shape of the input at a position of an instruction's input list. -/
def inputShape (g : Graph) (inputs : List NodeId) (position : Nat) : Except GraphFault Shape :=
  match inputs[position]? with
  | some id => g.shape id
  | none => .error (.missingInput position)

/-- The shape of an instruction's result. Every rule reads the first input, and `gather` the second
as well; the others leave it unread. -/
def inferShape (g : Graph) (operation : Instruction) (inputs : List NodeId) :
    Except GraphFault Shape := do
  let first ← g.inputShape inputs 0
  match operation with
  | .reshape dims => return ⟨first.elementType, dims.map fun d => .known d.toInt.toNat⟩
  | .gather axis =>
    let indices ← g.inputShape inputs 1
    if axis < first.rank then
      return ⟨first.elementType, first.dims.take axis ++ indices.dims ++ first.dims.drop (axis + 1)⟩
    else throw (.axisOutOfRange axis first.rank)
  | .slice axes starts ends => return ⟨first.elementType, ← sliceAxes first.dims axes starts ends⟩
  | .add | .sub | .mul => return first
  | .resize .. =>
    return ⟨first.elementType,
      (List.range first.rank).map fun axis => .symbolic (runtimeLengthName g.size axis)⟩

/-- Adds an instruction. -/
def addInstruction (g : Graph) (operation : Instruction) (inputs : List NodeId) :
    Except GraphFault Graph := do
  let shape ← g.inferShape operation inputs
  return g.push ⟨.instruction operation, inputs, shape⟩

/-- Makes one call of a program. -/
def add (g : Graph) : Call NodeId → Except GraphFault Graph
  | .literal value => .ok (g.addLiteral value)
  | .instruction operation inputs => g.addInstruction operation inputs

/-- Runs a program, whose calls get the next free ids, and returns the id of its result. -/
def append (g : Graph) (p : Program) : Except GraphFault (Graph × NodeId) := do
  let ids := (g.size + ·)
  return (← (p.place ids).foldlM add g, p.result ids)

@[simp] theorem size_push (g : Graph) (n : Node) : (g.push n).size = g.size + 1 := by
  simp [push, size]

@[simp] theorem size_addInput (g : Graph) (shape : Shape) :
    (g.addInput shape).size = g.size + 1 := by simp [addInput, size]

end Graph

end TensorResize
