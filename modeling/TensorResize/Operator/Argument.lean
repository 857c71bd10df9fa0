import TensorResize.Graph.Constant

/-!
# Arguments

An argument is a snapshot of a node: its shape, and its value if the node folds to a constant. It
stays valid while the graph grows.

## Main definitions

* `Argument` — the snapshot.
* `Graph.argument`, `Graph.arguments` — the snapshots of nodes.
-/

namespace TensorResize

/-- What an operator sees of one of its inputs. -/
structure Argument where
  id : NodeId
  shape : Shape
  /-- Whether this is the placeholder of an optional input that was left out. -/
  undefined : Bool
  /-- The value, if it is known without running the graph. -/
  value : Option Literal
  deriving DecidableEq

namespace Argument

/-- An argument that is present. -/
def ofShape (id : NodeId) (shape : Shape) (value : Option Literal) : Argument :=
  ⟨id, shape, false, value⟩

/-- The placeholder of an optional input that was left out. -/
def placeholder (id : NodeId) : Argument := ⟨id, .scalar .float32, true, none⟩

end Argument

namespace Graph

/-- The snapshot of a node. -/
def argument (g : Graph) (id : NodeId) : Except GraphFault Argument := do
  let node ← g.node id
  return ⟨id, node.shape, node.kind = .undefined, g.constant? id⟩

/-- The snapshots of several nodes, in order. -/
def arguments (g : Graph) (ids : List NodeId) : Except GraphFault (List Argument) :=
  ids.mapM g.argument

end Graph

end TensorResize
