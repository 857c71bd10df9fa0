import TensorResize.Graph.Basic

/-!
# Constants in a graph

A literal is a constant, and a reshape of a constant is the same buffer under other lengths. No other
node folds.

## Main definitions

* `Graph.constant?` — the constant a node folds to.
* `Graph.evaluate` — the same for a node that has to be there.
-/

namespace TensorResize.Graph

/-- The constant a node folds to. A reshape takes its lengths from its shape, all of which have to
be known. Its source is an earlier node; the test that it is makes the recursion end. -/
def constant? (g : Graph) (id : NodeId) : Option Literal :=
  match g.nodes[id]? with
  | some ⟨.literal value, _, _⟩ => some value
  | some ⟨.instruction (.reshape _), source :: _, shape⟩ =>
    if source < id then do
      let value ← g.constant? source
      let lens ← shape.lens?
      return value.withLens lens
    else none
  | _ => none
termination_by id

/-- The constant a node of the graph folds to, if it does. -/
def evaluate (g : Graph) (id : NodeId) : Except GraphFault (Option Literal) := do
  let _ ← g.node id
  return g.constant? id

end TensorResize.Graph
