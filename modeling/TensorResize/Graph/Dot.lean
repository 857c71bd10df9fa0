import TensorResize.Graph.Basic

/-!
# DOT export

A graph as a DOT text: a fixed header, then one statement per node in id order, each followed by one
statement per edge into it, labelled with its argument position. Labels hold dimension names and
mode names as they are, without escapes.
-/

namespace TensorResize

/-- What a node is, as its DOT label shows it. -/
def NodeKind.dotText : NodeKind → String
  | input => "input"
  | undefined => "undefined"
  | literal value => "literal " ++ bracketed (value.lens.map toString)
  | instruction operation => operation.text

namespace Node

/-- The statement of the node with this id. -/
def dotStatement (id : NodeId) (n : Node) : String :=
  "  n" ++ toString id ++ " [label=\"" ++ toString id ++ ": " ++ n.kind.dotText ++ "\\n" ++
    n.shape.text ++ "\"];\n"

/-- The statement of the edge from `source` to argument `position` of the node with this id. -/
def dotEdge (id position : Nat) (source : NodeId) : String :=
  "  n" ++ toString source ++ " -> n" ++ toString id ++ " [label=\"" ++ toString position ++
    "\"];\n"

/-- The statements of a node and of the edges into it. -/
def dotStatements (id : NodeId) (n : Node) : List String :=
  dotStatement id n :: n.sources.zipIdx.map fun (source, position) => dotEdge id position source

end Node

/-- The lines before the first node. -/
def dotHeader : String := "digraph G \x7b\n  rankdir=LR;\n  node [shape=box];\n\n"

/-- The line after the last node. -/
def dotFooter : String := "\x7d\n"

/-- The text of the graph in the DOT language. -/
def Graph.dot (g : Graph) : String :=
  dotHeader ++ String.join (g.nodes.toList.zipIdx.flatMap fun (n, id) => n.dotStatements id) ++
    dotFooter

end TensorResize
