import Mathlib.Data.List.Enum
import TensorResize.Proofs.DotStatements

/-!
# The DOT text of a graph

The text of a graph holds one statement for each node in id order, each followed by one statement
for each edge into it. It is read back as these statements exactly if all names in it, those of
symbolic dimensions and of the modes of a run-time resize, are plain. Nothing escapes them, so a
name with a quote of its own ends the label early, and one with a line break ends the line.

## Main definitions

* `Node.names` — the texts in a node's label that are not the program's own.
* `Graph.statements` — the statements of a graph.
-/

namespace TensorResize

/-! ## Names -/

/-- The modes of a run-time resize. -/
def Instruction.names : Instruction → List String
  | resize nearestMode coordinateMode => [nearestMode, coordinateMode]
  | _ => []

def NodeKind.names : NodeKind → List String
  | instruction operation => operation.names
  | _ => []

def Dimension.names : Dimension → List String
  | known _ => []
  | symbolic name => [name]

def Shape.names (s : Shape) : List String := s.dims.flatMap Dimension.names

namespace Node

/-- The texts in the label of a node that stand there as they were given. -/
def names (n : Node) : List String := n.kind.names ++ n.shape.names

/-- The label of the node with this id. -/
def dotLabel (id : NodeId) (n : Node) : String :=
  toString id ++ ": " ++ n.kind.dotText ++ "\\n" ++ n.shape.text

/-- The statements of a node and of the edges into it, which show the position of the argument. -/
def statements (id : NodeId) (n : Node) : List Dot.Statement :=
  .node id (n.dotLabel id).toList ::
    n.sources.zipIdx.map fun (source, position) => .edge source id (toString position).toList

end Node

/-- The statements of all nodes, in id order. -/
def Graph.statements (g : Graph) : List Dot.Statement :=
  g.nodes.toList.zipIdx.flatMap fun (n, id) => n.statements id

namespace Dot

/-! ## Parts of a label -/

/-- A text that is the same to a quoted string whether a backslash stands before it or not, such as
a comma. -/
def Separates (cs : List Char) : Prop := ∀ escaped, scan escaped cs = some false

instance (cs : List Char) : Decidable (Separates cs) := inferInstanceAs (Decidable (∀ _, _))

variable {cs name rest : List Char} {texts : List String}

theorem closes_append_iff (h : Closes cs) : Closes (cs ++ rest) ↔ Closes rest := by
  rw [Closes, scan_append, h]
  rfl

/-- A separator takes a backslash at the end of a name with it, so a name has no influence on what
follows unless it ends the label. -/
theorem closes_name_iff (h : Separates cs) :
    Closes (name ++ (cs ++ rest)) ↔ IsPlain name ∧ Closes rest := by
  rw [Closes, scan_append, IsPlain]
  cases hname : scan false name with
  | none => simp
  | some escaped =>
    rw [Option.bind_some, scan_append, h escaped]
    simp [Closes]

theorem Closes.isPlain (h : Closes cs) : IsPlain cs := by
  rw [IsPlain, h]
  rfl

theorem advance_of_isDigit {c : Char} (h : c.isDigit = true) : advance false c = some false := by
  have hne {d : Char} (hd : d.isDigit = false) : c ≠ d := by
    rintro rfl
    rw [hd] at h
    cases h
  simp [advance, hne (show '\n'.isDigit = false by decide),
    hne (show '"'.isDigit = false by decide), hne (show '\\'.isDigit = false by decide)]

theorem closes_of_isDigit (h : ∀ c ∈ cs, c.isDigit = true) : Closes cs := by
  induction cs with
  | nil => rfl
  | cons c cs ih =>
    rw [List.forall_mem_cons] at h
    rw [Closes, scan_cons, advance_of_isDigit h.1]
    exact ih h.2

theorem closes_natural (n : ℕ) : Closes (toString n).toList :=
  closes_of_isDigit fun _ => isDigit_of_mem_toString

theorem closes_integer (i : Int) : Closes (toString i).toList := by
  cases i with
  | ofNat n => exact closes_natural n
  | negSucc n =>
    change Closes ("-" ++ toString (n + 1)).toList
    rw [String.toList_append, closes_append_iff (by decide)]
    exact closes_natural (n + 1)

/-- Behind every text in brackets stands a comma or a bracket. -/
theorem closes_bracketed_iff :
    Closes (bracketed texts).toList ↔ ∀ t ∈ texts, IsPlain t.toList := by
  have hlist : Closes ((", ".intercalate texts).toList ++ ("]".toList ++ [])) ↔
      ∀ t ∈ texts, IsPlain t.toList := by
    induction texts with
    | nil => exact iff_of_true rfl (List.forall_mem_nil _)
    | cons t texts ih =>
      rw [List.forall_mem_cons]
      cases texts with
      | nil =>
        rw [String.intercalate_singleton, closes_name_iff (by decide)]
        exact and_congr_right' (iff_of_true rfl (List.forall_mem_nil _))
      | cons t' texts =>
        rw [String.intercalate_cons_cons, String.toList_append, String.toList_append,
          List.append_assoc, List.append_assoc, closes_name_iff (by decide), ih]
  rw [bracketed, String.toList_append, String.toList_append, List.append_assoc,
    closes_append_iff (by decide), ← hlist, List.append_nil]

theorem closes_naturals (l : List ℕ) : Closes (bracketed (l.map toString)).toList := by
  rw [closes_bracketed_iff, List.forall_mem_map]
  exact fun n _ => (closes_natural n).isPlain

theorem closes_integers (l : List Int64) : Closes (Instruction.integers l).toList := by
  rw [Instruction.integers, closes_bracketed_iff, List.forall_mem_map]
  exact fun v _ => (closes_integer v.toInt).isPlain

/-! ## Labels -/

theorem closes_instructionText_iff (operation : Instruction) :
    Closes (operation.text.toList ++ rest) ↔
      (∀ name ∈ operation.names, IsPlain name.toList) ∧ Closes rest := by
  cases operation with
  | reshape dims =>
    have htext : (Instruction.reshape dims).text =
        "reshape[dims=" ++ Instruction.integers dims ++ "]" := rfl
    simp only [htext, String.toList_append, List.append_assoc]
    rw [closes_append_iff (by decide), closes_append_iff (closes_integers dims),
      closes_append_iff (by decide)]
    simp [Instruction.names]
  | gather axis =>
    have htext : (Instruction.gather axis).text = "gather[axis=" ++ toString axis ++ "]" := rfl
    simp only [htext, String.toList_append, List.append_assoc]
    rw [closes_append_iff (by decide), closes_append_iff (closes_natural axis),
      closes_append_iff (by decide)]
    simp [Instruction.names]
  | slice axes starts ends =>
    have htext : (Instruction.slice axes starts ends).text =
        "slice[axes=" ++ bracketed (axes.map toString) ++ ",starts=" ++
          Instruction.integers starts ++ ",ends=" ++ Instruction.integers ends ++ "]" := rfl
    simp only [htext, String.toList_append, List.append_assoc]
    rw [closes_append_iff (by decide), closes_append_iff (closes_naturals axes),
      closes_append_iff (by decide), closes_append_iff (closes_integers starts),
      closes_append_iff (by decide), closes_append_iff (closes_integers ends),
      closes_append_iff (by decide)]
    simp [Instruction.names]
  | add | sub | mul =>
    rw [closes_append_iff (by decide)]
    simp [Instruction.names]
  | resize nearestMode coordinateMode =>
    have htext : (Instruction.resize nearestMode coordinateMode).text =
        "resize[nearest_mode=" ++ nearestMode ++ ",coordinate_transformation_mode=" ++
          coordinateMode ++ "]" := rfl
    simp only [htext, String.toList_append, List.append_assoc]
    rw [closes_append_iff (by decide), closes_name_iff (by decide), closes_name_iff (by decide)]
    simp [Instruction.names, and_assoc]

theorem closes_kindText_iff (kind : NodeKind) :
    Closes (kind.dotText.toList ++ rest) ↔
      (∀ name ∈ kind.names, IsPlain name.toList) ∧ Closes rest := by
  cases kind with
  | input | undefined =>
    rw [closes_append_iff (by decide)]
    simp [NodeKind.names]
  | literal value =>
    have htext : (NodeKind.literal value).dotText =
        "literal " ++ bracketed (value.lens.map toString) := rfl
    rw [htext, String.toList_append, List.append_assoc, closes_append_iff (by decide),
      closes_append_iff (closes_naturals value.lens)]
    simp [NodeKind.names]
  | instruction operation => exact closes_instructionText_iff operation

theorem isPlain_dimensionText_iff (d : Dimension) :
    IsPlain d.text.toList ↔ ∀ name ∈ d.names, IsPlain name.toList := by
  cases d with
  | known n => exact iff_of_true (closes_natural n).isPlain (List.forall_mem_nil _)
  | symbolic name => simp [Dimension.text, Dimension.names]

theorem closes_shapeText_iff (s : Shape) :
    Closes s.text.toList ↔ ∀ name ∈ s.names, IsPlain name.toList := by
  have helement : Closes s.elementType.name.toList := by
    cases s.elementType <;> decide
  rw [Shape.text, String.toList_append, closes_append_iff helement, closes_bracketed_iff,
    List.forall_mem_map, Shape.names, List.forall_mem_flatMap]
  exact forall₂_congr fun d _ => isPlain_dimensionText_iff d

/-- The label of a node closes exactly if all names in it are plain. -/
theorem closes_dotLabel_iff (id : NodeId) (n : Node) :
    Closes (n.dotLabel id).toList ↔ ∀ name ∈ n.names, IsPlain name.toList := by
  simp only [Node.dotLabel, String.toList_append, List.append_assoc, Node.names]
  rw [closes_append_iff (closes_natural id), closes_append_iff (by decide), closes_kindText_iff,
    closes_append_iff (by decide), closes_shapeText_iff, List.forall_mem_append]

end Dot

/-! ## Texts of graphs -/

theorem Dot.labelText_append (label : List Char) : labelText label ++ ['\n'] =
    " [label=\"".toList ++ (label ++ "\"];\n".toList) := by
  have hend : "\"];\n".toList = '"' :: "];".toList ++ ['\n'] := by decide
  change " [label=\"".toList ++ (label ++ '"' :: "];".toList) ++ ['\n'] = _
  rw [hend, List.append_assoc, List.append_assoc]

theorem Node.toList_dotStatement (id : NodeId) (n : Node) : (dotStatement id n).toList =
    (Dot.Statement.node id (n.dotLabel id).toList).line ++ ['\n'] := by
  simp only [dotStatement, dotLabel, Dot.Statement.line, String.toList_append, List.append_assoc,
    Dot.labelText_append]

theorem Node.toList_dotEdge (id position : ℕ) (source : NodeId) :
    (dotEdge id position source).toList =
      (Dot.Statement.edge source id (toString position).toList).line ++ ['\n'] := by
  simp only [dotEdge, Dot.Statement.line, String.toList_append, List.append_assoc,
    Dot.labelText_append]

theorem Node.toList_dotStatements (id : NodeId) (n : Node) :
    (n.dotStatements id).flatMap String.toList =
      (n.statements id).flatMap fun s => s.line ++ ['\n'] := by
  rw [dotStatements, statements, List.flatMap_cons, List.flatMap_cons, List.flatMap_map,
    List.flatMap_map, toList_dotStatement]
  simp only [toList_dotEdge]

/-- The text of a graph is the text of its statements. -/
theorem Graph.toList_dot (g : Graph) : g.dot.toList = Dot.text g.statements := by
  rw [Graph.dot, Dot.text, String.toList_append, String.toList_append, String.toList_join,
    statements, List.flatMap_assoc, List.flatMap_assoc]
  simp only [Node.toList_dotStatements]

/-- The text of a graph is read back as the statements of its nodes and edges exactly if all names
in it are plain. -/
theorem Graph.dot_reads_back_iff (g : Graph) : Dot.read? g.dot.toList = some g.statements ↔
    ∀ n ∈ g.nodes.toList, ∀ name ∈ n.names, Dot.IsPlain name.toList := by
  have hlabels (n : Node) (id : NodeId) : (∀ s ∈ n.statements id, Dot.Closes s.label) ↔
      ∀ name ∈ n.names, Dot.IsPlain name.toList := by
    rw [Node.statements, List.forall_mem_cons, List.forall_mem_map]
    exact (and_iff_left fun _ _ => Dot.closes_natural _).trans (Dot.closes_dotLabel_iff id n)
  rw [toList_dot, Dot.read?_text_iff, statements, List.forall_mem_flatMap, List.forall_mem_zipIdx',
    List.forall_mem_iff_getElem]
  exact forall₂_congr fun id _ => hlabels _ id

/-- A quote in the name of an input's dimension makes the text of the graph unreadable. -/
theorem Graph.dot_not_reads_back_of_quote :
    let g := Graph.empty.addInput ⟨.float32, [.symbolic "a\"b"]⟩
    Dot.read? g.dot.toList ≠ some g.statements := by
  intro g h
  rw [toList_dot, Dot.read?_text_iff] at h
  have hclosed : Dot.Closes (Node.dotLabel 0 ⟨.input, [], ⟨.float32, [.symbolic "a\"b"]⟩⟩).toList :=
    h (.node 0 _) (List.mem_cons_self ..)
  rw [Dot.closes_dotLabel_iff] at hclosed
  have hplain : Dot.IsPlain "a\"b".toList := hclosed _ (List.mem_cons_self ..)
  exact absurd hplain (by decide)

end TensorResize
