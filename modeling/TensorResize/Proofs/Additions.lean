import TensorResize.Proofs.Sources

/-!
# How nodes were added

Every node of a graph was the last one once. The graph of that time holds the nodes before it, so
its size is the id of the node, and the node was a run-time input, a placeholder, or made by a call
whose shape could be inferred there. No step takes this back.

## Main definitions

* `Graph.Adds` — the nodes that can be added to a graph.
* `Graph.IsBuilt` — every node was added to the graph of the nodes before it.
-/

namespace TensorResize

variable {g g' : Graph} {n : Node} {id : NodeId} {c : Call NodeId}

namespace Graph

/-- What can be added to the graph as its next node. -/
inductive Adds (g : Graph) : Node → Prop where
  | input (shape : Shape) : Adds g ⟨.input, [], shape⟩
  | undefined : Adds g ⟨.undefined, [], .scalar .float32⟩
  | call {c : Call NodeId} {shape : Shape} (hshape : g.callShape c = .ok shape) :
      Adds g ⟨c.kind, c.inputs, shape⟩

/-- Every node was added to a graph of as many nodes as its id says, which are still there. -/
def IsBuilt (g : Graph) : Prop :=
  ∀ id (n : Node), g.nodes[id]? = some n →
    ∃ before : Graph, before.GrowsTo g ∧ before.size = id ∧ before.Adds n

theorem isBuilt_empty : Graph.empty.IsBuilt :=
  fun id _ hn => absurd (lt_size_of_getElem? hn) (Nat.not_lt_zero id)

theorem IsBuilt.push (hg : g.IsBuilt) (hn : g.Adds n) : (g.push n).IsBuilt := by
  refine forall_getElem?_push.2 ⟨?_, g, .push g n, rfl, hn⟩
  intro id m hm
  obtain ⟨before, hgrows, hadds⟩ := hg id m hm
  exact ⟨before, hgrows.trans (.push g n), hadds⟩

theorem IsBuilt.add (hg : g.IsBuilt) (h : g.add c = .ok g') : g'.IsBuilt := by
  obtain ⟨shape, hshape, rfl⟩ := add_eq_ok.1 h
  exact hg.push (.call hshape)

end Graph

theorem Step.Does.isBuilt {s : Step} {r : Graph × Outcome} (h : s.Does g r) (hg : g.IsBuilt) :
    r.1.IsBuilt := by
  cases h with
  | input shape => exact hg.push (.input shape)
  | undefined => exact hg.push .undefined
  | call hshape => exact hg.push (.call hshape)
  | lower hs hargs hplan hperform =>
    exact Graph.perform_preserves (fun hadd hg => hg.add hadd) hperform hg
  | refuse e => exact hg
  | fault fault => exact hg

namespace Graph

/-- A graph that was built from nothing is one of which every node was added. -/
theorem isBuilt_run (steps : List Step) : (Graph.empty.run steps).IsBuilt :=
  run_preserves (fun _ s => (s.does_apply _).isBuilt) steps isBuilt_empty

/-! ## What follows for a node -/

/-- The shape of a node that can be added is inferred from nodes that are there. -/
theorem Adds.lt_size {position : ℕ} {source : NodeId} (h : g.Adds n)
    (hposition : n.kind.Infers position) (hsource : n.sources[position]? = some source) :
    source < g.size := by
  cases h with
  | input shape => cases hsource
  | undefined => cases hsource
  | call hshape => exact lt_size_of_callShape hshape hposition hsource

theorem IsBuilt.infersEarlier (hg : g.IsBuilt) : g.InfersEarlier := by
  intro id n hn position source hposition hsource
  obtain ⟨before, -, rfl, hadds⟩ := hg id n hn
  exact hadds.lt_size hposition hsource

/-- A rule that infers a shape reads the first input. -/
theorem exists_first_of_inferShape {operation : Instruction} {inputs : List NodeId} {shape : Shape}
    (h : g.inferShape operation inputs = .ok shape) :
    ∃ source rest m, inputs = source :: rest ∧ g.nodes[source]? = some m := by
  simp only [inferShape, bind_eq_ok] at h
  obtain ⟨first, hfirst, -⟩ := h
  cases inputs with
  | nil => cases hfirst
  | cons source rest =>
    simp only [inputShape, List.getElem?_cons_zero, Graph.shape, bind_eq_ok, node_eq_ok] at hfirst
    obtain ⟨m, hm, -⟩ := hfirst
    exact ⟨source, rest, m, rfl, hm⟩

namespace IsBuilt

variable (hg : g.IsBuilt) (hn : g.nodes[id]? = some n)
include hg hn

/-- A constant has the shape of its value. -/
theorem shape_of_literal {value : Literal} (hkind : n.kind = .literal value) :
    n.shape = value.shape := by
  obtain ⟨before, -, -, hadds⟩ := hg id n hn
  cases hadds with
  | input shape => cases hkind
  | undefined => cases hkind
  | @call c shape hshape =>
    cases c with
    | instruction operation inputs => cases hkind
    | literal value' =>
      cases hkind
      exact (Except.ok.inj hshape).symm

/-- The shape of an instruction was inferred from the nodes before it. -/
theorem inferShape_eq {operation : Instruction} (hkind : n.kind = .instruction operation) :
    ∃ before : Graph, before.GrowsTo g ∧ before.size = id ∧
      before.inferShape operation n.sources = .ok n.shape := by
  obtain ⟨before, hgrows, hsize, hadds⟩ := hg id n hn
  cases hadds with
  | input shape => cases hkind
  | undefined => cases hkind
  | @call c shape hshape =>
    cases c with
    | literal value => cases hkind
    | instruction operation' inputs =>
      cases hkind
      exact ⟨before, hgrows, hsize, hshape⟩

/-- An instruction reads an earlier node first. Its shape was inferred when that node was there. -/
theorem exists_source_of_instruction {operation : Instruction}
    (hkind : n.kind = .instruction operation) :
    ∃ source rest m, n.sources = source :: rest ∧ source < id ∧ g.nodes[source]? = some m ∧
      ∃ before : Graph, before.size = id ∧ before.nodes[source]? = some m ∧
        before.inferShape operation (source :: rest) = .ok n.shape := by
  obtain ⟨before, hgrows, rfl, hshape⟩ := hg.inferShape_eq hn hkind
  obtain ⟨source, rest, m, hsources, hm⟩ := exists_first_of_inferShape hshape
  rw [hsources] at hshape
  exact ⟨source, rest, m, hsources, lt_size_of_getElem? hm, hgrows.getElem? hm, before, rfl, hm,
    hshape⟩

/-- A reshape reads an earlier node first. It has the element type of that node, and all of its
lengths are known. -/
theorem exists_source_of_reshape {dims : List Int64}
    (hkind : n.kind = .instruction (.reshape dims)) :
    ∃ source rest m, n.sources = source :: rest ∧ source < id ∧ g.nodes[source]? = some m ∧
      n.shape = .ofLens m.shape.elementType (dims.map fun d => d.toInt.toNat) := by
  obtain ⟨source, rest, m, hsources, hlt, hm, before, -, hbefore, hshape⟩ :=
    hg.exists_source_of_instruction hn hkind
  refine ⟨source, rest, m, hsources, hlt, hm, ?_⟩
  rw [inferShape, inputShape_zero hbefore] at hshape
  rw [Shape.ofLens, List.map_map]
  exact (Except.ok.inj hshape).symm

end IsBuilt

end Graph

end TensorResize
