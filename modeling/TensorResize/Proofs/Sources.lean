import TensorResize.Proofs.Operands
import TensorResize.Proofs.Steps

/-!
# Sources of nodes

The ids of the sources of a node are positions of nodes that were there before it, as far as they
are looked at when the node is added. An instruction's first source is, and so is the second source
of a gather. The second source of any other instruction is taken as it is given: it may be the node
itself, or one that is added later or never.

A lowering passes only nodes of the graph and results of its own earlier calls. So the nodes of a
graph read earlier nodes exactly if the client never added an instruction with an operand that was
not there.

## Main definitions

* `Graph.ReadsEarlier` — every node reads earlier nodes.
* `Graph.InfersEarlier` — the shape of every node is inferred from those of earlier nodes.
* `CallsEarlier` — calls that read nodes below a size and results of earlier calls.
-/

namespace TensorResize

variable {g g' : Graph} {n : Node} {id source : NodeId} {c : Call NodeId}
  {calls : List (Call NodeId)}

/-- Whether the shape of a node of this kind is inferred from that of its source at `position`. -/
def NodeKind.Infers (k : NodeKind) (position : ℕ) : Prop :=
  position = 0 ∨ position = 1 ∧ ∃ axis, k = .instruction (.gather axis)

namespace Graph

/-- The sources of every node were added before it. -/
def ReadsEarlier (g : Graph) : Prop :=
  ∀ id (n : Node), g.nodes[id]? = some n → ∀ source ∈ n.sources, source < id

/-- The sources that the shape of a node is inferred from were added before it. -/
def InfersEarlier (g : Graph) : Prop :=
  ∀ id (n : Node), g.nodes[id]? = some n →
    ∀ position source, n.kind.Infers position → n.sources[position]? = some source → source < id

theorem readsEarlier_push :
    (g.push n).ReadsEarlier ↔ g.ReadsEarlier ∧ ∀ source ∈ n.sources, source < g.size :=
  forall_getElem?_push

theorem InfersEarlier.push (hg : g.InfersEarlier)
    (hn : ∀ position source, n.kind.Infers position → n.sources[position]? = some source →
      source < g.size) : (g.push n).InfersEarlier :=
  forall_getElem?_push.2 ⟨hg, hn⟩

/-- On such a graph a constant is folded through a reshape without a look at where its source is. -/
theorem InfersEarlier.constant?_reshape {dims : List Int64} {rest : List NodeId} {shape : Shape}
    (hg : g.InfersEarlier)
    (hn : g.nodes[id]? = some ⟨.instruction (.reshape dims), source :: rest, shape⟩) :
    g.constant? id = do
      let value ← g.constant? source
      let lens ← shape.lens?
      return value.withLens lens := by
  have hsource : source < id := hg id _ hn 0 source (.inl rfl) rfl
  rw [constant?, hn]
  exact if_pos hsource

/-! ## Sources that are looked at -/

theorem lt_size_of_inputShape {inputs : List NodeId} {position : ℕ} {shape : Shape}
    (h : g.inputShape inputs position = .ok shape) (hsource : inputs[position]? = some source) :
    source < g.size := by
  simp only [inputShape, hsource, Graph.shape, bind_eq_ok, node_eq_ok] at h
  obtain ⟨n, hn, -⟩ := h
  exact lt_size_of_getElem? hn

/-- The shape of a call is inferred from nodes of the graph. -/
theorem lt_size_of_callShape {shape : Shape} {position : ℕ} (h : g.callShape c = .ok shape)
    (hposition : c.kind.Infers position) (hsource : c.inputs[position]? = some source) :
    source < g.size := by
  cases c with
  | literal value => cases hsource
  | instruction operation inputs =>
    simp only [callShape, inferShape, bind_eq_ok] at h
    obtain ⟨first, hfirst, h⟩ := h
    rcases hposition with rfl | ⟨rfl, axis, hgather⟩
    · exact lt_size_of_inputShape hfirst hsource
    · cases hgather
      simp only [bind_eq_ok] at h
      obtain ⟨indices, hindices, -⟩ := h
      exact lt_size_of_inputShape hindices hsource

theorem InfersEarlier.add (hg : g.InfersEarlier) (h : g.add c = .ok g') : g'.InfersEarlier := by
  obtain ⟨shape, hshape, rfl⟩ := add_eq_ok.1 h
  exact hg.push fun position source => lt_size_of_callShape hshape

end Graph

/-! ## Sources of lowered nodes -/

/-- Calls that read nodes below `size` and the results of earlier ones among them, if the first of
them adds node `size`. -/
def CallsEarlier : ℕ → List (Call NodeId) → Prop
  | _, [] => True
  | size, c :: calls => (∀ source ∈ c.inputs, source < size) ∧ CallsEarlier (size + 1) calls

/-- Calls that read nodes below `size` and earlier results do so under the ids from `size` on. -/
theorem ReadsBack.callsEarlier {nodes : List NodeId} {size made : ℕ}
    {operands : List (Call Operand)}
    (h : ReadsBack nodes made operands) (hnodes : ∀ id ∈ nodes, id < size) :
    CallsEarlier (size + made) (operands.map (Call.map (Operand.place (size + ·)))) := by
  induction operands generalizing made with
  | nil => trivial
  | cons c operands ih =>
    refine ⟨?_, ih h.2⟩
    cases c with
    | literal value => exact nofun
    | instruction operation inputs =>
      intro source hsource
      obtain ⟨x, hx, rfl⟩ := List.mem_map.1 hsource
      have hback := h.1 x hx
      cases x with
      | node id => exact Nat.lt_add_right made (hnodes id hback)
      | result call => exact Nat.add_lt_add_left hback size

/-- Calls that can all be made add nodes that read earlier ones, if that is what the calls do. -/
theorem Graph.readsEarlier_perform (h : g.perform calls = (g', none)) :
    g'.ReadsEarlier ↔ g.ReadsEarlier ∧ CallsEarlier g.size calls := by
  induction calls generalizing g with
  | nil =>
    cases h
    simp [CallsEarlier]
  | cons c calls ih =>
    cases hadd : g.add c with
    | error fault => simp [perform, hadd] at h
    | ok g₁ =>
      rw [perform_cons hadd] at h
      obtain ⟨shape, -, rfl⟩ := add_eq_ok.1 hadd
      rw [ih h, readsEarlier_push, size_push, CallsEarlier, and_assoc]

/-- A plan reads its nodes of the graph and results of its own earlier calls. -/
theorem ResizePlan.callsEarlier_program {plan : ResizePlan} {size : ℕ}
    (h : ∀ id ∈ plan.reads, id < size) : CallsEarlier size (plan.program.place (size + ·)) :=
  plan.readsBack_program.callsEarlier h

/-! ## Runs -/

/-- The operands that a step is given for the instruction it adds. -/
def Step.operands : Step → List NodeId
  | call c => c.inputs
  | _ => []

namespace Step.Does

variable {s : Step} {r : Graph × Outcome}

theorem infersEarlier (h : s.Does g r) (hg : g.InfersEarlier) : r.1.InfersEarlier := by
  cases h with
  | input shape =>
    have hpush : (g.push ⟨.input, [], shape⟩).InfersEarlier := hg.push (by simp)
    exact hpush
  | undefined => exact hg.push (by simp)
  | call hshape => exact hg.push fun position source => Graph.lt_size_of_callShape hshape
  | lower hs hargs hplan hperform =>
    exact Graph.perform_preserves (fun hadd hg => hg.add hadd) hperform hg
  | refuse e => exact hg
  | fault fault => exact hg

/-- After a step, all nodes read earlier ones if they did so before and the step was given operands
that are there. -/
theorem readsEarlier_iff (h : s.Does g r) :
    r.1.ReadsEarlier ↔
      g.ReadsEarlier ∧ ∀ id, r.2 = .added id → ∀ source ∈ s.operands, source < g.size := by
  cases h with
  | input shape =>
    change (g.push ⟨.input, [], shape⟩).ReadsEarlier ↔ _
    simp [Graph.readsEarlier_push, operands]
  | undefined => simp [Graph.addUndefined, Graph.readsEarlier_push, operands]
  | call hshape => simp [Graph.readsEarlier_push, operands]
  | lower hs hargs hplan hperform =>
    have hreads : CallsEarlier g.size _ := ResizePlan.callsEarlier_program fun id hid => by
      obtain ⟨a, ha, rfl⟩ := ResizePlan.exists_argument_of_mem_reads hplan hid
      exact Graph.lt_size_of_arguments hargs ha
    rw [Graph.readsEarlier_perform hperform]
    rcases hs with rfl | rfl
    · simp [operands, hreads]
    · simp [operands, hreads]
  | refuse e => simp
  | fault fault => simp

end Step.Does

namespace Graph

/-- After some steps, all nodes read earlier ones if they did so before and no step added an
instruction with an operand that was not there. -/
theorem readsEarlier_run (g : Graph) (steps : List Step) :
    (g.run steps).ReadsEarlier ↔ g.ReadsEarlier ∧
      ∀ before s after, steps = before ++ s :: after →
        ∀ id, (s.apply (g.run before)).2 = .added id →
          ∀ source ∈ s.operands, source < (g.run before).size := by
  induction steps generalizing g with
  | nil => simp [run]
  | cons s steps ih =>
    rw [run_cons, ih, (s.does_apply g).readsEarlier_iff, and_assoc]
    apply and_congr_right
    intro _
    constructor
    · rintro ⟨hfirst, hrest⟩ before s' after hsplit
      rcases List.cons_eq_append_iff.1 hsplit with ⟨rfl, h⟩ | ⟨before, rfl, h⟩
      · cases h
        exact hfirst
      · exact hrest before s' after h
    · intro h
      refine ⟨h [] s steps rfl, ?_⟩
      rintro before s' after rfl
      exact h (s :: before) s' after rfl

/-- In a graph that was built from nothing, the shape of every node is inferred from those of
earlier nodes. All sources of all nodes are earlier ones exactly if every instruction that a step
added was given operands that were there. -/
theorem run_readsEarlier_iff (steps : List Step) :
    (Graph.empty.run steps).InfersEarlier ∧
      ((Graph.empty.run steps).ReadsEarlier ↔
        ∀ before s after, steps = before ++ s :: after →
          ∀ id, (s.apply (Graph.empty.run before)).2 = .added id →
            ∀ source ∈ s.operands, source < (Graph.empty.run before).size) := by
  have hnone (id : NodeId) (n : Node) : Graph.empty.nodes[id]? ≠ some n :=
    fun hn => Nat.not_lt_zero id (lt_size_of_getElem? hn)
  constructor
  · exact run_preserves (fun _ s => (s.does_apply _).infersEarlier) steps
      fun id n hn => absurd hn (hnone id n)
  · rw [readsEarlier_run]
    exact and_iff_right fun id n hn => absurd hn (hnone id n)

/-- The second operand of an addition can be the node that is added. -/
theorem run_not_readsEarlier_of_add :
    ¬(Graph.empty.run
      [.input (.ofLens .float32 [2]), .call (.instruction .add [0, 1])]).ReadsEarlier := by
  intro h
  have hlt : 1 < 1 := h 1 _ rfl 1 (List.mem_cons_of_mem _ (List.mem_cons_self ..))
  exact absurd hlt (by decide)

end Graph

end TensorResize
