import TensorResize.Proofs.LoweredShapes
import TensorResize.Proofs.Operands

/-!
# Steps on a graph

A graph is built step by step: run-time inputs, placeholders, constants and instructions are added,
and operators are lowered, directly or by the parser that is registered for their type. The calls of
a lowering are made one after the other, and one that cannot be made leaves those before it behind.

No such step is left unfinished. A plan for nodes of the graph can always be appended as a whole, so
that a step either appends its nodes or leaves the graph as it was. From then on, nothing that a
snapshot shows of a node changes.

## Main definitions

* `Step`, `Outcome`, `Step.apply` — what is done to a graph, and how it ends.
* `Graph.run` — the graph after some steps.
* `Step.Does` — what a step can do.
* `Graph.ListsInputs` — the list of run-time inputs is that of the input nodes.
-/

namespace TensorResize

/-- What is done to a graph. -/
inductive Step where
  /-- Adds a run-time input. -/
  | input (shape : Shape)
  /-- Adds the placeholder of an optional input that was left out. -/
  | undefined
  /-- Adds a constant or an instruction. -/
  | call (c : Call NodeId)
  /-- Lowers a resize of the nodes `ids`. -/
  | lowerResize (o : Operator) (ids : List NodeId) (settings : LoweringSettings)
  /-- Lowers an operator on the nodes `ids` with the parser registered for its type. -/
  | parse (o : Operator) (ids : List NodeId) (settings : LoweringSettings)

/-- How a step ends. -/
inductive Outcome where
  | added (id : NodeId)
  | refused (e : LoweringError)
  | faulted (fault : GraphFault)

namespace Graph

/-- Makes calls one after the other, the last of which adds node `result`. -/
def make (g : Graph) (calls : List (Call NodeId)) (result : NodeId) : Graph × Outcome :=
  match g.perform calls with
  | (g, none) => (g, .added result)
  | (g, some fault) => (g, .faulted fault)

/-- Lowers a node whose arguments are nodes of the graph, call by call. -/
def lowerStepwise (g : Graph) (ids : List NodeId)
    (lowering : List Argument → Except LoweringError Program) : Graph × Outcome :=
  match g.arguments ids with
  | .error fault => (g, .faulted fault)
  | .ok args =>
    match lowering args with
    | .error e => (g, .refused e)
    | .ok p => g.make (p.place (g.size + ·)) (p.result (g.size + ·))

/-- A lowering that is refused adds nothing. -/
theorem lowerStepwise_of_error {g : Graph} {ids : List NodeId} {args : List Argument}
    {lowering : List Argument → Except LoweringError Program} {e : LoweringError}
    (hargs : g.arguments ids = .ok args) (hlower : lowering args = .error e) :
    g.lowerStepwise ids lowering = (g, .refused e) := by
  simp only [lowerStepwise, hargs, hlower]

/-- A lowering answers the same if its calls are made as a whole. -/
theorem lower_eq (g : Graph) (ids : List NodeId)
    (lowering : List Argument → Except LoweringError Program) :
    g.lower ids lowering =
      match g.lowerStepwise ids lowering with
      | (g', .added result) => .ok (.ok (g', result))
      | (_, .refused e) => .ok (.error e)
      | (_, .faulted fault) => .error fault := by
  rw [lower, lowerStepwise]
  cases hargs : g.arguments ids with
  | error fault => rfl
  | ok args =>
    cases hlower : lowering args with
    | error e => simp [hlower, bind, Except.bind, pure, Except.pure]
    | ok p =>
      simp only [hlower, append, make, foldlM_add_eq, bind, Except.bind]
      rcases g.perform (p.place (g.size + ·)) with ⟨g₁, _ | fault⟩
      · rfl
      · rfl

end Graph

/-- Does a step to a graph. -/
def Step.apply (g : Graph) : Step → Graph × Outcome
  | input shape => (g.addInput shape, .added g.size)
  | undefined => (g.addUndefined, .added g.size)
  | call c => g.make [c] g.size
  | lowerResize o ids settings => g.lowerStepwise ids (TensorResize.lowerResize o · settings)
  | parse o ids settings => g.lowerStepwise ids (Registry.standard.lower o · settings)

/-- The graph after some steps, whichever of them succeed. -/
def Graph.run (g : Graph) (steps : List Step) : Graph := steps.foldl (fun g s => (s.apply g).1) g

/-! ## What a step can do -/

namespace Registry

/-- Only the parser for resizes is registered. -/
theorem eq_resizeParser_of_find? {type : String} {p : Parser} (h : standard.find? type = some p) :
    p = resizeParser := by
  obtain ⟨slot, -, hslot⟩ := find?_eq_some_iff.1 h
  exact List.mem_singleton.1 (List.mem_of_getElem? hslot)

theorem lowerResize_of_lower {o : Operator} {args : List Argument} {settings : LoweringSettings}
    {p : Program} (h : standard.lower o args settings = .ok p) :
    lowerResize o args settings = .ok p := by
  rw [lower] at h
  split at h
  · next found =>
    cases eq_resizeParser_of_find? found
    exact h
  · cases h

end Registry

/-- What a step can do to a graph: append what it stands for, or nothing. -/
inductive Step.Does (g : Graph) : Step → Graph × Outcome → Prop where
  | input (shape : Shape) : Does g (.input shape) (g.addInput shape, .added g.size)
  | undefined : Does g .undefined (g.addUndefined, .added g.size)
  | call {c : Call NodeId} {shape : Shape} (hshape : g.callShape c = .ok shape) :
      Does g (.call c) (g.push ⟨c.kind, c.inputs, shape⟩, .added g.size)
  | lower {s : Step} {o : Operator} {ids : List NodeId} {args : List Argument}
      {settings : LoweringSettings} {plan : ResizePlan} {g' : Graph}
      (hs : s = .lowerResize o ids settings ∨ s = .parse o ids settings)
      (hargs : g.arguments ids = .ok args) (hplan : planResize o args settings = .ok plan)
      (hperform : g.perform (plan.program.place (g.size + ·)) = (g', none)) :
      Does g s (g', .added (plan.program.result (g.size + ·)))
  | refuse {s : Step} (e : LoweringError) : Does g s (g, .refused e)
  | fault {s : Step} (fault : GraphFault) : Does g s (g, .faulted fault)

namespace Step

variable {g g' : Graph} {s : Step}

theorem does_lowerStepwise {o : Operator} {ids : List NodeId} {settings : LoweringSettings}
    {lowering : List Argument → Except LoweringError Program}
    (hs : s = .lowerResize o ids settings ∨ s = .parse o ids settings)
    (hlowering : ∀ args p, lowering args = .ok p →
      TensorResize.lowerResize o args settings = .ok p) :
    s.Does g (g.lowerStepwise ids lowering) := by
  rw [Graph.lowerStepwise]
  cases hargs : g.arguments ids with
  | error fault => exact .fault fault
  | ok args =>
    cases hlower : lowering args with
    | error e => simpa only [hlower] using .refuse e
    | ok p =>
      obtain ⟨plan, hplan, rfl⟩ := map_eq_ok.1 (hlowering args p hlower)
      obtain ⟨data, n, g', shape, -, -, happends, -⟩ :=
        ResizePlan.exists_appends_of_planResize hargs hplan
      simp only [hlower, Graph.make, happends.perform_eq]
      exact .lower hs hargs hplan happends.perform_eq

/-- A step does one of the things that steps do. -/
theorem does_apply (s : Step) (g : Graph) : s.Does g (s.apply g) := by
  cases s with
  | input shape => exact .input shape
  | undefined => exact .undefined
  | call c =>
    rw [apply, Graph.make, Graph.perform]
    cases hadd : g.add c with
    | error fault => exact .fault fault
    | ok g' =>
      obtain ⟨shape, hshape, rfl⟩ := Graph.add_eq_ok.1 hadd
      exact .call hshape
  | lowerResize o ids settings => exact does_lowerStepwise (.inl rfl) fun _ _ h => h
  | parse o ids settings =>
    exact does_lowerStepwise (.inr rfl) fun _ _ => Registry.lowerResize_of_lower

end Step

/-! ## Run-time inputs -/

namespace Graph

variable {g g' : Graph}

/-- The ids of the nodes that are run-time inputs, in increasing order. -/
def inputIds (g : Graph) : List NodeId :=
  (List.range g.size).filter fun id => g.nodes[id]?.any (·.kind = .input)

/-- The graph keeps the list of its run-time inputs. -/
def ListsInputs (g : Graph) : Prop := g.inputs = g.inputIds

theorem inputIds_push (g : Graph) (n : Node) :
    (g.push n).inputIds = g.inputIds ++ if n.kind = .input then [g.size] else [] := by
  have hold : (List.range g.size).filter (fun id => (g.push n).nodes[id]?.any (·.kind = .input)) =
      g.inputIds := by
    apply List.filter_congr
    intro id hid
    rw [getElem?_push, if_neg (List.mem_range.1 hid).ne]
  rw [inputIds, size_push, List.range_succ, List.filter_append, hold, List.filter_singleton,
    getElem?_push_self]
  simp

theorem ListsInputs.push {n : Node} (hg : g.ListsInputs) (hn : n.kind ≠ .input) :
    (g.push n).ListsInputs := by
  rw [ListsInputs, inputs_push, inputIds_push, if_neg hn, List.append_nil, hg]

theorem ListsInputs.addInput (hg : g.ListsInputs) (shape : Shape) :
    (g.addInput shape).ListsInputs := by
  have hids : (g.addInput shape).inputIds = g.inputIds ++ [g.size] :=
    inputIds_push g ⟨.input, [], shape⟩
  rw [ListsInputs, hids, ← hg]
  rfl

theorem ListsInputs.add {c : Call NodeId} (hg : g.ListsInputs) (h : g.add c = .ok g') :
    g'.ListsInputs := by
  obtain ⟨shape, -, rfl⟩ := add_eq_ok.1 h
  exact hg.push c.kind_ne_input

end Graph

/-! ## Runs -/

variable {g g' : Graph} {s : Step} {id : NodeId}

namespace Step.Does

variable {r : Graph × Outcome}

theorem growsTo (h : s.Does g r) : g.GrowsTo r.1 := by
  cases h with
  | input shape => exact .addInput g shape
  | undefined => exact .push g _
  | call hshape => exact .push g _
  | lower hs hargs hplan hperform => exact Graph.growsTo_of_perform hperform
  | refuse e => exact .refl g
  | fault fault => exact .refl g

/-- A step that succeeds adds nodes, the last of which it answers with. -/
theorem result_eq_last (h : s.Does g (g', .added id)) : g.size ≤ id ∧ id + 1 = g'.size := by
  cases h with
  | input shape => exact ⟨le_rfl, (Graph.size_addInput g shape).symm⟩
  | undefined => exact ⟨le_rfl, (Graph.size_push g _).symm⟩
  | call hshape => exact ⟨le_rfl, (Graph.size_push g _).symm⟩
  | lower hs hargs hplan hperform =>
    exact ⟨Nat.le_add_right _ _, Graph.result_of_perform (ResizePlan.calls_ne_nil _) hperform⟩

theorem listsInputs (h : s.Does g r) (hg : g.ListsInputs) : r.1.ListsInputs := by
  cases h with
  | input shape => exact hg.addInput shape
  | undefined => exact hg.push nofun
  | call hshape => exact hg.push (Call.kind_ne_input _)
  | lower hs hargs hplan hperform =>
    exact Graph.perform_preserves (fun hadd hg => hg.add hadd) hperform hg
  | refuse e => exact hg
  | fault fault => exact hg

end Step.Does

namespace Graph

@[simp] theorem run_cons (g : Graph) (s : Step) (steps : List Step) :
    g.run (s :: steps) = (s.apply g).1.run steps := rfl

/-- What every step preserves is preserved by a run. -/
theorem run_preserves {P : Graph → Prop} (happly : ∀ (g : Graph) (s : Step), P g → P (s.apply g).1)
    (steps : List Step) (hg : P g) : P (g.run steps) := by
  induction steps generalizing g with
  | nil => exact hg
  | cons s steps ih => exact ih (happly g s hg)

/-- Steps keep every node. -/
theorem growsTo_run (g : Graph) (steps : List Step) : g.GrowsTo (g.run steps) :=
  run_preserves (fun _ s hgrows => hgrows.trans (s.does_apply _).growsTo) steps (.refl g)

theorem listsInputs_run (steps : List Step) (hg : g.ListsInputs) : (g.run steps).ListsInputs :=
  run_preserves (fun _ s => (s.does_apply _).listsInputs) steps hg

/-- A step on a graph that was built from nothing appends nodes, or leaves the graph as it was. The
run-time inputs are listed in increasing order. Nothing done later changes the snapshot of a node. -/
theorem apply_run_appendOnly (before : List Step) (s : Step) :
    let g := Graph.empty.run before
    (match s.apply g with
      | (g', .added id) => g.GrowsTo g' ∧ g.size ≤ id ∧ id + 1 = g'.size ∧ g'.inputs = g'.inputIds
      | (g', .refused _) => g' = g
      | (g', .faulted _) => g' = g) ∧
    ∀ id < g.size, ∃ a, g.argument id = .ok a ∧ ∀ later, (g.run later).argument id = .ok a := by
  intro g
  constructor
  · have hdoes := s.does_apply g
    have hinputs : g.ListsInputs := listsInputs_run before rfl
    generalize s.apply g = after at hdoes ⊢
    rcases after with ⟨g', id | e | fault⟩
    · obtain ⟨hnew, hlast⟩ := hdoes.result_eq_last
      exact ⟨hdoes.growsTo, hnew, hlast, hdoes.listsInputs hinputs⟩
    · cases hdoes
      rfl
    · cases hdoes
      rfl
  · intro id hid
    obtain ⟨n, hn⟩ := exists_getElem? hid
    have hsnapshot := argument_eq_ok.2 ⟨n, hn, rfl⟩
    refine ⟨_, hsnapshot, ?_⟩
    intro later
    rw [(growsTo_run g later).argument_eq hid, hsnapshot]

end Graph

end TensorResize
