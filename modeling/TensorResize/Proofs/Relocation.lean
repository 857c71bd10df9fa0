import TensorResize.Proofs.Steps

/-!
# Lowering onto a grown graph

A lowering does not look at what else is in the graph. If the graph has grown since the arguments of
a node were looked at, the node is refused with the same error, or as many nodes are added as would
have been before. They are the same nodes but for where they stand: a new node is read under its new
id, and the lengths that only running the graph determines are named after the new id of their
resize.

This holds of every program in which a resize at run time can only be the last call. The shapes of
the other nodes are inferred from shapes that are the same on both graphs.

## Main definitions

* `Node.relocate` — an added node in its place on another graph.
* `Call.isResize` — a call for a resize at run time.
* `Graph.lowerArguments` — a lowering for snapshots that were made before.
* `Graph.LoweredAlike` — the same outcome on two graphs.
-/

namespace TensorResize

variable {g g' g₁ : Graph} {nodes : List NodeId} {made : List Node} {c : Call Operand}
  {calls : List (Call Operand)} {operation : Instruction} {base base' : ℕ}

/-- The id of a node on a graph that had `base'` nodes before a program was appended, if the node
has the id `id` where there were `base` nodes before. -/
def relocateId (base base' : ℕ) (id : NodeId) : NodeId :=
  if id < base then id else base' + (id - base)

/-- The lengths that are named after node `id`, named after node `id'`. -/
def Shape.renameLengths (id id' : NodeId) (s : Shape) : Shape :=
  ⟨s.elementType, s.dims.mapIdx fun axis d =>
    if d = .symbolic (runtimeLengthName id axis) then .symbolic (runtimeLengthName id' axis) else d⟩

def Instruction.isResize : Instruction → Bool
  | resize .. => true
  | _ => false

def NodeKind.isResize : NodeKind → Bool
  | instruction operation => operation.isResize
  | _ => false

def Call.isResize {ι : Type} : Call ι → Bool
  | instruction operation _ => operation.isResize
  | literal _ => false

/-- The node that call `k` of a program adds behind `base'` nodes, if it adds node `n` behind `base`
nodes. -/
def Node.relocate (base base' k : ℕ) (n : Node) : Node :=
  ⟨n.kind, n.sources.map (relocateId base base'),
    if n.kind.isResize then n.shape.renameLengths (base + k) (base' + k) else n.shape⟩

/-! ## Operands and shapes -/

theorem relocateId_place {x : Operand} {k : ℕ} (hx : x.IsBack nodes k)
    (hnodes : ∀ id ∈ nodes, id < base) :
    relocateId base base' (x.place (base + ·)) = x.place (base' + ·) := by
  cases x with
  | node id => exact if_pos (hnodes id hx)
  | result call =>
    change relocateId base base' (base + call) = base' + call
    rw [relocateId, if_neg (Nat.not_lt.2 (Nat.le_add_right base call)), Nat.add_sub_cancel_left]

/-- The lengths of a resize are named after it. -/
theorem renameLengths_runtime (t : ElementType) (rank : ℕ) (id id' : NodeId) :
    Shape.renameLengths id id'
        ⟨t, (List.range rank).map fun axis => .symbolic (runtimeLengthName id axis)⟩ =
      ⟨t, (List.range rank).map fun axis => .symbolic (runtimeLengthName id' axis)⟩ := by
  rw [Shape.renameLengths, Shape.mk.injEq]
  refine ⟨rfl, List.ext_getElem (by simp) ?_⟩
  intro axis haxis haxis'
  simp

namespace Graph

theorem inferShape_congr {inputs inputs' : List NodeId}
    (hinputs : ∀ position, g'.inputShape inputs' position = g.inputShape inputs position)
    (hresize : operation.isResize = false) :
    g'.inferShape operation inputs' = g.inferShape operation inputs := by
  cases operation with
  | resize nearestMode coordinateMode => cases hresize
  | reshape dims => simp only [inferShape, hinputs]
  | gather axis => simp only [inferShape, hinputs]
  | slice axes starts ends => simp only [inferShape, hinputs]
  | add | sub | mul => simp only [inferShape, hinputs]

/-- The shape of a resize depends on where it stands. -/
theorem inferShape_of_isResize {inputs inputs' : List NodeId}
    (hinputs : ∀ position, g'.inputShape inputs' position = g.inputShape inputs position)
    (hresize : operation.isResize = true) :
    g'.inferShape operation inputs' =
      (g.inferShape operation inputs).map (Shape.renameLengths g.size g'.size) := by
  cases operation with
  | resize nearestMode coordinateMode =>
    simp only [inferShape, hinputs]
    cases g.inputShape inputs 0 with
    | error fault => rfl
    | ok first =>
      have hnamed := renameLengths_runtime first.elementType first.rank g.size g'.size
      exact congrArg Except.ok hnamed.symm
  | reshape dims => cases hresize
  | gather axis => cases hresize
  | slice axes starts ends => cases hresize
  | add | sub | mul => cases hresize

theorem pushAll_concat (g : Graph) (nodes : List Node) (n : Node) :
    g.pushAll (nodes ++ [n]) = (g.pushAll nodes).push n := by
  rw [pushAll, List.foldl_concat]
  rfl

/-! ## One call -/

theorem isResize_kind_map (c : Call Operand) (ids : ℕ → NodeId) :
    (c.map (Operand.place ids)).kind.isResize = c.isResize := by
  cases c with
  | literal value => rfl
  | instruction operation inputs => rfl

/-- The node of a call, in its place, is the node of the call in its place. -/
theorem relocate_call {shape : Shape} {k : ℕ} (hc : ∀ x ∈ c.inputs, x.IsBack nodes k)
    (hnodes : ∀ id ∈ nodes, id < base) :
    let placed (base : ℕ) := c.map (Operand.place (base + ·))
    Node.relocate base base' k ⟨(placed base).kind, (placed base).inputs, shape⟩ =
      ⟨(placed base').kind, (placed base').inputs,
        if c.isResize then shape.renameLengths (base + k) (base' + k) else shape⟩ := by
  intro placed
  rw [Node.relocate, isResize_kind_map]
  cases c with
  | literal value => rfl
  | instruction operation inputs =>
    have hsources : (inputs.map (Operand.place (base + ·))).map (relocateId base base') =
        inputs.map (Operand.place (base' + ·)) := by
      rw [List.map_map]
      exact List.map_congr_left fun x hx => relocateId_place (hc x hx) hnodes
    simp only [placed, Call.map, Call.inputs, Call.kind, hsources]

section Relocate

variable (hgrows : g.GrowsTo g') (hnodes : ∀ id ∈ nodes, id < g.size)
  (hmade : ∀ n ∈ made, n.kind.isResize = false)
include hgrows hnodes hmade

/-- Behind the nodes that some calls add to either graph, an operand has the same shape, since none
of these nodes is a resize. -/
theorem shape_place {x : Operand} (hx : x.IsBack nodes made.length) :
    (g'.pushAll (made.mapIdx (Node.relocate g.size g'.size))).shape (x.place (g'.size + ·)) =
      (g.pushAll made).shape (x.place (g.size + ·)) := by
  cases x with
  | node id =>
    obtain ⟨n, hn⟩ := exists_getElem? (hnodes id hx)
    have hthere := (growsTo_pushAll g made).getElem? hn
    have hgrown := (growsTo_pushAll g' (made.mapIdx (Node.relocate g.size g'.size))).getElem?
      (hgrows.getElem? hn)
    exact (shape_of_getElem? hgrown).trans (shape_of_getElem? hthere).symm
  | result call =>
    have hcall : made[call]? = some made[call] := List.getElem?_eq_getElem hx
    have hthere := (getElem?_pushAll g made call).trans hcall
    have hgrown := getElem?_pushAll g' (made.mapIdx (Node.relocate g.size g'.size)) call
    rw [List.getElem?_mapIdx, hcall, Option.map_some] at hgrown
    have hshape : (made[call].relocate g.size g'.size call).shape = made[call].shape :=
      if_neg (by simp [hmade _ (List.getElem_mem hx)])
    exact ((shape_of_getElem? hgrown).trans (congrArg Except.ok hshape)).trans
      (shape_of_getElem? hthere).symm

theorem inputShape_place {inputs : List Operand}
    (hinputs : ∀ x ∈ inputs, x.IsBack nodes made.length) (position : ℕ) :
    (g'.pushAll (made.mapIdx (Node.relocate g.size g'.size))).inputShape
        (inputs.map (Operand.place (g'.size + ·))) position =
      (g.pushAll made).inputShape (inputs.map (Operand.place (g.size + ·))) position := by
  simp only [inputShape, List.getElem?_map]
  cases hx : inputs[position]? with
  | none => rfl
  | some x => exact shape_place hgrows hnodes hmade (hinputs x (List.mem_of_getElem? hx))

/-- The node that a call adds has the same shape on either graph, unless it is a resize. -/
theorem callShape_place {shape : Shape} (hc : ∀ x ∈ c.inputs, x.IsBack nodes made.length)
    (h : (g.pushAll made).callShape (c.map (Operand.place (g.size + ·))) = .ok shape) :
    (g'.pushAll (made.mapIdx (Node.relocate g.size g'.size))).callShape
        (c.map (Operand.place (g'.size + ·))) =
      .ok (if c.isResize then
        shape.renameLengths (g.size + made.length) (g'.size + made.length) else shape) := by
  cases c with
  | literal value => exact h
  | instruction operation inputs =>
    change ∀ x ∈ inputs, x.IsBack nodes made.length at hc
    have hinputs := inputShape_place hgrows hnodes hmade hc
    change inferShape _ operation _ = _ at h
    change inferShape _ operation _ = _
    cases hresize : operation.isResize with
    | false =>
      rw [inferShape_congr hinputs hresize, h]
      simp [Call.isResize, hresize]
    | true =>
      rw [inferShape_of_isResize hinputs hresize, h]
      simp [Call.isResize, hresize, Except.map]

/-- A call that can be made adds the same node to either graph, in its place. -/
theorem add_relocate (hc : ∀ x ∈ c.inputs, x.IsBack nodes made.length)
    (h : (g.pushAll made).add (c.map (Operand.place (g.size + ·))) = .ok g₁) :
    ∃ n, n.kind.isResize = c.isResize ∧ g₁ = g.pushAll (made ++ [n]) ∧
      (g'.pushAll (made.mapIdx (Node.relocate g.size g'.size))).add
          (c.map (Operand.place (g'.size + ·))) =
        .ok (g'.pushAll ((made ++ [n]).mapIdx (Node.relocate g.size g'.size))) := by
  obtain ⟨shape, hshape, rfl⟩ := add_eq_ok.1 h
  refine ⟨_, isResize_kind_map c _, (pushAll_concat g made _).symm, ?_⟩
  rw [List.mapIdx_concat, pushAll_concat, add_eq_ok, relocate_call hc hnodes]
  exact ⟨_, callShape_place hgrows hnodes hmade hc hshape, rfl⟩

/-! ## Programs -/

/-- Calls that can all be made add the same nodes to either graph, in their places, if none but the
last is a resize. -/
theorem perform_relocate (hcalls : ReadsBack nodes made.length calls)
    (hresize : ∀ c ∈ calls.dropLast, c.isResize = false)
    (h : (g.pushAll made).perform (calls.map (Call.map (Operand.place (g.size + ·)))) =
      (g₁, none)) :
    ∃ added, g₁ = g.pushAll (made ++ added) ∧ added.length = calls.length ∧
      (g'.pushAll (made.mapIdx (Node.relocate g.size g'.size))).perform
          (calls.map (Call.map (Operand.place (g'.size + ·)))) =
        (g'.pushAll ((made ++ added).mapIdx (Node.relocate g.size g'.size)), none) := by
  induction calls generalizing made with
  | nil =>
    cases h
    exact ⟨[], by simp [perform]⟩
  | cons c calls ih =>
    rw [List.map_cons] at h ⊢
    cases hadd : (g.pushAll made).add (c.map (Operand.place (g.size + ·))) with
    | error fault => simp [perform, hadd] at h
    | ok g₂ =>
      rw [perform_cons hadd] at h
      obtain ⟨n, hn, rfl, hadd'⟩ := add_relocate hgrows hnodes hmade hcalls.1 hadd
      rw [perform_cons hadd']
      cases calls with
      | nil =>
        cases h
        exact ⟨[n], by simp [perform]⟩
      | cons c' calls =>
        rw [List.dropLast_cons_cons, List.forall_mem_cons] at hresize
        have hmade' : ∀ n' ∈ made ++ [n], n'.kind.isResize = false := by
          rw [List.forall_mem_append, List.forall_mem_singleton]
          exact ⟨hmade, hn.trans hresize.1⟩
        obtain ⟨added, rfl, hlength, hperform⟩ :=
          ih hmade' (by simpa using hcalls.2) hresize.2 h
        rw [List.append_assoc] at hperform ⊢
        exact ⟨n :: added, rfl, by simp [hlength], hperform⟩

end Relocate

/-- A program that can be appended to a graph is appended alike to one that has grown from it. -/
theorem perform_place_relocate {p : Program} (hgrows : g.GrowsTo g')
    (hnodes : ∀ id ∈ nodes, id < g.size) (hcalls : ReadsBack nodes 0 p.calls)
    (hresize : ∀ c ∈ p.calls.dropLast, c.isResize = false)
    (h : g.perform (p.place (g.size + ·)) = (g₁, none)) :
    ∃ added, g₁ = g.pushAll added ∧ added.length = p.calls.length ∧
      g'.perform (p.place (g'.size + ·)) =
        (g'.pushAll (added.mapIdx (Node.relocate g.size g'.size)), none) :=
  @perform_relocate g g' g₁ nodes [] p.calls hgrows hnodes (List.forall_mem_nil _) hcalls hresize h

theorem append_of_perform {p : Program} (h : g.perform (p.place (g.size + ·)) = (g₁, none)) :
    g.append p = .ok (g₁, p.result (g.size + ·)) := by
  rw [append, foldlM_add_eq_ok.2 h]
  rfl

end Graph

namespace ResizePlan

theorem isResize_blendCalls {current : ℕ} (blend : List BlendStep) :
    ∀ c ∈ blendCalls current blend, c.isResize = false := by
  induction blend generalizing current with
  | nil => exact List.forall_mem_nil _
  | cons step blend ih =>
    rw [blendCalls_cons, List.forall_mem_append]
    refine ⟨?_, ih⟩
    simp [blendCalls, Call.isResize, Instruction.isResize, rowSlice]

/-- Only the last call of a plan can be a resize. -/
theorem isResize_dropLast_program (plan : ResizePlan) :
    ∀ c ∈ plan.program.calls.dropLast, c.isResize = false := by
  have hgather (data total : ℕ) (indices : Literal) :
      ∀ c ∈ gatherCalls data total indices, c.isResize = false := by
    simp [gatherCalls, Call.isResize, Instruction.isResize]
  cases plan with
  | runtime data scales instruction =>
    cases scales with
    | existing id => exact List.forall_mem_nil _
    | constant scales => exact List.forall_mem_singleton.2 rfl
  | nearest data total indices =>
    exact fun c hc => hgather data total indices c (List.mem_of_mem_dropLast hc)
  | linear data total indices blend =>
    intro c hc
    have hcalls := List.forall_mem_append.2
      ⟨hgather data total indices, @isResize_blendCalls 2 blend⟩
    exact hcalls c (List.mem_of_mem_dropLast hc)

end ResizePlan

/-! ## Lowerings -/

namespace Graph

variable {ids : List NodeId} {args : List Argument}
  {lowering : List Argument → Except LoweringError Program}

/-- Lowers a node for snapshots of its arguments that may have been made before, and appends the
program. -/
def lowerArguments (g : Graph) (args : List Argument)
    (lowering : List Argument → Except LoweringError Program) :
    Except GraphFault (Except LoweringError (Graph × NodeId)) :=
  match lowering args with
  | .error e => .ok (.error e)
  | .ok p => do return .ok (← g.append p)

/-- A lowering ends alike on two graphs: it is refused with the same error on both, or the nodes that
it adds to the one are added to the other in their places, and the last one is the result. -/
inductive LoweredAlike (g g' : Graph) :
    Except GraphFault (Except LoweringError (Graph × NodeId)) →
      Except GraphFault (Except LoweringError (Graph × NodeId)) → Prop where
  | refused (e : LoweringError) : LoweredAlike g g' (.ok (.error e)) (.ok (.error e))
  | added (nodes : List Node) (last : Node) :
      LoweredAlike g g' (.ok (.ok (g.pushAll (nodes ++ [last]), g.size + nodes.length)))
        (.ok (.ok (g'.pushAll ((nodes ++ [last]).mapIdx (Node.relocate g.size g'.size)),
          g'.size + nodes.length)))

theorem lower_of_arguments (h : g.arguments ids = .ok args) :
    g.lower ids lowering = g.lowerArguments args lowering := by
  rw [lower, h, lowerArguments]
  cases hlowering : lowering args with
  | error e => simp [hlowering, bind, Except.bind, pure, Except.pure]
  | ok p => simp [hlowering, bind, Except.bind]

/-- Snapshots are the same from then on. -/
theorem GrowsTo.arguments_eq_ok (hgrows : g.GrowsTo g') (h : g.arguments ids = .ok args) :
    g'.arguments ids = .ok args := by
  induction ids generalizing args with
  | nil => exact h
  | cons id ids ih =>
    obtain ⟨a, ha, rest, hrest, rfl⟩ := arguments_cons_eq_ok.1 h
    obtain ⟨n, hn, -⟩ := argument_eq_ok.1 ha
    rw [← hgrows.argument_eq (lt_size_of_getElem? hn)] at ha
    exact arguments_cons_eq_ok.2 ⟨a, ha, rest, ih hrest, rfl⟩

variable {o : Operator} {settings : LoweringSettings}

/-- A resize of nodes of a graph is lowered alike on the graph and on one that has grown from it. -/
theorem GrowsTo.loweredAlike (hgrows : g.GrowsTo g') (hargs : g.arguments ids = .ok args) :
    LoweredAlike g g' (g.lowerArguments args (lowerResize o · settings))
      (g'.lowerArguments args (lowerResize o · settings)) := by
  cases hplan : planResize o args settings with
  | error e =>
    have hlower : lowerResize o args settings = .error e := by
      rw [lowerResize, hplan]
      rfl
    simp only [lowerArguments, hlower]
    exact .refused e
  | ok plan =>
    have hlower : lowerResize o args settings = .ok plan.program := by
      rw [lowerResize, hplan]
      rfl
    have hreads : ∀ id ∈ plan.reads, id < g.size := by
      intro id hid
      obtain ⟨a, ha, rfl⟩ := ResizePlan.exists_argument_of_mem_reads hplan hid
      exact lt_size_of_arguments hargs ha
    obtain ⟨data, n, g₁, shape, -, -, happends, -⟩ :=
      ResizePlan.exists_appends_of_planResize hargs hplan
    obtain ⟨added, rfl, hlength, hperform⟩ := perform_place_relocate hgrows hreads
      plan.readsBack_program plan.isResize_dropLast_program happends.perform_eq
    have hne : added ≠ [] := by
      rw [← List.length_pos_iff, hlength, List.length_pos_iff]
      exact plan.calls_ne_nil
    obtain ⟨nodes, last, rfl⟩ := (List.eq_nil_or_concat' added).resolve_left hne
    have hresult (base : ℕ) : plan.program.result (base + ·) = base + nodes.length := by
      rw [Program.result, ← hlength, List.length_append, List.length_singleton,
        Nat.add_sub_cancel]
    simp only [lowerArguments, hlower, append_of_perform happends.perform_eq,
      append_of_perform hperform, hresult]
    exact .added nodes last

/-- What is done to a graph after the arguments of a resize were looked at does not matter for its
lowering. The snapshots are the same if they are made again, and with old or new ones the resize is
lowered as it would have been before, up to the places of the nodes that it adds. -/
theorem lower_relocated (hargs : g.arguments ids = .ok args) (later : List Step) :
    let g' := g.run later
    g'.arguments ids = .ok args ∧ ∀ (o : Operator) (settings : LoweringSettings),
      let lowering := (lowerResize o · settings)
      LoweredAlike g g' (g.lowerArguments args lowering) (g'.lowerArguments args lowering) ∧
        LoweredAlike g g' (g.lower ids lowering) (g'.lower ids lowering) := by
  intro g'
  have hgrows : g.GrowsTo g' := growsTo_run g later
  have hargs' := hgrows.arguments_eq_ok hargs
  refine ⟨hargs', fun o settings => ?_⟩
  intro lowering
  rw [lower_of_arguments hargs, lower_of_arguments hargs']
  exact ⟨hgrows.loweredAlike hargs, hgrows.loweredAlike hargs⟩

/-- Data of unknown length, which is enlarged at run time by scales of the attribute. Behind one more
node than there was, the resize is node 3 in place of node 2. -/
theorem lower_relocated_resize :
    let g := Graph.empty.addInput ⟨.float32, [.symbolic "n"]⟩
    let lowering := (lowerResize ⟨"Upsample", .ofList [("scales", .floats [.half])]⟩ · .standard)
    let resize := Instruction.resize "round_prefer_floor" "half_pixel"
    g.arguments [0] = .ok [.ofShape 0 ⟨.float32, [.symbolic "n"]⟩ none] ∧
      (∃ g₁, g.lower [0] lowering = .ok (.ok (g₁, 2)) ∧ g₁.nodes[2]? =
        some ⟨.instruction resize, [0, 1], ⟨.float32, [.symbolic "resize2_0"]⟩⟩) ∧
      ∃ g₁, (g.run [.undefined]).lower [0] lowering = .ok (.ok (g₁, 3)) ∧ g₁.nodes[3]? =
        some ⟨.instruction resize, [0, 2], ⟨.float32, [.symbolic "resize3_0"]⟩⟩ := by
  intro g lowering resize
  have hconstant : g.constant? 0 = none := by
    rw [constant?]
    rfl
  have hargs : g.arguments [0] = .ok [.ofShape 0 ⟨.float32, [.symbolic "n"]⟩ none] := by
    refine arguments_cons_eq_ok.2 ⟨_, argument_eq_ok.2 ⟨_, rfl, ?_⟩, [], rfl, rfl⟩
    rw [hconstant]
    rfl
  let first : Node := ⟨.literal ⟨[1], .float32 [.half]⟩, [], .ofLens .float32 [1]⟩
  let second : Node := ⟨.instruction resize, [0, 1], ⟨.float32, [.symbolic "resize2_0"]⟩⟩
  have hlower : g.lower [0] lowering = .ok (.ok (g.pushAll [first, second], 2)) := by
    rw [lower_of_arguments hargs]
    decide +kernel
  refine ⟨hargs, ⟨_, hlower, rfl⟩, ?_⟩
  obtain ⟨-, halike⟩ := lower_relocated hargs [.undefined]
  have hanswers := (halike ⟨"Upsample", .ofList [("scales", .floats [.half])]⟩ .standard).2
  change LoweredAlike g (g.run [.undefined]) (g.lower [0] lowering) _ at hanswers
  generalize g.lower [0] lowering = answer at hanswers hlower
  generalize (g.run [.undefined]).lower [0] lowering = grown at hanswers ⊢
  cases hanswers with
  | refused e => cases hlower
  | added nodes last =>
    simp only [Except.ok.injEq, Prod.mk.injEq] at hlower
    obtain ⟨hnodes, hid⟩ := hlower
    have hlength : nodes.length = 1 := Nat.add_left_cancel hid
    have hsecond : (nodes ++ [last])[1]? = some second := by
      rw [← getElem?_pushAll g, hnodes]
      rfl
    refine ⟨_, by rw [hlength]; rfl, ?_⟩
    have hadded := getElem?_pushAll (g.run [.undefined])
      ((nodes ++ [last]).mapIdx (Node.relocate g.size (g.run [.undefined]).size)) 1
    rw [List.getElem?_mapIdx, hsecond] at hadded
    exact hadded.trans (by decide +kernel)

end Graph

end TensorResize
