import TensorResize.Proofs.Blend
import TensorResize.Proofs.GatherRange
import TensorResize.Proofs.Growth

/-!
# Shapes of lowered nodes

The lengths of a plan are computed without a graph, and the shapes of its nodes are inferred by the
graph without the plan. They agree: the node of a precomputed resize has the output lengths, the
two halves of every blend cover what they are cut from, and the operands of every arithmetic
instruction have the same dimensions. A resize that runs with the graph keeps element type and rank.

## Main definitions

* `Graph.Halves` — two slices that cover a node along its leading axis.
* `Graph.WellShaped` — the shape of an added node goes with those of its sources.
-/

namespace TensorResize

variable {g g' g'' : Graph} {id source data : NodeId} {n m : Node} {t : ElementType}
  {indices : Literal} {blend : List BlendStep} {outLens rest : List ℕ} {calls : List (Call NodeId)}

namespace Graph

/-- The dimensions of a node. -/
def dims? (g : Graph) (id : NodeId) : Option (List Dimension) := g.nodes[id]?.map (·.shape.dims)

/-- Nodes `low` and `high` are the slices of node `source` below and from row `rows` of its leading
axis, each of `rows` rows, which together are all of them. The other axes have the output lengths. -/
structure Halves (g : Graph) (t : ElementType) (outLens : List ℕ) (rows : ℕ)
    (source low high : NodeId) : Prop where
  source_dims : g.dims? source = some ((2 * rows :: outLens.tail).map .known)
  bounds : (Int64.ofNat rows).toInt = rows ∧ (2 * Int64.ofNat rows).toInt = (2 * rows : ℕ)
  low_eq : g.nodes[low]? = some ⟨.instruction (ResizePlan.rowSlice 0 (Int64.ofNat rows)), [source],
    .ofLens t (rows :: outLens.tail)⟩
  high_eq : g.nodes[high]? = some ⟨.instruction (ResizePlan.rowSlice (Int64.ofNat rows)
    (2 * Int64.ofNat rows)), [source], .ofLens t (rows :: outLens.tail)⟩

/-- What a node that is added for a precomputed plan is, and how its shape goes with those of its
sources. The plan gathers by `indices` and blends by the steps `blend`. -/
inductive WellShaped (g : Graph) (t : ElementType) (indices : Literal) (blend : List BlendStep)
    (outLens : List ℕ) : NodeId → Node → Prop where
  | reshape {id data : NodeId} {dims : List Int64} {shape : Shape} :
      WellShaped g t indices blend outLens id ⟨.instruction (.reshape dims), [data], shape⟩
  | literal {id : NodeId} {value : Literal} :
      WellShaped g t indices blend outLens id ⟨.literal value, [], value.shape⟩
  | gather {id flat constant : NodeId} {shape : Shape} {m : Node}
      (hconstant : g.nodes[constant]? = some m) (hkind : m.kind = .literal indices)
      (hdims : shape.dims = indices.lens.map .known) :
      WellShaped g t indices blend outLens id
        ⟨.instruction (.gather 0), [flat, constant], shape⟩
  | slice {id source low high : NodeId} {n : Node} {step : BlendStep} (hstep : step ∈ blend)
      (hhalves : g.Halves t outLens step.rows source low high) (hid : id = low ∨ id = high)
      (hn : g.nodes[id]? = some n) :
      WellShaped g t indices blend outLens id n
  | arithmetic {id left right : NodeId} {operation : Instruction} {shape : Shape}
      {dims : List Dimension} (hoperation : operation ∈ [.sub, .mul, .add])
      (hleft : g.dims? left = some dims) (hright : g.dims? right = some dims) :
      WellShaped g t indices blend outLens id ⟨.instruction operation, [left, right], shape⟩

theorem dims?_eq_some (h : g.nodes[id]? = some n) : g.dims? id = some n.shape.dims := by
  rw [dims?, h]
  rfl

namespace GrowsTo

theorem dims?_eq_some {dims : List Dimension} (h : g.GrowsTo g') (hdims : g.dims? id = some dims) :
    g'.dims? id = some dims := by
  obtain ⟨n, hn, rfl⟩ := Option.map_eq_some_iff.1 hdims
  exact Graph.dims?_eq_some (h.getElem? hn)

theorem halves {rows : ℕ} {low high : NodeId} (h : g.GrowsTo g')
    (hhalves : g.Halves t outLens rows source low high) :
    g'.Halves t outLens rows source low high where
  source_dims := h.dims?_eq_some hhalves.source_dims
  bounds := hhalves.bounds
  low_eq := h.getElem? hhalves.low_eq
  high_eq := h.getElem? hhalves.high_eq

theorem wellShaped (h : g.GrowsTo g') (hn : g.WellShaped t indices blend outLens id n) :
    g'.WellShaped t indices blend outLens id n := by
  cases hn with
  | reshape => exact .reshape
  | literal => exact .literal
  | gather hconstant hkind hdims => exact .gather (h.getElem? hconstant) hkind hdims
  | slice hstep hhalves hid hn => exact .slice hstep (h.halves hhalves) hid (h.getElem? hn)
  | arithmetic hoperation hleft hright =>
    exact .arithmetic hoperation (h.dims?_eq_some hleft) (h.dims?_eq_some hright)

end GrowsTo

/-- Every node that `g'` has and `g` has not is well shaped. -/
def WellShapedSince (g g' : Graph) (t : ElementType) (indices : Literal) (blend : List BlendStep)
    (outLens : List ℕ) : Prop :=
  ∀ id n, g.size ≤ id → g'.nodes[id]? = some n → g'.WellShaped t indices blend outLens id n

namespace WellShapedSince

theorem refl (g : Graph) : g.WellShapedSince g t indices blend outLens :=
  fun _ _ hid hn => absurd (lt_size_of_getElem? hn) (Nat.not_lt.2 hid)

theorem trans (h : g.WellShapedSince g' t indices blend outLens)
    (h' : g'.WellShapedSince g'' t indices blend outLens) (hgrows : g'.GrowsTo g'') :
    g.WellShapedSince g'' t indices blend outLens := by
  intro id n hid hn
  by_cases hold : id < g'.size
  · rw [hgrows.getElem?_eq hold] at hn
    exact hgrows.wellShaped (h id n hid hn)
  · exact h' id n (Nat.le_of_not_lt hold) hn

theorem pushAll {nodes : List Node}
    (h : ∀ k n, nodes[k]? = some n →
      (g.pushAll nodes).WellShaped t indices blend outLens (g.size + k) n) :
    g.WellShapedSince (g.pushAll nodes) t indices blend outLens := by
  intro id n hid hn
  obtain ⟨k, rfl⟩ := Nat.exists_eq_add_of_le hid
  rw [getElem?_pushAll] at hn
  exact h k n hn

end WellShapedSince

/-! ## Inferred shapes -/

theorem add_instruction {operation : Instruction} {inputs : List NodeId} {shape : Shape}
    (h : g.inferShape operation inputs = .ok shape) :
    g.add (.instruction operation inputs) =
      .ok (g.push ⟨.instruction operation, inputs, shape⟩) := add_eq_ok.2 ⟨shape, h, rfl⟩

theorem inputShape_of_getElem? {inputs : List NodeId} {position : ℕ}
    (hinput : inputs[position]? = some source) (h : g.nodes[source]? = some n) :
    g.inputShape inputs position = .ok n.shape := by
  simp only [inputShape, hinput, shape, node, h, bind_eq_ok, pure_eq_ok, Except.ok.injEq,
    exists_eq_left']

theorem inputShape_zero {inputs : List NodeId} (h : g.nodes[source]? = some n) :
    g.inputShape (source :: inputs) 0 = .ok n.shape := inputShape_of_getElem? rfl h

theorem inferShape_reshape {dims : List Int64} (h : g.nodes[source]? = some n) :
    g.inferShape (.reshape dims) [source] =
      .ok ⟨n.shape.elementType, dims.map fun d => .known d.toInt.toNat⟩ := by
  rw [inferShape, inputShape_zero h]
  rfl

/-- A gather from a flat node has the dimensions of the indices. -/
theorem inferShape_gather_flat {constant : NodeId} {d : Dimension} (h : g.nodes[source]? = some n)
    (hflat : n.shape = ⟨t, [d]⟩) (hconstant : g.nodes[constant]? = some m) :
    g.inferShape (.gather 0) [source, constant] = .ok ⟨t, m.shape.dims⟩ := by
  have hsecond : g.inputShape [source, constant] 1 = .ok m.shape :=
    inputShape_of_getElem? rfl hconstant
  rw [inferShape, inputShape_zero h, hflat]
  simp [hsecond, bind, Except.bind, Shape.rank, pure, Except.pure]

theorem inferShape_rowSlice {len : ℕ} {start stop : Int64} (h : g.nodes[source]? = some n)
    (hshape : n.shape = .ofLens t (len :: rest)) :
    g.inferShape (ResizePlan.rowSlice start stop) [source] =
      .ok (.ofLens t (keptLength len start stop :: rest)) := by
  rw [inferShape, inputShape_zero h, hshape]
  rfl

theorem inferShape_arithmetic {operation : Instruction} {inputs : List NodeId}
    (hoperation : operation ∈ [.sub, .mul, .add]) (h : g.nodes[source]? = some n) :
    g.inferShape operation (source :: inputs) = .ok n.shape := by
  simp only [List.mem_cons, List.not_mem_nil, or_false] at hoperation
  rcases hoperation with rfl | rfl | rfl
  · rw [inferShape, inputShape_zero h]
    rfl
  · rw [inferShape, inputShape_zero h]
    rfl
  · rw [inferShape, inputShape_zero h]
    rfl

/-- A resize that runs with the graph keeps element type and rank, and no length is known. -/
theorem inferShape_resize (nearestMode coordinateMode : String) (inputs : List NodeId)
    (h : g.nodes[source]? = some n) :
    g.inferShape (.resize nearestMode coordinateMode) (source :: inputs) =
      .ok ⟨n.shape.elementType,
        (List.range n.shape.rank).map fun axis => .symbolic (runtimeLengthName g.size axis)⟩ := by
  rw [inferShape, inputShape_zero h]
  rfl

end Graph

/-! ## One blend -/

theorem keptLength_low {rows : ℕ} (h : (Int64.ofNat rows).toInt = rows) :
    keptLength (2 * rows) 0 (Int64.ofNat rows) = rows := by
  rw [keptLength, h, Int64.toInt_zero]
  omega

theorem keptLength_high {rows : ℕ} (h : (Int64.ofNat rows).toInt = rows)
    (h' : (2 * Int64.ofNat rows).toInt = (2 * rows : ℕ)) :
    keptLength (2 * rows) (Int64.ofNat rows) (2 * Int64.ofNat rows) = rows := by
  rw [keptLength, h, h']
  omega

namespace ResizePlan

open TensorResize.Graph

/-- The calls of a blend of node `source`, the first of which adds node `first`. -/
def stepCalls (first source : NodeId) (step : BlendStep) : List (Call NodeId) :=
  let rows := Int64.ofNat step.rows
  [.literal step.weights,
   .instruction (rowSlice 0 rows) [source],
   .instruction (rowSlice rows (2 * rows)) [source],
   .instruction .sub [first + 2, first + 1],
   .instruction .mul [first + 3, first],
   .instruction .add [first + 4, first + 1]]

theorem place_blendCalls (base k : ℕ) (step : BlendStep) :
    (blendCalls k [step]).map (Call.map (Operand.place (base + ·))) =
      stepCalls (base + (k + 1)) (base + k) step := rfl

/-- The nodes of a blend. All but the weights have the shape of one half. -/
def stepNodes (t : ElementType) (rest : List ℕ) (first source : NodeId) (step : BlendStep) :
    List Node :=
  let rows := Int64.ofNat step.rows
  let half := Shape.ofLens t (step.rows :: rest)
  [⟨.literal step.weights, [], step.weights.shape⟩,
   ⟨.instruction (rowSlice 0 rows), [source], half⟩,
   ⟨.instruction (rowSlice rows (2 * rows)), [source], half⟩,
   ⟨.instruction .sub, [first + 2, first + 1], half⟩,
   ⟨.instruction .mul, [first + 3, first], half⟩,
   ⟨.instruction .add, [first + 4, first + 1], half⟩]

/-- A blend of a node with an even number of rows can be made. -/
theorem perform_stepCalls {step : BlendStep} (hsource : g.nodes[source]? = some n)
    (hshape : n.shape = .ofLens t (2 * step.rows :: rest))
    (hrows : 2 * step.rows ≤ Word.maxEntries) :
    g.perform (stepCalls g.size source step) =
      (g.pushAll (stepNodes t rest g.size source step), none) := by
  obtain ⟨hmiddle, hend⟩ := toInt_ofNat_rows hrows
  have hat (nodes : List Node) : (g.pushAll nodes).nodes[source]? = some n :=
    (growsTo_pushAll g nodes).getElem? hsource
  let nodes := stepNodes t rest g.size source step
  have hweights : g.add (.literal step.weights) = .ok (g.pushAll (nodes.take 1)) := rfl
  have hlow : (g.pushAll (nodes.take 1)).add (.instruction (rowSlice 0 (Int64.ofNat step.rows))
      [source]) = .ok (g.pushAll (nodes.take 2)) :=
    add_instruction (by rw [inferShape_rowSlice (hat _) hshape, keptLength_low hmiddle])
  have hhigh : (g.pushAll (nodes.take 2)).add (.instruction (rowSlice (Int64.ofNat step.rows)
      (2 * Int64.ofNat step.rows)) [source]) = .ok (g.pushAll (nodes.take 3)) :=
    add_instruction (by rw [inferShape_rowSlice (hat _) hshape, keptLength_high hmiddle hend])
  -- the first operand of each arithmetic instruction is a half already
  have hsub : (g.pushAll (nodes.take 3)).add (.instruction .sub [g.size + 2, g.size + 1]) =
      .ok (g.pushAll (nodes.take 4)) :=
    add_instruction (inferShape_arithmetic (by simp) (getElem?_pushAll g (nodes.take 3) 2))
  have hmul : (g.pushAll (nodes.take 4)).add (.instruction .mul [g.size + 3, g.size]) =
      .ok (g.pushAll (nodes.take 5)) :=
    add_instruction (inferShape_arithmetic (by simp) (getElem?_pushAll g (nodes.take 4) 3))
  have hadd : (g.pushAll (nodes.take 5)).add (.instruction .add [g.size + 4, g.size + 1]) =
      .ok (g.pushAll nodes) :=
    add_instruction (inferShape_arithmetic (by simp) (getElem?_pushAll g (nodes.take 5) 4))
  rw [stepCalls, perform_cons hweights, perform_cons hlow, perform_cons hhigh, perform_cons hsub,
    perform_cons hmul, perform_cons hadd]
  rfl

/-- The two slices of a blend cover its source, and its operands agree. -/
theorem wellShaped_stepNodes {step : BlendStep} {k : ℕ} (hstep : step ∈ blend)
    (hsource : g.nodes[source]? = some n)
    (hshape : n.shape = .ofLens t (2 * step.rows :: outLens.tail))
    (hweights : step.weights.lens = step.rows :: outLens.tail)
    (hrows : 2 * step.rows ≤ Word.maxEntries)
    (hk : (stepNodes t outLens.tail g.size source step)[k]? = some m) :
    (g.pushAll (stepNodes t outLens.tail g.size source step)).WellShaped t indices blend outLens
      (g.size + k) m := by
  have hnode := getElem?_pushAll g (stepNodes t outLens.tail g.size source step)
  have hhalves : (g.pushAll (stepNodes t outLens.tail g.size source step)).Halves t outLens
      step.rows source (g.size + 1) (g.size + 2) := by
    refine ⟨?_, toInt_ofNat_rows hrows, hnode 1, hnode 2⟩
    rw [dims?_eq_some ((growsTo_pushAll g _).getElem? hsource), hshape]
    rfl
  have hdims (j : ℕ) : (g.pushAll (stepNodes t outLens.tail g.size source step)).dims?
      (g.size + j) = (stepNodes t outLens.tail g.size source step)[j]?.map (·.shape.dims) := by
    rw [dims?, hnode]
  have hconstant : (g.pushAll (stepNodes t outLens.tail g.size source step)).dims? g.size =
      some ((step.rows :: outLens.tail).map .known) := by
    rw [← hweights]
    exact hdims 0
  match k, hk with
  | 0, rfl => exact .literal
  | 1, rfl => exact .slice hstep hhalves (.inl rfl) (hnode 1)
  | 2, rfl => exact .slice hstep hhalves (.inr rfl) (hnode 2)
  | 3, rfl => exact .arithmetic (by simp) (hdims 2) (hdims 1)
  | 4, rfl => exact .arithmetic (by simp) (hdims 3) hconstant
  | 5, rfl => exact .arithmetic (by simp) (hdims 4) (hdims 1)
  | k + 6, hk => cases hk

/-- A blend of the node that the last call added can be made. It ends in a node with the shape of
one half, and the nodes that it adds are well shaped. -/
theorem perform_blendCalls_singleton {step : BlendStep} {base k : ℕ}
    (hsize : g.size = base + (k + 1)) (hsource : g.nodes[base + k]? = some n)
    (hshape : n.shape = .ofLens t (2 * step.rows :: outLens.tail)) (hstep : step ∈ blend)
    (hweights : step.weights.lens = step.rows :: outLens.tail)
    (hrows : 2 * step.rows ≤ Word.maxEntries) :
    ∃ g' m, g.perform ((blendCalls k [step]).map (Call.map (Operand.place (base + ·)))) =
        (g', none) ∧ g'.size = base + (k + 6 + 1) ∧ g'.nodes[base + (k + 6)]? = some m ∧
      m.shape = .ofLens t (step.rows :: outLens.tail) ∧
      g.WellShapedSince g' t indices blend outLens := by
  let sum : Node := ⟨.instruction .add, [base + (k + 1) + 4, base + (k + 1) + 1],
    .ofLens t (step.rows :: outLens.tail)⟩
  refine ⟨g.pushAll (stepNodes t outLens.tail g.size (base + k) step), sum, ?_, ?_, ?_, rfl, ?_⟩
  · rw [place_blendCalls, ← hsize]
    exact perform_stepCalls hsource hshape hrows
  · rw [size_pushAll, hsize]
    rfl
  · have hlast := getElem?_pushAll g (stepNodes t outLens.tail g.size (base + k) step) 5
    rw [hsize] at hlast ⊢
    exact hlast
  · exact .pushAll fun j m hm => wellShaped_stepNodes hstep hsource hshape hweights hrows hm

/-! ## All blends -/

/-- The blends of all axes can be made on a stack of one block per corner. They end in a node with
the output lengths, and the nodes that they add are well shaped. -/
theorem perform_blendCalls {axes : List AxisCorners} {base k : ℕ} (hsize : g.size = base + (k + 1))
    (hsource : g.nodes[base + k]? = some n)
    (hshape : n.shape = .ofLens t (stackLens (2 ^ axes.length) outLens))
    (hrank : axes.length ≤ outLens.length)
    (hfits : outLens.headD 0 * 2 ^ axes.length ≤ Word.maxEntries)
    (hblend : ∀ step ∈ blendSteps outLens axes, step ∈ blend) :
    ∃ g' m, g.perform ((blendCalls k (blendSteps outLens axes)).map
        (Call.map (Operand.place (base + ·)))) = (g', none) ∧
      g'.nodes[g'.size - 1]? = some m ∧ m.shape = .ofLens t outLens ∧
      g.WellShapedSince g' t indices blend outLens := by
  -- from the back, since the last axis is blended first; the stack halves with every axis
  induction axes using List.reverseRecOn generalizing g n k with
  | nil =>
    refine ⟨g, n, rfl, ?_, ?_, .refl g⟩
    · rw [hsize]
      exact hsource
    · rw [hshape, List.length_nil, Nat.pow_zero, stackLens_one]
  | append_singleton axes corners ih =>
    rw [List.length_append, List.length_singleton] at hshape hrank hfits
    have hstack (factor : ℕ) :
        stackLens factor outLens = outLens.headD 0 * factor :: outLens.tail := by
      cases outLens with
      | nil => simp at hrank
      | cons len rest => rfl
    have hdouble : outLens.headD 0 * 2 ^ (axes.length + 1) =
        2 * (outLens.headD 0 * 2 ^ axes.length) := by
      rw [Nat.pow_succ]
      ring
    rw [hdouble] at hfits
    rw [hstack, hdouble] at hshape
    rw [blendSteps_append] at hblend
    obtain ⟨g₁, n₁, hstep, hsize₁, hn₁, hshape₁, hwell₁⟩ :=
      @perform_blendCalls_singleton g n t indices blend outLens _ base k hsize hsource hshape
        (hblend _ (List.mem_cons_self ..)) (hstack _) hfits
    rw [← hstack] at hshape₁
    obtain ⟨g', m, hperform, hm, hlens, hwell⟩ := ih hsize₁ hn₁ hshape₁ (by omega) (by omega)
      fun step h => hblend step (List.mem_cons_of_mem _ h)
    refine ⟨g', m, ?_, hm, hlens, hwell₁.trans hwell (growsTo_of_perform hperform)⟩
    rw [blendSteps_append, blendCalls_cons, List.map_append, perform_append hstep]
    exact hperform

/-! ## The gather -/

/-- The nodes that flatten node `data` and gather from it. -/
def gatherNodes (t : ElementType) (first data : NodeId) (total : ℕ) (indices : Literal) :
    List Node :=
  [⟨.instruction (.reshape [Int64.ofNat total]), [data],
    ⟨t, [.known (Int64.ofNat total).toInt.toNat]⟩⟩,
   ⟨.literal indices, [], indices.shape⟩,
   ⟨.instruction (.gather 0), [first, first + 1], .ofLens t indices.lens⟩]

theorem perform_gatherCalls {data : NodeId} {total : ℕ} (hdata : g.nodes[data]? = some n) :
    g.perform ((gatherCalls data total indices).map (Call.map (Operand.place (g.size + ·)))) =
      (g.pushAll (gatherNodes n.shape.elementType g.size data total indices), none) := by
  let nodes := gatherNodes n.shape.elementType g.size data total indices
  have hreshape : g.add (.instruction (.reshape [Int64.ofNat total]) [data]) =
      .ok (g.pushAll (nodes.take 1)) := add_instruction (inferShape_reshape hdata)
  have hliteral : (g.pushAll (nodes.take 1)).add (.literal indices) =
      .ok (g.pushAll (nodes.take 2)) := rfl
  have hgather : (g.pushAll (nodes.take 2)).add (.instruction (.gather 0) [g.size, g.size + 1]) =
      .ok (g.pushAll nodes) :=
    add_instruction (inferShape_gather_flat (getElem?_pushAll g (nodes.take 2) 0) rfl
      (getElem?_pushAll g (nodes.take 2) 1))
  change g.perform [.instruction (.reshape [Int64.ofNat total]) [data], .literal indices,
    .instruction (.gather 0) [g.size, g.size + 1]] = _
  rw [perform_cons hreshape, perform_cons hliteral, perform_cons hgather]
  rfl

theorem wellShaped_gatherNodes {data : NodeId} {total k : ℕ}
    (hk : (gatherNodes t g.size data total indices)[k]? = some m) :
    (g.pushAll (gatherNodes t g.size data total indices)).WellShaped t indices blend outLens
      (g.size + k) m := by
  have hnode := getElem?_pushAll g (gatherNodes t g.size data total indices)
  match k, hk with
  | 0, rfl => exact .reshape
  | 1, rfl => exact .literal
  | 2, rfl => exact .gather (hnode 1) rfl rfl
  | k + 3, hk => cases hk

/-! ## Whole programs -/

theorem exists_appends_nearest {total : ℕ} (hdata : g.nodes[data]? = some n)
    (hlens : indices.lens = outLens) :
    ∃ g', g.Appends (nearest data total indices).program g'
        (.ofLens n.shape.elementType outLens) ∧
      g.WellShapedSince g' n.shape.elementType indices [] outLens := by
  refine ⟨_, ⟨perform_gatherCalls hdata, ?_⟩, .pushAll fun k m hm => wellShaped_gatherNodes hm⟩
  have hresult := getElem?_pushAll g (gatherNodes n.shape.elementType g.size data total indices) 2
  rw [← hlens]
  exact shape_of_getElem? hresult

theorem exists_appends_linear {total : ℕ} {axes : List AxisCorners}
    (hdata : g.nodes[data]? = some n)
    (hlens : indices.lens = stackLens (2 ^ axes.length) outLens)
    (hrank : axes.length ≤ outLens.length)
    (hfits : outLens.headD 0 * 2 ^ axes.length ≤ Word.maxEntries) :
    ∃ g', g.Appends (linear data total indices (blendSteps outLens axes)).program g'
        (.ofLens n.shape.elementType outLens) ∧
      g.WellShapedSince g' n.shape.elementType indices (blendSteps outLens axes) outLens := by
  let nodes := gatherNodes n.shape.elementType g.size data total indices
  have hgather : g.perform ((gatherCalls data total indices).map
      (Call.map (Operand.place (g.size + ·)))) = (g.pushAll nodes, none) :=
    perform_gatherCalls hdata
  obtain ⟨g', m, hperform, hm, hshape, hwell⟩ :=
    @perform_blendCalls (g.pushAll nodes) _ n.shape.elementType indices
      (blendSteps outLens axes) outLens axes g.size 2 (size_pushAll g nodes)
      (getElem?_pushAll g nodes 2) (congrArg (Shape.ofLens _) hlens) hrank hfits fun _ h => h
  have hprogram : g.perform ((linear data total indices (blendSteps outLens axes)).program.place
      (g.size + ·)) = (g', none) := by
    rw [program, Program.place, List.map_append, perform_append hgather]
    exact hperform
  refine ⟨g', ⟨hprogram, ?_⟩, ?_⟩
  · have hcalls : (linear data total indices (blendSteps outLens axes)).program.calls ≠ [] :=
      List.cons_ne_nil _ _
    have hresult := result_of_perform hcalls hprogram
    rw [← hshape, ← shape_of_getElem? hm, ← hresult, Nat.add_sub_cancel]
  · exact .trans (.pushAll fun k m hm => wellShaped_gatherNodes hm) hwell
      (growsTo_of_perform hperform)

/-- The program of a resize that runs with the graph yields the shape inferred for that resize,
under the id of the last node. -/
theorem exists_appends_runtime {scales : RuntimeScales} {nearestMode coordinateMode : String}
    (hdata : g.nodes[data]? = some n) :
    ∃ g' k, g.Appends (runtime data scales (.resize nearestMode coordinateMode)).program g'
      ⟨n.shape.elementType,
        (List.range n.shape.rank).map fun axis => .symbolic (runtimeLengthName k axis)⟩ := by
  let resized (id k : NodeId) : Node := ⟨.instruction (.resize nearestMode coordinateMode),
    [data, id], ⟨n.shape.elementType,
      (List.range n.shape.rank).map fun axis => .symbolic (runtimeLengthName k axis)⟩⟩
  cases scales with
  | existing id =>
    have hresize : g.add (.instruction (.resize nearestMode coordinateMode) [data, id]) =
        .ok (g.push (resized id g.size)) := add_instruction (inferShape_resize _ _ _ hdata)
    have hlast := getElem?_push_self g (resized id g.size)
    exact ⟨g.push (resized id g.size), g.size, perform_cons hresize, shape_of_getElem? hlast⟩
  | constant scales =>
    let g₁ := g.push ⟨.literal scales, [], scales.shape⟩
    have hliteral : g.add (.literal scales) = .ok g₁ := rfl
    have hdata₁ : g₁.nodes[data]? = some n := (GrowsTo.push g _).getElem? hdata
    have hresize : g₁.add (.instruction (.resize nearestMode coordinateMode) [data, g.size]) =
        .ok (g₁.push (resized g.size g₁.size)) := add_instruction (inferShape_resize _ _ _ hdata₁)
    have hresult : (runtime data (.constant scales)
        (.resize nearestMode coordinateMode)).program.result (g.size + ·) = g₁.size :=
      (size_push g _).symm
    refine ⟨g₁.push (resized g.size g₁.size), g₁.size,
      (perform_cons hliteral).trans (perform_cons hresize), ?_⟩
    rw [hresult]
    exact shape_of_getElem? (getElem?_push_self g₁ _)

/-- The shape of the result of a plan for a node whose data is node `n` of `g`, where `g'` is `g`
with the program of the plan appended. The result has the element type and the rank of the data. Its
lengths are the resolved ones and the added nodes are well shaped if the plan is precomputed, and no
length is known otherwise. -/
structure ResultShape (plan : ResizePlan) (o : Operator) (args : List Argument) (g g' : Graph)
    (n : Node) (shape : Shape) : Prop where
  elementType_eq : shape.elementType = n.shape.elementType
  rank_eq : shape.rank = n.shape.rank
  runtime : plan.gather? = none → ∀ d ∈ shape.dims, d.isKnown = false
  precomputed : ∀ total indices, plan.gather? = some (total, indices) →
    ∃ inLens scales outLens origin, n.shape.lens? = some inLens ∧
      Resolution.resolve o.attributes args inLens o.tag = .ok (.constant scales outLens origin) ∧
      shape = .ofLens n.shape.elementType outLens ∧
      g.WellShapedSince g' n.shape.elementType indices plan.steps outLens

variable {o : Operator} {ids : List NodeId} {args : List Argument} {settings : LoweringSettings}
  {plan : ResizePlan}

theorem ResultShape.of_precomputed {inLens outLens : List ℕ} {scales : List Binary64}
    {origin : Option NodeId} {total : ℕ} (hgather : plan.gather? = some (total, indices))
    (hlens : n.shape.lens? = some inLens)
    (hresolution :
      Resolution.resolve o.attributes args inLens o.tag = .ok (.constant scales outLens origin))
    (hwell : g.WellShapedSince g' n.shape.elementType indices plan.steps outLens) :
    plan.ResultShape o args g g' n (.ofLens n.shape.elementType outLens) where
  elementType_eq := rfl
  rank_eq := by
    obtain ⟨-, rfl⟩ := (Shape.lens?_eq_some 1).1 hlens
    rw [Shape.rank_ofLens, (Resolution.length_of_resolve hresolution).2, Shape.length_lensOr]
  runtime h := by
    rw [hgather] at h
    cases h
  precomputed total' indices' h := by
    rw [hgather, Option.some.injEq, Prod.mk.injEq] at h
    obtain ⟨-, rfl⟩ := h
    exact ⟨inLens, scales, outLens, origin, hlens, hresolution, rfl, hwell⟩

/-- A plan for snapshots of nodes of the graph can be appended to the graph. -/
theorem exists_appends_of_planResize (hargs : g.arguments ids = .ok args)
    (hplan : planResize o args settings = .ok plan) :
    ∃ data n g' shape, ids.head? = some data ∧ g.nodes[data]? = some n ∧
      g.Appends plan.program g' shape ∧ plan.ResultShape o args g g' n shape := by
  obtain ⟨settings, a, resolution, -, -, ha, -, rfl⟩ |
    ⟨settings, a, inLens, outLens, scales, hmade, h⟩ := planResize_eq_ok hplan
  · obtain ⟨hhead, n, hn, -⟩ := head?_of_arguments hargs ha
    obtain ⟨g', k, happends⟩ := exists_appends_runtime hn
    refine ⟨a.id, n, g', _, hhead, hn, happends, rfl, by simp [Shape.rank], ?_, ?_⟩
    · intro _ d hd
      obtain ⟨axis, -, rfl⟩ := List.mem_map.1 hd
      rfl
    · intro total indices hgather
      cases hgather
  · obtain ⟨hhead, n, hn, hshape⟩ := head?_of_arguments hargs hmade.data_eq
    have hlens : n.shape.lens? = some inLens := hshape ▸ hmade.lens_eq
    obtain ⟨origin, hresolution⟩ := hmade.resolution_eq
    have hmap := Axis.map_outLen_ofLists inLens outLens scales
    rcases h with ⟨-, rfl⟩ | ⟨-, hlinear⟩
    · obtain ⟨g', happends, hwell⟩ := exists_appends_nearest hn
        ((lens_indexLiteral _ _ _).trans hmap)
      exact ⟨a.id, n, g', _, hhead, hn, happends, .of_precomputed rfl hlens hresolution hwell⟩
    · obtain ⟨-, -, hfits, rfl⟩ := forLinear_eq_ok.1 hlinear
      have haxes : (CornerTable.build settings.transform
          (Axis.ofLists inLens outLens scales)).axes.length =
            (Axis.ofLists inLens outLens scales).length := CornerTable.rank_build _ _
      have hlength : (Axis.ofLists inLens outLens scales).length = outLens.length := by
        rw [← List.length_map Axis.outLen, hmap]
      rw [hmap, ← haxes] at hfits ⊢
      obtain ⟨g', happends, hwell⟩ := exists_appends_linear hn (lens_indexLiteral _ _ _)
        (haxes.trans hlength).le hfits
      exact ⟨a.id, n, g', _, hhead, hn, happends, .of_precomputed rfl hlens hresolution hwell⟩

/-- A node whose arguments are nodes of the graph is lowered as it is planned. A plan is appended as
a whole, and the shapes of its nodes are those that it was computed with. -/
theorem lower_lowerResize_resultShape (hids : ∀ id ∈ ids, id < g.size) :
    ∃ args, g.arguments ids = .ok args ∧
      match planResize o args settings with
      | .error e => g.lower ids (lowerResize o · settings) = .ok (.error e)
      | .ok plan => ∃ data n g' result shape,
          ids.head? = some data ∧ g.nodes[data]? = some n ∧
          g.lower ids (lowerResize o · settings) = .ok (.ok (g', result)) ∧
          g'.shape result = .ok shape ∧ plan.ResultShape o args g g' n shape := by
  obtain ⟨args, hargs⟩ := exists_arguments hids
  refine ⟨args, hargs, ?_⟩
  cases hplan : planResize o args settings with
  | error e => simp [Graph.lower, hargs, lowerResize, hplan, Except.map, bind, Except.bind, pure,
      Except.pure]
  | ok plan =>
    obtain ⟨data, n, g', shape, hhead, hn, happends, hresult⟩ :=
      exists_appends_of_planResize hargs hplan
    have hlower : lowerResize o args settings = .ok plan.program := by
      rw [lowerResize, hplan]
      rfl
    exact ⟨data, n, g', _, shape, hhead, hn,
      lower_eq_ok_ok.2 ⟨args, plan.program, hargs, hlower, happends.perform_eq, rfl⟩,
      happends.shape_eq, hresult⟩

/-- Two samples that are enlarged to four by a linear resize. -/
theorem lower_lowerResize_resultShape_two_to_four :
    ∃ g' result, (Graph.empty.addInput (.ofLens .float32 [2])).lower [0]
        (lowerResize ⟨"Upsample", .ofList [("mode", .string "linear"),
          ("scales", .floats [.ofNat .binary32 2])]⟩ · .standard) = .ok (.ok (g', result)) ∧
      g'.shape result = .ok (.ofLens .float32 [4]) := by
  let o : Operator := ⟨"Upsample", .ofList [("mode", .string "linear"),
    ("scales", .floats [.ofNat .binary32 2])]⟩
  let g := Graph.empty.addInput (.ofLens .float32 [2])
  obtain ⟨args, hargs, hlower⟩ :=
    @lower_lowerResize_resultShape g o [0] .standard (by decide)
  have hconstant : g.constant? 0 = none := by rw [constant?]; rfl
  obtain rfl : [.ofShape 0 (.ofLens .float32 [2]) none] = args := by
    obtain ⟨a, ha, rest, hrest, rfl⟩ := arguments_cons_eq_ok.1 hargs
    obtain ⟨n, hn, rfl⟩ := argument_eq_ok.1 ha
    cases hn
    cases hrest
    rw [hconstant]
    rfl
  have hgather : (planResize o [.ofShape 0 (.ofLens .float32 [2]) none] .standard).map gather? =
      .ok (some (2, ⟨[8], .int32 [0, 0, 0, 1, 0, 1, 1, 1]⟩)) := by decide +kernel
  cases hplan : planResize o [.ofShape 0 (.ofLens .float32 [2]) none] .standard with
  | error e =>
    rw [hplan] at hgather
    cases hgather
  | ok plan =>
    rw [hplan] at hlower hgather
    obtain ⟨data, n, g', result, shape, hhead, hn, hlower, hshape, hresult⟩ := hlower
    cases hhead
    cases hn
    obtain ⟨inLens, scales, outLens, origin, hlens, hresolution, rfl, -⟩ :=
      hresult.precomputed _ _ (Except.ok.inj hgather)
    obtain rfl : [2] = inLens := Option.some.inj hlens
    have htwice : Resolution.resolve o.attributes [.ofShape 0 (.ofLens .float32 [2]) none] [2]
        o.tag = .ok (.constant [.ofNat .binary64 2] [4] none) := by decide +kernel
    rw [hresolution, Except.ok.injEq, Resolution.constant.injEq] at htwice
    rw [htwice.2.1] at hshape
    exact ⟨g', result, hlower, hshape⟩

end ResizePlan

end TensorResize
