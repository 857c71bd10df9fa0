import TensorResize.Operator.Registry
import TensorResize.Resize.Resolution
import TensorResize.Sampling.Corner

/-!
# Plans

A plan is everything a resize is lowered to, computed before the first node is added. If all lengths
and scales are known, the source is flattened and gathered by a precomputed list of positions; in
linear mode the corners gathered this way are then blended, one axis after the other. Otherwise a
nearest resize is left to the running graph, and a linear one is refused.

## Main definitions

* `ResizePlan`, `BlendStep`, `RuntimeScales`.
* `planResize` — the plan of a node.
-/

namespace TensorResize

/-- The second input of a resize that runs with the graph. -/
inductive RuntimeScales where
  /-- An argument that is in the graph already. -/
  | existing (id : NodeId)
  /-- The scales of the attribute, as a constant to be added. -/
  | constant (scales : Literal)
  deriving DecidableEq

/-- The blend of the two halves of a tensor along its leading axis. -/
structure BlendStep where
  /-- The length of each half. -/
  rows : Nat
  /-- The weights of the upper half, shaped like one half. -/
  weights : Literal
  deriving DecidableEq

/-- What a resize is lowered to. -/
inductive ResizePlan where
  /-- One resize that runs with the graph. -/
  | runtime (data : NodeId) (scales : RuntimeScales) (instruction : Instruction)
  /-- A gather of the flattened source, which has `total` elements. -/
  | nearest (data : NodeId) (total : Nat) (indices : Literal)
  /-- A gather of all corners, and a blend per axis, the last axis first. -/
  | linear (data : NodeId) (total : Nat) (indices : Literal) (blend : List BlendStep)
  deriving DecidableEq

/-- A constant with the positions to gather from a source of `sourceElements` elements. They take
32 bits if every position in the source does. -/
def indexLiteral (lens offsets : List Nat) (sourceElements : Nat) : Literal :=
  if sourceElements ≤ 2147483647 then ⟨lens, .int32 (offsets.map Int32.ofNat)⟩
  else ⟨lens, .int64 (offsets.map Int64.ofNat)⟩

/-- The lengths with the leading one multiplied by `factor`. -/
def stackLens (factor : Nat) : List Nat → List Nat
  | [] => []
  | len :: rest => len * factor :: rest

/-- The stacked lengths, refused where the leading one is more than an allocation holds. -/
def checkedStack (factor : Nat) (outLens : List Nat) (tag : String) :
    Except LoweringError (List Nat) := do
  let lens := stackLens factor outLens
  checkEntries "stacked output" (lens.headD 0) tag
  return lens

/-- The list written out `2 ^ d` times. -/
def doubled {α : Type} : Nat → List α → List α
  | 0, xs => xs
  | d + 1, xs => doubled d (xs ++ xs)

/-- The source positions of a nearest resize, one per output element in row-major order. -/
def nearestOffsets (t : CoordinateTransform) (m : NearestMode) (axes : List Axis) : List Nat :=
  (RowMajor.positions (axes.map Axis.outLen)).map fun p =>
    RowMajor.offset (axes.map Axis.inLen) (List.zipWith (fun a x => a.nearest t m x) axes p.1)

/-- The step that blends the samples below and above along axis `d`. The axes before `d` are still
to be blended, so that each half holds `2 ^ d` corners. -/
def blendStep (outLens : List Nat) (corners : AxisCorners) (d : Nat) (tag : String) :
    Except LoweringError BlendStep := do
  let lens ← checkedStack (1 <<< d) outLens tag
  return ⟨lens.headD 0, ⟨lens, .float32 (doubled d corners.weight)⟩⟩

namespace ResizePlan

/-- The plan of a resize that runs with the graph. -/
def forRuntime (data : NodeId) (settings : ResizeSettings) (resolution : Resolution) :
    ResizePlan :=
  let scales := match resolution with
    | .deferred id | .constant _ _ (some id) => .existing id
    | .constant scales _ none =>
      .constant ⟨[scales.length], .float32 (scales.map (Binary.convert .binary32))⟩
  .runtime data scales (.resize settings.nearestMode.name settings.transform.name)

/-- The plan of a nearest resize of known lengths. -/
def forNearest (data : NodeId) (settings : ResizeSettings) (axes : List Axis) : ResizePlan :=
  let total := RowMajor.elements (axes.map Axis.inLen)
  let offsets := nearestOffsets settings.transform settings.nearestMode axes
  .nearest data total (indexLiteral (axes.map Axis.outLen) offsets total)

/-- The plan of a linear resize of known lengths. -/
def forLinear (data : NodeId) (settings : ResizeSettings) (axes : List Axis) (tag : String) :
    Except LoweringError ResizePlan := do
  let inLens := axes.map Axis.inLen
  let outLens := axes.map Axis.outLen
  let table := CornerTable.build settings.transform axes
  let offsets ← table.offsets inLens tag
  let lens ← checkedStack (1 <<< table.rank) outLens tag
  let total := RowMajor.elements inLens
  let blend ← table.axes.zipIdx.reverse.mapM fun (corners, d) => blendStep outLens corners d tag
  return .linear data total (indexLiteral lens offsets total) blend

/-- Refuses output lengths whose product is too large for an allocation or, taken from the left,
leaves the word. -/
def checkOutput (outLens : List Nat) (tag : String) : Except LoweringError Unit :=
  match Word.product? outLens with
  | some elements => checkEntries "output" elements tag
  | none => .error (.inOperator tag (.tooManyElements "output"))

end ResizePlan

/-- The plan of a resize node, whose first argument is the data. -/
def planResize (o : Operator) (args : List Argument) (lowering : LoweringSettings) :
    Except LoweringError ResizePlan := do
  let settings ← ResizeSettings.resolve o
  let data ← orError args.head? (.inOperator o.tag .missingInput)
  let inLens := data.shape.lensOr 1
  let resolution ← Resolution.resolve o.attributes args inLens o.tag
  let runtime := ResizePlan.forRuntime data.id settings resolution
  match settings.interpolation, resolution, data.shape.isDynamic with
  | .nearest, .deferred _, _ | .nearest, _, true => return runtime
  | .linear, .deferred _, _ | .linear, _, true => throw (.inOperator o.tag .dynamicLinear)
  | .nearest, .constant scales outLens _, false =>
    if lowering.preferGather then
      ResizePlan.checkOutput outLens o.tag
      return ResizePlan.forNearest data.id settings (Axis.ofLists inLens outLens scales)
    else return runtime
  | .linear, .constant scales outLens _, false =>
    ResizePlan.checkOutput outLens o.tag
    ResizePlan.forLinear data.id settings (Axis.ofLists inLens outLens scales) o.tag

end TensorResize
