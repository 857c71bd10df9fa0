import TensorResize.Error
import TensorResize.Sampling.Axis
import TensorResize.Tensor.RowMajor

/-!
# Corners

In linear mode every output element lies between `2 ^ rank` source elements, its corners: along each
axis it takes the sample below or the sample above. A corner is numbered by its choices, where bit
`d` of the number is set if axis `d` takes the sample above. The last axis thus owns the highest
bit.

## Main definitions

* `AxisCorners`, `CornerTable` — both samples and the weight of every element, axis by axis.
* `CornerTable.build` — the table of a resize.
* `CornerTable.offsets` — where the corners are stored, one block of elements per corner.
-/

namespace TensorResize

/-- The samples around every output element along one axis. -/
structure AxisCorners where
  /-- The sample at or below each element. -/
  floor : List Nat
  /-- The sample at or above each element. -/
  ceil : List Nat
  /-- The weight of the sample above. -/
  weight : List Binary32
  deriving DecidableEq

/-- The samples on one side. -/
def AxisCorners.side (a : AxisCorners) (above : Bool) : List Nat := if above then a.ceil else a.floor

/-- The samples around every output element. Each list holds one entry per element. -/
structure CornerTable where
  axes : List AxisCorners
  /-- The number of output elements. -/
  elements : Nat
  deriving DecidableEq

namespace CornerTable

def rank (table : CornerTable) : Nat := table.axes.length

/-- The corners of all output elements in row-major order. -/
def build (t : CoordinateTransform) (axes : List Axis) : CornerTable :=
  let outLens := axes.map Axis.outLen
  let along (a : Axis) (d : Nat) : AxisCorners :=
    let xs := (RowMajor.positions outLens).map fun p => p.1.getD d 0
    ⟨xs.map (a.nearest t .floor), xs.map (a.nearest t .ceil), xs.map (a.weight t)⟩
  ⟨axes.zipIdx.map fun (a, d) => along a d, RowMajor.elements outLens⟩

/-- The source coordinates of one corner of an element. -/
def point (table : CornerTable) (corner element : Nat) : List Nat :=
  table.axes.zipIdx.map fun (a, d) => (a.side (corner.testBit d)).getD element 0

/-- The number of bits a corner number has room for. -/
def maxRank : Nat := 64

/-- The stored positions of all corners in a source with lengths `inLens`: for each corner in
ascending order, one block with the position for each element. The upper half of the blocks takes
the samples above along the last axis. -/
def offsets (table : CornerTable) (inLens : List Nat) (tag : String) :
    Except LoweringError (List Nat) :=
  if table.rank < maxRank then do
    let entries := (1 <<< table.rank) * table.elements
    checkEntries "neighbor table" entries tag
    return (List.range entries).map fun k =>
      RowMajor.offset inLens (table.point (k / table.elements) (k % table.elements))
  else throw (.inOperator tag (.dimensionOverflow table.rank maxRank))

end CornerTable

end TensorResize
