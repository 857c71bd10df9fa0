import TensorResize.Binary.Basic

/-!
# Coordinate transformations

A transformation maps an output coordinate along one dimension to a continuous source coordinate.
The formulas are in double precision and are rounded operation by operation, in the order written.

Cropping to a region of interest has no transformation here; the name of that mode is refused while
a node's settings are resolved.

## Main definitions

* `CoordinateTransform` — the five supported transformations.
* `CoordinateTransform.ofName?` — the transformation an attribute names.
* `CoordinateTransform.source` — the source coordinate of an output coordinate.
-/

namespace TensorResize

/-- How output coordinates are laid over source coordinates. -/
inductive CoordinateTransform where
  /-- Sample centres: `(x + 0.5) / scale - 0.5`. -/
  | halfPixel
  /-- Sample centres, except that an output of length one samples coordinate zero. -/
  | pytorchHalfPixel
  /-- The first and last samples of both sides coincide: `x * (inLen - 1) / (outLen - 1)`. -/
  | alignCorners
  /-- Left edges coincide: `x / scale`. -/
  | asymmetric
  /-- Output centres over source edges: `(x + 0.5) / scale`. -/
  | tfHalfPixelForNn
  deriving DecidableEq

namespace CoordinateTransform

/-- Every transformation. -/
def all : List CoordinateTransform :=
  [halfPixel, pytorchHalfPixel, alignCorners, asymmetric, tfHalfPixelForNn]

/-- The name of the transformation as an attribute value. -/
def name : CoordinateTransform → String
  | halfPixel => "half_pixel"
  | pytorchHalfPixel => "pytorch_half_pixel"
  | alignCorners => "align_corners"
  | asymmetric => "asymmetric"
  | tfHalfPixelForNn => "tf_half_pixel_for_nn"

/-- The transformation with this name. -/
def ofName? (s : String) : Option CoordinateTransform := all.find? (·.name == s)

theorem ofName?_name (t : CoordinateTransform) : ofName? t.name = some t := by cases t <;> decide

/-- The source coordinate of output coordinate `x`, for a dimension of length `inLen` resized to
`outLen` by `scale`. -/
def source (t : CoordinateTransform) (inLen outLen x : Nat) (scale : Binary64) : Binary64 :=
  let x := Binary.ofNat .binary64 x
  match t with
  | halfPixel => (x + .half) / scale - .half
  | pytorchHalfPixel => if 1 < outLen then (x + .half) / scale - .half else .zero
  | alignCorners =>
    if outLen = 1 then .zero
    else x * (.ofNat .binary64 inLen - .one) / (.ofNat .binary64 outLen - .one)
  | asymmetric => x / scale
  | tfHalfPixelForNn => (x + .half) / scale

end CoordinateTransform

end TensorResize
