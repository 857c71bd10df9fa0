import TensorResize.Error
import TensorResize.Operator.Basic
import TensorResize.Sampling.Coordinate
import TensorResize.Sampling.Nearest

/-!
# Settings of a resize

The attributes of a resize node that choose how it samples, with their defaults. They are checked in
a fixed order, so that of several faults the first is reported: coordinate mode, outside samples,
interpolation, nearest mode. The nearest mode is checked in linear mode too.

## Main definitions

* `Interpolation`, `ResizeSettings`.
* `ResizeSettings.resolve` — the settings a node's attributes ask for.
-/

namespace TensorResize

/-- How output samples are made of source samples. -/
inductive Interpolation where
  | nearest
  | linear
  deriving DecidableEq

namespace Interpolation

/-- Every interpolation. -/
def all : List Interpolation := [nearest, linear]

/-- The name of the interpolation as an attribute value. -/
def name : Interpolation → String
  | nearest => "nearest"
  | linear => "linear"

/-- The interpolation with this name. -/
def ofName? (s : String) : Option Interpolation := all.find? (·.name == s)

theorem ofName?_name (i : Interpolation) : ofName? i.name = some i := by cases i <;> decide

end Interpolation

namespace Operator

/-- The text of an attribute, or a default where the attribute is missing. -/
def stringOr (o : Operator) (name default : String) : Except LoweringError String :=
  match o.attributes.get? name with
  | none => .ok default
  | some value => orError value.string? (.inOperator o.tag (.attributeType name "a string"))

/-- The integer of an attribute, or a default where the attribute is missing. -/
def intOr (o : Operator) (name : String) (default : Int64) : Except LoweringError Int64 :=
  match o.attributes.get? name with
  | none => .ok default
  | some value => orError value.int? (.inOperator o.tag (.attributeType name "an integer"))

end Operator

/-- How a resize samples. -/
structure ResizeSettings where
  interpolation : Interpolation
  transform : CoordinateTransform
  nearestMode : NearestMode
  /-- Whether samples outside the source get no weight. Settings that ask for it are refused. -/
  excludeOutside : Bool
  deriving DecidableEq

namespace ResizeSettings

/-- The mode that crops to a region of interest, which no transformation supports. -/
def croppingMode : String := "tf_crop_and_resize"

/-- The settings that a node's attributes ask for. -/
def resolve (o : Operator) : Except LoweringError ResizeSettings := do
  let coordinateMode ← o.stringOr "coordinate_transformation_mode" "half_pixel"
  refuseIf (coordinateMode == croppingMode) (.inOperator o.tag .croppingMode)
  let transform ← orError (CoordinateTransform.ofName? coordinateMode)
    (.inOperator o.tag (.unknownCoordinateMode coordinateMode))
  let excludeOutside ← o.intOr "exclude_outside" 0
  refuseIf (excludeOutside == 1) (.inOperator o.tag .excludeOutside)
  let mode ← o.stringOr "mode" "nearest"
  let interpolation ← orError (Interpolation.ofName? mode)
    (.inOperator o.tag (.unsupportedInterpolation mode))
  let nearestName ← o.stringOr "nearest_mode" "round_prefer_floor"
  let nearestMode ← orError (NearestMode.ofName? nearestName)
    (.inOperator o.tag (.unknownNearestMode nearestName))
  return ⟨interpolation, transform, nearestMode, false⟩

end ResizeSettings

end TensorResize
