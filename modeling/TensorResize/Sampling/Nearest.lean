import TensorResize.Binary.Basic

/-!
# Nearest samples

A continuous source coordinate is clamped to the samples of its dimension and then rounded to one of
them. A NaN coordinate counts as zero, and an empty dimension is clamped as if it had one sample.

## Main definitions

* `clampCoordinate` — the coordinate moved into `[0, inLen - 1]`.
* `NearestMode` — the four roundings.
* `NearestMode.index` — the sample a coordinate is rounded to.
-/

namespace TensorResize

/-- The coordinate moved into the range of the samples of a dimension of length `inLen`. -/
def clampCoordinate (inLen : Nat) (coordinate : Binary64) : Binary64 :=
  let upper := Binary.maxNum (.ofNat .binary64 inLen - .one) .zero
  Binary.minNum (Binary.maxNum coordinate .zero) upper

/-- How a clamped coordinate is rounded to a sample. -/
inductive NearestMode where
  /-- The nearest sample; halfway between two, the lower one. -/
  | roundPreferFloor
  /-- The nearest sample; halfway between two, the upper one. -/
  | roundPreferCeil
  /-- The sample at or below the coordinate. -/
  | floor
  /-- The sample at or above the coordinate. -/
  | ceil
  deriving DecidableEq

namespace NearestMode

/-- Every rounding. -/
def all : List NearestMode := [roundPreferFloor, roundPreferCeil, floor, ceil]

/-- The name of the rounding as an attribute value. -/
def name : NearestMode → String
  | roundPreferFloor => "round_prefer_floor"
  | roundPreferCeil => "round_prefer_ceil"
  | floor => "floor"
  | ceil => "ceil"

/-- The rounding with this name. -/
def ofName? (s : String) : Option NearestMode := all.find? (·.name == s)

theorem ofName?_name (m : NearestMode) : ofName? m.name = some m := by cases m <;> decide

/-- The rounding on a coordinate that is already in range. Half down is the ceiling of the
coordinate less one half; half up is the rounding away from zero. -/
def round (m : NearestMode) (c : Binary64) : Binary64 :=
  match m with
  | roundPreferFloor => (c - .half).ceil
  | roundPreferCeil => c.round
  | floor => c.floor
  | ceil => c.ceil

/-- The sample of a dimension of length `inLen` that a coordinate is rounded to. -/
def index (m : NearestMode) (inLen : Nat) (coordinate : Binary64) : Nat :=
  (m.round (clampCoordinate inLen coordinate)).toWord

end NearestMode

end TensorResize
