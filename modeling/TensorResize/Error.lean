import TensorResize.Word

/-!
# Errors

A fault is what is wrong with an operator node, whichever operator it is. An error is a fault with
the tag of the operator it was found in, or the lack of a parser for an operator. A check that can
fail is given the tag, and the error that it ends in carries it. No error is recovered from inside
the library.

## Main definitions

* `Fault` — the reasons for which a resize cannot be lowered.
* `LoweringError` — a fault under its operator's tag.
* `Fault.kind`, `Fault.message` — the stable name of a fault and what is wrong, in words.
* `orError`, `refuseIf`, `checkEntries` — the ways in which a check ends in an error.
-/

namespace TensorResize

/-- What is wrong with a resize. -/
inductive Fault where
  /-- The mode that crops to a region of interest. -/
  | croppingMode
  | unknownCoordinateMode (mode : String)
  | unsupportedInterpolation (mode : String)
  | unknownNearestMode (mode : String)
  | excludeOutside
  /-- An attribute holds another kind of value than expected. -/
  | attributeType (name expected : String)
  /-- There are more or fewer scales than dimensions. -/
  | rankMismatch (input scale : Nat)
  /-- There are more or fewer output lengths than dimensions. -/
  | outputRankMismatch (input sizes : Nat)
  | missingScaleOrSize
  /-- More dimensions than a corner number has bits. -/
  | dimensionOverflow (rank max : Nat)
  /-- A tensor that no allocation can hold. -/
  | tooManyElements (what : String)
  | dynamicLinear
  | missingInput
  deriving DecidableEq

namespace Fault

/-- A short, stable name for the kind of fault. -/
def kind : Fault → String
  | croppingMode => "UnsupportedCoordinateTransformMode"
  | unknownCoordinateMode _ => "UnknownCoordinateTransformMode"
  | unsupportedInterpolation _ => "UnsupportedInterpolationMode"
  | unknownNearestMode _ => "UnknownNearestMode"
  | excludeOutside => "UnsupportedExcludeOutside"
  | attributeType .. => "AttributeType"
  | rankMismatch .. => "RankMismatch"
  | outputRankMismatch .. => "OutputRankMismatch"
  | missingScaleOrSize => "MissingScaleOrSizeInput"
  | dimensionOverflow .. => "DimensionOverflow"
  | tooManyElements _ => "TooManyElements"
  | dynamicLinear => "UnsupportedDynamicLinear"
  | missingInput => "MissingInput"

/-- What is wrong, in words. -/
def message : Fault → String
  | croppingMode => "\"tf_crop_and_resize\" mode is not supported!"
  | unknownCoordinateMode mode => s!"unknown coordinate_transformation_mode \"{mode}\""
  | unsupportedInterpolation mode =>
    s!"only nearest and linear modes are supported, got \"{mode}\""
  | unknownNearestMode mode => s!"unknown nearest_mode \"{mode}\""
  | excludeOutside => "exclude_outside 1 is not supported!"
  | attributeType name expected => s!"attribute \"{name}\" should be {expected}"
  | rankMismatch input scale =>
    s!"ranks of input and scale are different! (input {input}, scale {scale})"
  | outputRankMismatch input sizes =>
    "specified output size's rank does not match input size " ++
      s!"(input {input}, sizes {sizes})"
  | missingScaleOrSize => "no shapes or scales input provided"
  | dimensionOverflow rank max => s!"shape dimension {rank} exceeds {max}"
  | tooManyElements what => s!"{what} has more elements than can be allocated"
  | dynamicLinear => "linear mode not supported for non-constant inputs"
  | missingInput => "missing data input"

end Fault

/-- Why an operator node could not be lowered. -/
inductive LoweringError where
  /-- A fault in the node of the operator with this tag. -/
  | inOperator (tag : String) (fault : Fault)
  /-- No parser is registered for this operator type. -/
  | unsupportedOperator (type : String)
  deriving DecidableEq

namespace LoweringError

/-- A short, stable name for the kind of error. -/
def kind : LoweringError → String
  | inOperator _ fault => fault.kind
  | unsupportedOperator _ => "UnsupportedOperator"

/-- The text shown to a user; a fault follows the tag of its operator. -/
def message : LoweringError → String
  | inOperator tag fault => s!"PARSE_{tag}: {fault.message}"
  | unsupportedOperator type => s!"no parser registered for operator \"{type}\""

end LoweringError

/-- The value, or an error where there is none. -/
def orError {α : Type} (value : Option α) (e : LoweringError) : Except LoweringError α :=
  match value with
  | some a => .ok a
  | none => .error e

/-- Goes on unless the condition holds. -/
def refuseIf (condition : Bool) (e : LoweringError) : Except LoweringError Unit :=
  if condition then .error e else .ok ()

/-- Refuses a tensor with more entries than an allocation holds. -/
def checkEntries (what : String) (entries : Nat) (tag : String) : Except LoweringError Unit :=
  if entries ≤ Word.maxEntries then .ok () else .error (.inOperator tag (.tooManyElements what))

end TensorResize
