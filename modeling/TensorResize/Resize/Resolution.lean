import TensorResize.Operator.Argument
import TensorResize.Resize.Settings

/-!
# Scales and output lengths

Where the scales and output lengths of a resize come from. A `scales` attribute with values wins.
Otherwise one argument decides: the first that is present, has dimensions and is not the data node
again. Integers in it are output lengths, anything else is scales.

## Main definitions

* `Resolution` — scales and output lengths, or the argument that holds them when the graph runs.
* `decidingArgument?` — the argument that decides.
* `Resolution.resolve` — the resolution over given source lengths.
-/

namespace TensorResize

/-- What is known of the scales of a resize. -/
inductive Resolution where
  /-- Scales and output lengths, with the argument they were read from; there is none if they come
  from the attribute. -/
  | constant (scales : List Binary64) (outLens : List Nat) (source : Option NodeId)
  /-- The argument gets its value when the graph runs. -/
  | deferred (argument : NodeId)
  deriving DecidableEq

/-- What an argument says about a resize. -/
inductive Reading where
  | scales (values : List Binary64)
  | lengths (values : List Nat)
  | deferred
  deriving DecidableEq

/-- The value of the `scales` attribute, empty if there is none. -/
def AttributeMap.scales (m : AttributeMap) (tag : String) :
    Except LoweringError (List Binary64) :=
  match m.get? "scales" with
  | none => .ok []
  | some value => do
    let scales ←
      orError value.floats? (.inOperator tag (.attributeType "scales" "a list of floats"))
    return scales.map (Binary.convert .binary64)

/-- Whether an argument can decide a resize of the node `data`: it is another node, it is not a
placeholder, and it has dimensions, which optional inputs that were left out have not. -/
def Argument.isEligible (a : Argument) (data : Option NodeId) : Bool :=
  some a.id != data && !a.undefined && a.shape.rank != 0

/-- The argument that decides; the data is the first of the list. -/
def decidingArgument? (args : List Argument) : Option Argument :=
  args.find? (·.isEligible (args.head?.map Argument.id))

/-- What an argument says about a resize of a source of this rank. A scales argument whose leading
dimension is not the rank gives no scales, which the check of their number then reports. -/
def Argument.reading (a : Argument) (rank : Nat) (tag : String) : Except LoweringError Reading :=
  let value := a.value.filter (!·.isEmpty)
  if a.shape.elementType.isInteger then
    match value with
    | none => .ok .deferred
    | some sizes =>
      let lens := sizes.toLengths
      if lens.length = rank then .ok (.lengths lens)
      else .error (.inOperator tag (.outputRankMismatch rank lens.length))
  else if a.shape.dims.head?.bind Dimension.length? = some rank then
    match value with
    | none => .ok .deferred
    | some scales => .ok (.scales scales.toDoubles)
  else .ok (.scales [])

/-- The scale that takes a source length to an output length. -/
def scaleBetween (inLen outLen : Nat) : Binary64 :=
  .ofNat .binary64 outLen / .ofNat .binary64 inLen

/-- The output length that a scale gives, truncated. -/
def scaledLength (inLen : Nat) (scale : Binary64) : Nat :=
  (.ofNat .binary64 inLen * scale : Binary64).toWord

namespace Resolution

def isConstant : Resolution → Bool
  | constant .. => true
  | deferred _ => false

/-- The resolution to these scales, one per dimension. Output lengths that are all zero, or not
given, are derived from the scales. -/
def ofScales (inLens : List Nat) (scales : List Binary64) (outLens : List Nat)
    (source : Option NodeId) (tag : String) : Except LoweringError Resolution :=
  if scales.length = inLens.length then
    .ok (.constant scales
      (if outLens.all (· == 0) then List.zipWith scaledLength inLens scales else outLens) source)
  else .error (.inOperator tag (.rankMismatch inLens.length scales.length))

/-- Determines scales and output lengths of a resize of a source with lengths `inLens`, in the
operator with this tag. -/
def resolve (attributes : AttributeMap) (args : List Argument) (inLens : List Nat)
    (tag : String) : Except LoweringError Resolution := do
  let scales ← attributes.scales tag
  if scales.isEmpty then
    let a ← orError (decidingArgument? args) (.inOperator tag .missingScaleOrSize)
    match ← a.reading inLens.length tag with
    | .deferred => return .deferred a.id
    | .lengths outLens =>
      ofScales inLens (List.zipWith scaleBetween inLens outLens) outLens (some a.id) tag
    | .scales values => ofScales inLens values [] (some a.id) tag
  else ofScales inLens scales [] none tag

end Resolution

end TensorResize
