import TensorResize.Sampling.Coordinate
import TensorResize.Sampling.Nearest

/-!
# Resampled axes

A resize with known lengths treats each axis by itself. An axis here is what that takes: the source
length, the output length and the scale.

## Main definitions

* `Axis`, `Axis.ofLists`.
* `Axis.nearest` — the source sample of an output coordinate.
* `Axis.weight` — how far the source coordinate lies above the sample below it.
-/

namespace TensorResize

/-- One axis of a resize. -/
structure Axis where
  inLen : Nat
  outLen : Nat
  scale : Binary64
  deriving DecidableEq

namespace Axis

/-- One axis per output length. Source lengths and scales are taken in order; where they run out, the
length is zero and the scale NaN. -/
def ofLists : List Nat → List Nat → List Binary64 → List Axis
  | _, [], _ => []
  | inLens, outLen :: outLens, scales =>
    ⟨inLens.headD 0, outLen, scales.headD .nan⟩ :: ofLists inLens.tail outLens scales.tail

/-- The source coordinate of an output coordinate. -/
def source (a : Axis) (t : CoordinateTransform) (x : Nat) : Binary64 :=
  t.source a.inLen a.outLen x a.scale

/-- The source sample of an output coordinate. -/
def nearest (a : Axis) (t : CoordinateTransform) (m : NearestMode) (x : Nat) : Nat :=
  m.index a.inLen (a.source t x)

/-- The distance of the source coordinate from the sample at or below it, in single precision. -/
def weight (a : Axis) (t : CoordinateTransform) (x : Nat) : Binary32 :=
  (clampCoordinate a.inLen (a.source t x) -
    .ofNat .binary64 (a.nearest t .floor x)).convert .binary32

@[simp] theorem map_outLen_ofLists (inLens outLens : List Nat) (scales : List Binary64) :
    (ofLists inLens outLens scales).map outLen = outLens := by
  induction outLens generalizing inLens scales with
  | nil => rfl
  | cons o os ih => simp [ofLists, ih]

@[simp] theorem length_ofLists (inLens outLens : List Nat) (scales : List Binary64) :
    (ofLists inLens outLens scales).length = outLens.length := by
  rw [← List.length_map outLen, map_outLen_ofLists]

theorem map_inLen_ofLists {inLens outLens : List Nat} (scales : List Binary64)
    (h : inLens.length = outLens.length) : (ofLists inLens outLens scales).map inLen = inLens := by
  induction outLens generalizing inLens scales with
  | nil => rw [List.eq_nil_of_length_eq_zero h]; rfl
  | cons o os ih =>
    match inLens, h with
    | i :: is, h => simp [ofLists, ih _ (Nat.succ.inj h)]

end Axis

end TensorResize
