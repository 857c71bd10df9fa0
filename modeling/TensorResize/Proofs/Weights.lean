import TensorResize.Proofs.Comparison
import TensorResize.Proofs.CornerBlocks
import TensorResize.Proofs.Interpolation
import TensorResize.Resize.Resolution

/-!
# Weights in single precision

The weight of the sample above an output element is the distance of its source coordinate from the
sample below. In double precision the distance is exact and below one. It is stored in single
precision, where what is closer to one than half the spacing is rounded to one.

## Main definitions

* `Axis.fraction` — the exact distance.
-/

namespace TensorResize

open Binary RowMajor

/-- The numbers below one that are not rounded to one in single precision. -/
theorem Magnitude.ofRat_lt_one_iff {q : ℚ} (hq : q < 1) :
    (ofRat .binary32 q).code < (ofRat .binary32 1).code ↔ q < 1 - 1 / 2 ^ 25 := by
  constructor
  · intro hlt
    by_contra hge
    have hmid : (ofRat .binary32 (1 - 1 / 2 ^ 25)).code = (ofRat .binary32 1).code := by
      decide +kernel
    have hmono := ofRat_mono (f := .binary32) (not_lt.1 hge)
    omega
  · intro hlt
    have hone : (ofRat .binary32 1).toRat = 1 := by decide +kernel
    rcases le_or_gt q 0 with hneg | hpos
    · rw [ofRat_of_nonpos hneg]
      decide +kernel
    · have hfinite : (ofRat .binary32 q).code < Format.binary32.infinityCode :=
        (ofRat_mono hq.le).trans_lt (by decide +kernel)
      obtain ⟨k, hbinade, herror⟩ := exists_error_le hpos hfinite
      have hspacing : Format.binary32.spacing 125 = 1 / 2 ^ 24 := by
        rw [Format.spacing, show Format.binary32.minExponent = -149 by decide]
        norm_num
      -- the binade of the number is not above that of the numbers just below one
      have hk : k ≤ 125 := by
        have hbit : (Format.binary32.hiddenBit : ℚ) = 2 ^ 23 := by
          rw [show Format.binary32.hiddenBit = 2 ^ 23 by decide]
          norm_num
        refine hbinade.le (r := 1 - 1 / 2 ^ 25) ⟨?_, Or.inr ?_⟩ hlt.le
        · rw [hspacing, hbit]
          norm_num
        · rw [hspacing, hbit]
          norm_num
      have hle := Format.spacing_mono (f := .binary32) hk
      rw [← not_le, ← toRat_le_toRat_iff, hone, not_le]
      have := (abs_le.1 herror).2
      rw [hspacing] at hle
      linarith

namespace Axis

variable {a : Axis}

/-- The exact distance of the clamped source coordinate from the sample below. -/
def fraction (a : Axis) (t : CoordinateTransform) (x : ℕ) : ℚ :=
  Int.fract (clampedValue a.inLen (a.source t x))

/-- The weight is rounded once, from the exact distance. -/
theorem weight_eq (h : a.HasSamples) (t : CoordinateTransform) (x : ℕ) :
    a.weight t x = .number false (.ofRat .binary32 (a.fraction t x)) := by
  obtain ⟨m, hm, hfinite, hvalue⟩ := clampCoordinate_eq h.2 (a.source t x)
  have hbelow : m.toRat < maxLength := hvalue ▸ clampedValue_lt h.2 _
  have hrounds : NearestMode.floor.Rounds m.toRat (a.nearest t .floor x) :=
    hvalue ▸ NearestMode.floor.rounds_index h.2 (a.source t x)
  have hlast : a.nearest t .floor x ≤ a.inLen - 1 := NearestMode.floor.index_le h.2 _
  rw [weight, hm, fraction, ← hvalue]
  generalize a.nearest t .floor x = n at hrounds hlast
  obtain ⟨hlow, hhigh⟩ := hrounds
  obtain ⟨hfin, hval⟩ := natMagnitude_spec (n := n) (by have := h.2; omega)
  have htwice : ((2 * n : ℕ) : ℚ) / 2 = n := by
    push_cast
    ring
  obtain ⟨d, hd, hexact⟩ := Magnitude.exists_toRat_eq_sub_half (p := 2 * n) (by decide) hbelow
    (htwice ▸ hlow)
  rw [htwice] at hexact
  have hdFinite : d.isInfinite = false :=
    isInfinite_eq_false (hd.trans_lt (code_lt_of_isInfinite hfinite))
  have hfract : Int.fract m.toRat = d.toRat := by
    rw [Int.fract_eq_iff, hexact]
    exact ⟨by linarith, by linarith, n, by simp⟩
  change convert .binary32 (number false m - number false (natMagnitude n)) = _
  rw [sub_eq_of_toRat hfinite (isInfinite_eq_false hfin) (hval ▸ hexact), hfract]
  simp only [convert, hdFinite, Bool.false_eq_true, if_false]

/-- A weight is a number from zero to one. It is one exactly if the coordinate is at most half the
single-precision spacing below the next sample. -/
theorem weight_mem (h : a.HasSamples) (t : CoordinateTransform) (x : ℕ) :
    .zero ≤ a.weight t x ∧ a.weight t x ≤ .one ∧
      (a.weight t x < .one ↔ a.fraction t x < 1 - 1 / 2 ^ 25) := by
  have hlt : a.fraction t x < 1 := Int.fract_lt_one _
  have hone : (one : Binary32) = .number false (.ofRat .binary32 1) := by
    rw [one, ofNat, Nat.cast_one]
  rw [weight_eq h, hone, ← Magnitude.ofRat_lt_one_iff hlt]
  refine ⟨?_, ?_, ?_⟩
  · exact Int.natCast_nonneg _
  · exact Int.ofNat_le.2 (Magnitude.ofRat_mono hlt.le)
  · exact Int.ofNat_lt

end Axis

/-! ## The weights of a table -/

namespace CornerTable

/-- The coordinate of an output element along an axis. -/
theorem weight_build {t : CoordinateTransform} {axes : List Axis} {d element : ℕ}
    (hd : d < axes.length) (helement : element < (build t axes).elements) :
    (build t axes).weight d element =
      axes[d].weight t ((coordinates (axes.map Axis.outLen) element).getD d 0) := by
  have hpositions : element < RowMajor.elements (axes.map Axis.outLen) := helement
  simp [CornerTable.weight, build, positions_eq_map, hd, hpositions]

/-- The weights of a table are numbers from zero to one. A weight is below one exactly if the source
coordinate is more than `2 ^ (-25)` below the next sample; else single precision rounds it to
one, and the sample above is taken with full weight. -/
theorem weight_mem_unitInterval {axes : List Axis} (haxes : ∀ a ∈ axes, a.HasSamples)
    (t : CoordinateTransform) {d element : ℕ} (hd : d < axes.length)
    (helement : element < (build t axes).elements) :
    let x := (coordinates (axes.map Axis.outLen) element).getD d 0
    .zero ≤ (build t axes).weight d element ∧ (build t axes).weight d element ≤ .one ∧
      ((build t axes).weight d element < .one ↔ axes[d].fraction t x < 1 - 1 / 2 ^ 25) := by
  intro x
  rw [weight_build hd helement]
  exact Axis.weight_mem (haxes _ (List.getElem_mem hd)) t x

/-- Seven samples enlarged to nine. The fifth element lies so close below a sample that its weight
is one; the weight of the fourth is not. -/
theorem weight_mem_unitInterval_seven_to_nine :
    let a : Axis := ⟨7, 9, scaleBetween 7 9⟩
    a.fraction .halfPixel 4 = 1 - 1 / 2 ^ 51 ∧
      (build .halfPixel [a]).weight 0 4 ≤ .one ∧ ¬(build .halfPixel [a]).weight 0 4 < .one ∧
      (build .halfPixel [a]).weight 0 3 < .one := by
  intro a
  have haxes : ∀ b ∈ [a], b.HasSamples := by decide
  have hfraction : a.fraction .halfPixel 4 = 1 - 1 / 2 ^ 51 := by decide +kernel
  have hfraction' : a.fraction .halfPixel 3 < 1 - 1 / 2 ^ 25 := by decide +kernel
  obtain ⟨-, hle, hlt⟩ :=
    @weight_mem_unitInterval [a] haxes .halfPixel 0 4 (by decide) (by decide)
  obtain ⟨-, -, hlt'⟩ :=
    @weight_mem_unitInterval [a] haxes .halfPixel 0 3 (by decide) (by decide)
  refine ⟨hfraction, hle, ?_, hlt'.2 hfraction'⟩
  intro h
  have hbelow : a.fraction .halfPixel 4 < 1 - 1 / 2 ^ 25 := hlt.1 h
  rw [hfraction] at hbelow
  norm_num at hbelow

/-- A source of seven samples has a weight that is not below one. -/
theorem weight_not_lt_one_of_seven_to_nine :
    let axes : List Axis := [⟨7, 9, scaleBetween 7 9⟩]
    (∀ a ∈ axes, a.HasSamples) ∧ ¬(build .halfPixel axes).weight 0 4 < .one := by
  decide +kernel

end CornerTable

end TensorResize
