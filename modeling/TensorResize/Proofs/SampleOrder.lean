import TensorResize.Proofs.Comparison
import TensorResize.Proofs.CornerBlocks

/-!
# The order of samples

A resize never reorders samples: of two output coordinates along an axis, the smaller one takes a
sample at or below that of the larger one, in every coordinate mode and every rounding. Each step
from the coordinate to the sample keeps the order of numbers. That no step gives a NaN is where the
lengths have to fit a word.

## Main definitions

* `Axis.IsForward` — the axes whose samples are taken in order.
-/

namespace TensorResize

open Binary RowMajor

/-! ## Lengths in double precision -/

theorem isFinite_half : (half : Binary64).IsFinite := by decide +kernel

theorem isFinite_one : (one : Binary64).IsFinite := by decide +kernel

section Word

variable {n : ℕ} (h : n ≤ Word.greatest)
include h

theorem isFinite_ofNat : (Binary.ofNat .binary64 n).IsFinite := by
  apply isFinite_of_le (by decide) (Int.natCast_nonneg _) (ofNat_le_ofNat h)
  decide +kernel

theorem isFinite_ofNat_add_half : (ofNat .binary64 n + .half : Binary64).IsFinite := by
  have hzero : (.zero : Binary64) ≤ .ofNat .binary64 0 + .half := by decide +kernel
  have hlow := Binary.add_le_add_right (by decide) (ofNat_le_ofNat (Nat.zero_le n)) isFinite_half
  have hhigh := Binary.add_le_add_right (by decide) (ofNat_le_ofNat h) isFinite_half
  apply isFinite_of_le (by decide) (Binary.le_trans hzero hlow) hhigh
  decide +kernel

/-- The last sample of a dimension with samples is at a finite coordinate that is not negative. -/
theorem ofNat_sub_one_mem (hpos : 0 < n) : .zero ≤ (ofNat .binary64 n - .one : Binary64) ∧
    (ofNat .binary64 n - .one : Binary64) ≤ .ofNat .binary64 Word.greatest - .one := by
  have hzero : (.zero : Binary64) ≤ .ofNat .binary64 1 - .one := by decide +kernel
  constructor
  · exact Binary.le_trans hzero
      (Binary.sub_le_sub_right (by decide) (ofNat_le_ofNat hpos) isFinite_one)
  · exact Binary.sub_le_sub_right (by decide) (ofNat_le_ofNat h) isFinite_one

theorem isFinite_ofNat_sub_one (hpos : 0 < n) : (ofNat .binary64 n - .one : Binary64).IsFinite := by
  obtain ⟨hlow, hhigh⟩ := ofNat_sub_one_mem h hpos
  exact isFinite_of_le (by decide) hlow hhigh (by decide +kernel)

/-- An output coordinate times the last source coordinate is finite. -/
theorem isFinite_ofNat_mul {x : ℕ} (hpos : 0 < n) (hx : x ≤ Word.greatest) :
    (Binary.ofNat .binary64 x * (.ofNat .binary64 n - .one)).IsFinite := by
  obtain ⟨hlow, hhigh⟩ := ofNat_sub_one_mem h hpos
  obtain ⟨hmul, hmul'⟩ := mul_mem (by decide) (Int.natCast_nonneg _) (ofNat_le_ofNat hx)
    (isFinite_ofNat le_rfl) hlow hhigh (by decide +kernel)
  exact isFinite_of_le (by decide) hmul hmul' (by decide +kernel)

end Word

/-- In each coordinate mode, a larger output coordinate has a larger source coordinate. -/
theorem CoordinateTransform.source_le_source {inLen outLen x y : ℕ} {scale : Binary64}
    (hpos : 0 < inLen) (hin : inLen ≤ Word.greatest) (hout : outLen ≤ Word.greatest)
    (hscale : .zero < scale) (hxy : x ≤ y) (hy : y < outLen) (t : CoordinateTransform) :
    t.source inLen outLen x scale ≤ t.source inLen outLen y scale := by
  have hyWord : y ≤ Word.greatest := hy.le.trans hout
  have hxWord : x ≤ Word.greatest := hxy.trans hyWord
  have hx : Binary.ofNat .binary64 x ≤ .ofNat .binary64 y := ofNat_le_ofNat hxy
  have hcentre : (Binary.ofNat .binary64 x + .half) / scale ≤
      (.ofNat .binary64 y + .half) / scale :=
    Binary.div_le_div_right (Binary.add_le_add_right (by decide) hx isFinite_half)
      (isFinite_ofNat_add_half hxWord) (isFinite_ofNat_add_half hyWord) hscale
  cases t with
  | halfPixel => exact Binary.sub_le_sub_right (by decide) hcentre isFinite_half
  | pytorchHalfPixel =>
    simp only [source]
    split
    · exact Binary.sub_le_sub_right (by decide) hcentre isFinite_half
    · exact Int.le_refl _
  | alignCorners =>
    simp only [source]
    split
    · exact Int.le_refl _
    · have hlast : (.zero : Binary64) < .ofNat .binary64 outLen - .one := by
        have htwo : (.zero : Binary64) < .ofNat .binary64 2 - .one := by decide +kernel
        exact Binary.lt_of_lt_of_le htwo
          (Binary.sub_le_sub_right (by decide) (ofNat_le_ofNat (by omega)) isFinite_one)
      apply Binary.div_le_div_right _ (isFinite_ofNat_mul hin hpos hxWord)
        (isFinite_ofNat_mul hin hpos hyWord) hlast
      exact Binary.mul_le_mul_right hx (isFinite_ofNat hxWord) (isFinite_ofNat hyWord)
        (isFinite_ofNat_sub_one hin hpos) (ofNat_sub_one_mem hin hpos).1
  | asymmetric =>
    exact Binary.div_le_div_right hx (isFinite_ofNat hxWord) (isFinite_ofNat hyWord) hscale
  | tfHalfPixelForNn => exact hcentre

/-! ## Samples -/

theorem clampCoordinate_le_clampCoordinate (inLen : ℕ) {c d : Binary64} (h : c ≤ d) :
    clampCoordinate inLen c ≤ clampCoordinate inLen d := by
  have hzero : (zero : Binary64) ≠ .nan := by decide
  exact minNum_le_minNum (maxNum_le_maxNum h hzero) (maxNum_ne_nan hzero)

theorem floor_mono : Monotone Rat.floor := fun _ _ h => Rat.floor_monotone h

theorem ceil_mono : Monotone Rat.ceil := by
  intro q r h
  exact Rat.ceil_le_iff.2 (h.trans Rat.le_ceil)

theorem roundHalfAway_mono : Monotone roundHalfAway := by
  intro q r h
  have hhalf : (0 : ℚ) ≤ mkRat 1 2 := by decide
  simp only [roundHalfAway]
  split
  · next hq =>
    split
    · exact neg_le_neg (floor_mono (by linarith))
    · next hr =>
      have hlow : 0 ≤ (-q + mkRat 1 2).floor := Rat.le_floor_iff.2 (by push_cast; linarith)
      have hhigh : 0 ≤ (r + mkRat 1 2).floor := Rat.le_floor_iff.2 (by push_cast; linarith)
      omega
  · next hq =>
    rw [if_neg (by linarith)]
    exact floor_mono (by linarith)

/-- A larger coordinate is rounded to a larger number. -/
theorem NearestMode.round_le_round (m : NearestMode) {c d : Binary64} (h : c ≤ d) :
    m.round c ≤ m.round d := by
  cases m with
  | roundPreferFloor =>
    exact toIntegral_le_toIntegral ceil_mono rfl (by decide)
      (Binary.sub_le_sub_right (by decide) h isFinite_half)
  | roundPreferCeil =>
    exact toIntegral_le_toIntegral roundHalfAway_mono (by decide +kernel) (by decide) h
  | floor => exact toIntegral_le_toIntegral floor_mono rfl (by decide) h
  | ceil => exact toIntegral_le_toIntegral ceil_mono rfl (by decide) h

/-- A larger coordinate is rounded to a larger sample. -/
theorem NearestMode.index_le_index (m : NearestMode) (inLen : ℕ) {c d : Binary64} (h : c ≤ d) :
    m.index inLen c ≤ m.index inLen d :=
  toWord_le_toWord (by decide) (m.round_le_round (clampCoordinate_le_clampCoordinate inLen h))

/-- Samples along the axis are taken in order: the scale is positive, the source is not empty, and
both lengths fit a word. -/
structure Axis.IsForward (a : Axis) : Prop where
  inLen_pos : 0 < a.inLen
  inLen_le : a.inLen ≤ Word.greatest
  outLen_le : a.outLen ≤ Word.greatest
  scale_pos : .zero < a.scale

/-- Along an axis that is taken in order, a larger output coordinate takes a larger sample. -/
theorem Axis.IsForward.nearest_le_nearest {a : Axis} (h : a.IsForward) (t : CoordinateTransform)
    (m : NearestMode) {x y : ℕ} (hxy : x ≤ y) (hy : y < a.outLen) :
    a.nearest t m x ≤ a.nearest t m y :=
  m.index_le_index a.inLen
    (CoordinateTransform.source_le_source h.inLen_pos h.inLen_le h.outLen_le h.scale_pos hxy hy t)

/-- A coordinate of a corner is the sample of one coordinate of the element. -/
theorem getD_cornerCoordinates {t : CoordinateTransform} {axes : List Axis} {coords : List ℕ}
    {d : ℕ} (corner : ℕ) (hd : d < axes.length) (hrank : coords.length = axes.length) :
    (cornerCoordinates t axes corner coords).getD d 0 =
      axes[d].nearest t (if corner.testBit d then .ceil else .floor) (coords.getD d 0) := by
  have hcoords : d < coords.length := hd.trans_eq hrank.symm
  simp [cornerCoordinates, hd, hcoords]

/-- A resize never reorders samples. Of two output coordinates along an axis, the smaller one takes
a sample at or below that of the larger one, whatever the coordinate mode and the rounding. The same
holds of the corners of output elements, on either side. -/
theorem Axis.samples_inOrder {axes : List Axis} (haxes : ∀ a ∈ axes, a.IsForward)
    (t : CoordinateTransform) :
    (∀ a ∈ axes, ∀ (m : NearestMode) (x y : ℕ), x ≤ y → y < a.outLen →
      a.nearest t m x ≤ a.nearest t m y) ∧
    ∀ corner d e e' : ℕ, e < (CornerTable.build t axes).elements →
      e' < (CornerTable.build t axes).elements →
      (coordinates (axes.map Axis.outLen) e).getD d 0 ≤
        (coordinates (axes.map Axis.outLen) e').getD d 0 →
      ((CornerTable.build t axes).point corner e).getD d 0 ≤
        ((CornerTable.build t axes).point corner e').getD d 0 := by
  have hnearest : ∀ a ∈ axes, ∀ (m : NearestMode) (x y : ℕ), x ≤ y → y < a.outLen →
      a.nearest t m x ≤ a.nearest t m y :=
    fun a ha m x y hxy hy => (haxes a ha).nearest_le_nearest t m hxy hy
  refine ⟨hnearest, ?_⟩
  intro corner d e e' he he' hcoords
  rw [CornerTable.point_build corner he, CornerTable.point_build corner he']
  rcases Nat.lt_or_ge d axes.length with hd | hd
  · rw [getD_cornerCoordinates corner hd (by simp), getD_cornerCoordinates corner hd (by simp)]
    apply hnearest _ (List.getElem_mem hd) _ _ _ hcoords
    have hrange : InRange (axes.map Axis.outLen) (coordinates (axes.map Axis.outLen) e') :=
      inRange_coordinates (he'.trans_le (elements_le_count _))
    have hlt := hrange.getD_lt (hd.trans_eq (List.length_map _).symm)
    rwa [List.getElem_map] at hlt
  · rw [List.getD_eq_default _ _ (by simpa [cornerCoordinates] using hd)]
    exact Nat.zero_le _

/-- Seven samples resized to nine: elements four and five take their samples in order, as do the
corners below them. -/
theorem Axis.samples_inOrder_seven_to_nine :
    let a : Axis := ⟨7, 9, .ofNat .binary64 9 / .ofNat .binary64 7⟩
    (4 ≤ 5 ∧ 5 < a.outLen) ∧
      a.nearest .halfPixel .roundPreferFloor 4 ≤ a.nearest .halfPixel .roundPreferFloor 5 ∧
      ((CornerTable.build .halfPixel [a]).point 0 4).getD 0 0 ≤
        ((CornerTable.build .halfPixel [a]).point 0 5).getD 0 0 := by
  intro a
  have ha : a.IsForward := ⟨by decide, by decide, by decide, by decide +kernel⟩
  have haxes : ∀ b ∈ [a], b.IsForward := List.forall_mem_singleton.2 ha
  obtain ⟨hnearest, hcorners⟩ := samples_inOrder haxes .halfPixel
  have hlt : 4 ≤ 5 ∧ 5 < a.outLen := by decide
  exact ⟨hlt, hnearest a (List.mem_singleton_self a) .roundPreferFloor 4 5 hlt.1 hlt.2,
    hcorners 0 0 4 5 (by decide) (by decide) (by decide)⟩

end TensorResize
