import Mathlib.Data.List.GetD
import TensorResize.Proofs.Plan
import TensorResize.Proofs.SampleRange

/-!
# Where corners are stored

If the samples around every element are samples of the source, all corners are stored in the source.
The samples of a table are so for a source without empty axes, however its scales come out.

## Main definitions

* `CornerTable.Within` — all samples of a table are samples of the source.
* `CornerTable.IsFilled` — every list of samples has an entry for every element.
-/

namespace TensorResize

open RowMajor

/-- Along every axis, the samples around all elements are below the source length. -/
def CornerTable.Within (table : CornerTable) (inLens : List ℕ) : Prop :=
  ∀ p ∈ table.axes.zip inLens, (∀ i ∈ p.1.floor, i < p.2) ∧ ∀ i ∈ p.1.ceil, i < p.2

instance CornerTable.decidableWithin (table : CornerTable) (inLens : List ℕ) :
    Decidable (table.Within inLens) :=
  inferInstanceAs (Decidable (∀ p ∈ table.axes.zip inLens, _))

/-- Along every axis, both samples are listed for every element. -/
def CornerTable.IsFilled (table : CornerTable) : Prop :=
  ∀ corners ∈ table.axes,
    corners.floor.length = table.elements ∧ corners.ceil.length = table.elements

instance CornerTable.decidableIsFilled (table : CornerTable) : Decidable table.IsFilled :=
  inferInstanceAs (Decidable (∀ corners ∈ table.axes, _))

theorem AxisCorners.side_lt {corners : AxisCorners} {len element : ℕ} (above : Bool)
    (hfloor : element < corners.floor.length) (hceil : element < corners.ceil.length)
    (hbelow : ∀ i ∈ corners.floor, i < len) (habove : ∀ i ∈ corners.ceil, i < len) :
    (corners.side above).getD element 0 < len := by
  cases above with
  | false =>
    change corners.floor.getD element 0 < len
    rw [List.getD_eq_getElem _ _ hfloor]
    exact hbelow _ (List.getElem_mem hfloor)
  | true =>
    change corners.ceil.getD element 0 < len
    rw [List.getD_eq_getElem _ _ hceil]
    exact habove _ (List.getElem_mem hceil)

theorem inRange_sides {axes : List AxisCorners} {inLens : List ℕ} {corner element : ℕ} (first : ℕ)
    (hrank : axes.length = inLens.length)
    (hsides : ∀ corners ∈ axes, element < corners.floor.length ∧ element < corners.ceil.length)
    (hwithin : ∀ p ∈ axes.zip inLens, (∀ i ∈ p.1.floor, i < p.2) ∧ ∀ i ∈ p.1.ceil, i < p.2) :
    InRange inLens ((axes.zipIdx first).map fun (corners, d) =>
      (corners.side (corner.testBit d)).getD element 0) := by
  induction axes generalizing inLens first with
  | nil =>
    rw [List.eq_nil_of_length_eq_zero hrank.symm]
    exact inRange_nil
  | cons corners axes ih =>
    cases inLens with
    | nil => cases hrank
    | cons len inLens =>
      obtain ⟨hbelow, habove⟩ := hwithin (corners, len) (List.mem_cons_self ..)
      obtain ⟨hfloor, hceil⟩ := hsides corners (List.mem_cons_self ..)
      rw [List.zipIdx_cons, List.map_cons, inRange_cons]
      constructor
      · exact AxisCorners.side_lt _ hfloor hceil hbelow habove
      · exact ih (first + 1) (Nat.succ.inj hrank)
          (fun corners h => hsides corners (List.mem_cons_of_mem _ h))
          fun p h => hwithin p (List.mem_cons_of_mem _ h)

namespace CornerTable

variable {t : CoordinateTransform} {axes : List Axis} {corner element : ℕ}

/-- If all samples are samples of the source, every corner is in range. -/
theorem IsFilled.inRange_point {table : CornerTable} {inLens : List ℕ} (hfilled : table.IsFilled)
    (hrank : inLens.length = table.rank) (helement : element < table.elements)
    (hwithin : table.Within inLens) : InRange inLens (table.point corner element) := by
  refine inRange_sides 0 hrank.symm (fun corners h => ?_) hwithin
  obtain ⟨hfloor, hceil⟩ := hfilled corners h
  exact ⟨helement.trans_eq hfloor.symm, helement.trans_eq hceil.symm⟩

theorem isFilled_build (t : CoordinateTransform) (axes : List Axis) : (build t axes).IsFilled :=
  fun _ h => ⟨(length_of_mem_build h).1, (length_of_mem_build h).2.1⟩

theorem inRange_point (helement : element < (build t axes).elements)
    (hwithin : (build t axes).Within (axes.map Axis.inLen)) :
    InRange (axes.map Axis.inLen) ((build t axes).point corner element) :=
  (isFilled_build t axes).inRange_point (by simp) helement hwithin

/-- The corners of an element are stored in the source. -/
theorem offset_point_lt (helement : element < (build t axes).elements)
    (hwithin : (build t axes).Within (axes.map Axis.inLen))
    (hcount : count (axes.map Axis.inLen) < Word.modulus) :
    offset (axes.map Axis.inLen) ((build t axes).point corner element) <
      count (axes.map Axis.inLen) := by
  have hrange := @inRange_point t axes corner element helement hwithin
  rw [offset_eq_position hrange hcount]
  exact position_lt hrange

/-- Every stored position of a table is one in the source. -/
theorem stored_lt {k : ℕ} (hk : k < 2 ^ (build t axes).rank * (build t axes).elements)
    (hwithin : (build t axes).Within (axes.map Axis.inLen))
    (hcount : count (axes.map Axis.inLen) < Word.modulus) :
    (build t axes).stored (axes.map Axis.inLen) k < count (axes.map Axis.inLen) := by
  have hpos : 0 < (build t axes).elements := by
    apply Nat.pos_of_ne_zero
    intro h
    simp only [h, Nat.mul_zero, Nat.not_lt_zero] at hk
  exact offset_point_lt (Nat.mod_lt k hpos) hwithin hcount

theorem stored_mul_add (table : CornerTable) (inLens : List ℕ) (h : element < table.elements) :
    table.stored inLens (corner * table.elements + element) =
      offset inLens (table.point corner element) := by
  have hpos : 0 < table.elements := Nat.zero_lt_of_lt h
  rw [stored, Nat.mul_comm, Nat.mul_add_div hpos, Nat.div_eq_of_lt h, Nat.add_zero,
    Nat.mul_add_mod, Nat.mod_eq_of_lt h]

/-- The samples of a table are samples of the source, whatever the scales. -/
theorem within_build (t : CoordinateTransform) (h : ∀ a ∈ axes, a.HasSamples) :
    (build t axes).Within (axes.map Axis.inLen) := by
  intro p hp
  obtain ⟨d, hd, rfl⟩ := List.mem_iff_getElem.1 hp
  have hd : d < axes.length := by simpa [build] using hd
  have hsamples := h axes[d] (List.getElem_mem hd)
  simp only [build, List.getElem_zip, List.getElem_map, List.getElem_zipIdx]
  constructor
  · intro i hi
    obtain ⟨x, -, rfl⟩ := List.mem_map.1 hi
    exact Axis.nearest_lt hsamples t .floor x
  · intro i hi
    obtain ⟨x, -, rfl⟩ := List.mem_map.1 hi
    exact Axis.nearest_lt hsamples t .ceil x

end CornerTable

end TensorResize
