import Mathlib.Data.Finset.Card
import Mathlib.Order.Interval.Finset.Nat
import TensorResize.Proofs.Growth

/-!
# Shapes of slices

A slice is inferred bound by bound: each bound is clamped to the axis, and the difference is the new
length. This is the number of positions of the axis from the start on and before the end, for bounds
of any sign and in any order. Several cuts of one slice are made one after the other, so that a cut
along an axis that was cut already sees the length that is left.

## Main definitions

* `keptPositions` — the number of positions that a cut keeps.
* `cutAxes` — the dimensions after some cuts.
* `Dimension.Shortens` — what a cut can do to a dimension.
-/

namespace TensorResize

variable {dims : List Dimension} {d d' d'' : Dimension} {start stop : Int64}
  {cuts : List (ℕ × Int64 × Int64)}

/-! ## Bounds -/

/-- The number of positions below `len` from `start` on and before `stop`. -/
def keptPositions (len : ℕ) (start stop : ℤ) : ℕ :=
  ((Finset.range len).filter fun i : ℕ => start ≤ i ∧ i < stop).card

theorem keptPositions_le (len : ℕ) (start stop : ℤ) : keptPositions len start stop ≤ len :=
  (Finset.card_filter_le _ _).trans_eq (Finset.card_range len)

/-- The clamped bounds are as far apart as there are positions between them. -/
theorem keptLength_eq_keptPositions (len : ℕ) (start stop : Int64) :
    keptLength len start stop = keptPositions len start.toInt stop.toInt := by
  have hinterval : ((Finset.range len).filter fun i : ℕ => start.toInt ≤ i ∧ i < stop.toInt) =
      Finset.Ico (min start.toInt.toNat len) (min stop.toInt.toNat len) := by
    ext i
    simp only [Finset.mem_filter, Finset.mem_range, Finset.mem_Ico]
    omega
  rw [keptPositions, hinterval, Nat.card_Ico, keptLength]

/-- A bound that is raised to zero first does not wrap when it is cast to a word. -/
theorem toNat_toUInt64_max_zero (v : Int64) :
    ((max v 0).toUInt64.toNat : ℤ) = max v.toInt 0 := by
  by_cases hv : v ≤ 0
  · have hmax : max v 0 = 0 := if_pos hv
    rw [Int64.le_iff_toInt_le, Int64.toInt_zero] at hv
    rw [hmax, max_eq_right hv]
    rfl
  · have hmax : max v 0 = v := if_neg hv
    rw [Int64.le_iff_toInt_le, Int64.toInt_zero, not_le] at hv
    rw [hmax, Int64.toNat_toUInt64_of_le (Int64.le_iff_toInt_le.2 hv.le), max_eq_left hv.le]
    exact Int.toNat_of_nonneg hv.le

/-- The kept length, computed in words. -/
theorem keptLength_eq_words (len : ℕ) (start stop : Int64) :
    keptLength len start stop =
      min (max stop 0).toUInt64.toNat len - min (max start 0).toUInt64.toNat len := by
  have hstart := toNat_toUInt64_max_zero start
  have hstop := toNat_toUInt64_max_zero stop
  rw [keptLength]
  omega

/-! ## Cuts -/

namespace Dimension

/-- The dimension after a cut. A symbolic dimension stays. -/
def cut (start stop : Int64) : Dimension → Dimension
  | known len => known (keptPositions len start.toInt stop.toInt)
  | symbolic name => symbolic name

/-- A known length is replaced by one that is not greater; a symbolic dimension stays. -/
inductive Shortens : Dimension → Dimension → Prop where
  | known {len kept : ℕ} (h : kept ≤ len) : Shortens (known len) (known kept)
  | symbolic {name : String} : Shortens (symbolic name) (symbolic name)

theorem Shortens.refl (d : Dimension) : d.Shortens d := by
  cases d with
  | known len => exact .known le_rfl
  | symbolic name => exact .symbolic

theorem Shortens.trans (h : d.Shortens d') (h' : d'.Shortens d'') : d.Shortens d'' := by
  cases h with
  | symbolic => exact h'
  | known hle =>
    cases h' with
    | known hle' => exact .known (hle'.trans hle)

theorem shortens_cut (d : Dimension) (start stop : Int64) : d.Shortens (d.cut start stop) := by
  cases d with
  | known len => exact .known (keptPositions_le len _ _)
  | symbolic name => exact .symbolic

end Dimension

/-- The dimensions after cuts that are made one after the other, each along an axis from a start to
an end. -/
def cutAxes (dims : List Dimension) (cuts : List (ℕ × Int64 × Int64)) : List Dimension :=
  cuts.foldl (fun dims cut => dims.modify cut.1 (Dimension.cut cut.2.1 cut.2.2)) dims

/-- A slice along one axis cuts its dimension. -/
theorem sliceAxis_eq_modify {axis : ℕ} (haxis : axis < dims.length) :
    sliceAxis dims axis start stop = .ok (dims.modify axis (Dimension.cut start stop)) := by
  rw [sliceAxis, List.getElem?_eq_getElem haxis, List.modify_eq_set_get _ haxis,
    List.get_eq_getElem]
  cases hdim : dims[axis] with
  | known len => rw [Dimension.cut, ← keptLength_eq_keptPositions]
  | symbolic name =>
    have hstays : dims.set axis (.symbolic name) = dims := by rw [← hdim, List.set_getElem_self]
    exact congrArg Except.ok hstays.symm

/-- Slices along several axes make the cuts in order. -/
theorem sliceAxes_eq_cutAxes {axes : List ℕ} (starts ends : List Int64)
    (haxes : ∀ axis ∈ axes, axis < dims.length) :
    sliceAxes dims axes starts ends = .ok (cutAxes dims (axes.zip (starts.zip ends))) := by
  have hcuts : ∀ cut ∈ axes.zip (starts.zip ends), cut.1 < dims.length :=
    fun cut hcut => haxes cut.1 (List.of_mem_zip hcut).1
  rw [sliceAxes]
  generalize axes.zip (starts.zip ends) = cuts at hcuts
  clear haxes
  induction cuts generalizing dims with
  | nil => rfl
  | cons cut cuts ih =>
    obtain ⟨hfirst, hrest⟩ := List.forall_mem_cons.1 hcuts
    rw [List.foldlM_cons, sliceAxis_eq_modify hfirst]
    exact ih (by simpa using hrest)

/-- The cuts that are made along an axis. -/
def cutsAlong (axis : ℕ) (cuts : List (ℕ × Int64 × Int64)) : List (Int64 × Int64) :=
  (cuts.filter (·.1 = axis)).map Prod.snd

/-- The dimension after some cuts along it. -/
def Dimension.cutAll (d : Dimension) (cuts : List (Int64 × Int64)) : Dimension :=
  cuts.foldl (fun d cut => d.cut cut.1 cut.2) d

theorem Dimension.shortens_cutAll (d : Dimension) (cuts : List (Int64 × Int64)) :
    d.Shortens (d.cutAll cuts) := by
  induction cuts generalizing d with
  | nil => exact .refl d
  | cons cut cuts ih => exact (d.shortens_cut cut.1 cut.2).trans (ih _)

/-- Every dimension goes through the cuts along its own axis, in their order. -/
theorem getElem?_cutAxes (dims : List Dimension) (cuts : List (ℕ × Int64 × Int64)) (axis : ℕ) :
    (cutAxes dims cuts)[axis]? = dims[axis]?.map (·.cutAll (cutsAlong axis cuts)) := by
  induction cuts generalizing dims with
  | nil => simp [cutAxes, cutsAlong, Dimension.cutAll]
  | cons cut cuts ih =>
    rw [cutAxes, List.foldl_cons, ← cutAxes, ih, List.getElem?_modify]
    by_cases haxis : cut.1 = axis
    · simp [haxis, cutsAlong, Dimension.cutAll, Function.comp_def]
    · simp [haxis, cutsAlong]

@[simp] theorem length_cutAxes (dims : List Dimension) (cuts : List (ℕ × Int64 × Int64)) :
    (cutAxes dims cuts).length = dims.length := by
  induction cuts generalizing dims with
  | nil => rfl
  | cons cut cuts ih => exact (ih _).trans (List.length_modify ..)

/-- No length grows. -/
theorem forall₂_shortens_cutAxes (dims : List Dimension) (cuts : List (ℕ × Int64 × Int64)) :
    List.Forall₂ Dimension.Shortens dims (cutAxes dims cuts) := by
  rw [List.forall₂_iff_get]
  refine ⟨(length_cutAxes dims cuts).symm, ?_⟩
  intro axis haxis haxis'
  have hcut := getElem?_cutAxes dims cuts axis
  rw [List.getElem?_eq_getElem haxis, List.getElem?_eq_getElem haxis', Option.map_some,
    Option.some.injEq] at hcut
  rw [List.get_eq_getElem, List.get_eq_getElem, hcut]
  exact Dimension.shortens_cutAll _ _

/-- The cuts of a slice along an axis that is not named are none. -/
theorem cutsAlong_eq_nil {axis : ℕ} (h : ∀ cut ∈ cuts, cut.1 ≠ axis) :
    cutsAlong axis cuts = [] := by
  simpa [cutsAlong] using h

/-- The shape of a slice counts the positions that are kept. For bounds of any sign and order along
axes that are there, the cuts are made in order, each of which replaces a known length by the number
of its positions from the start on and before the end. Element type, symbolic dimensions and the
dimensions along other axes stay, and no length grows. The number is computed in words from clamped
bounds, none of which wraps when it is cast. -/
theorem Graph.inferShape_slice {g : Graph} {inputs : List NodeId} {s : Shape} {axes : List ℕ}
    {starts ends : List Int64} (hinput : g.inputShape inputs 0 = .ok s)
    (haxes : ∀ axis ∈ axes, axis < s.rank) :
    let kept := cutAxes s.dims (axes.zip (starts.zip ends))
    g.inferShape (.slice axes starts ends) inputs = .ok ⟨s.elementType, kept⟩ ∧
    List.Forall₂ Dimension.Shortens s.dims kept ∧
    (∀ axis ∉ axes, kept[axis]? = s.dims[axis]?) ∧
    (∀ (len : ℕ) (start stop : Int64), keptPositions len start.toInt stop.toInt =
      min (max stop 0).toUInt64.toNat len - min (max start 0).toUInt64.toNat len) ∧
    ∀ v : Int64, ((max v 0).toUInt64.toNat : ℤ) = max v.toInt 0 := by
  refine ⟨?_, forall₂_shortens_cutAxes _ _, ?_, ?_, toNat_toUInt64_max_zero⟩
  · simp only [inferShape, hinput, sliceAxes_eq_cutAxes starts ends haxes, bind, Except.bind]
    rfl
  · intro axis haxis
    have hnone : cutsAlong axis (axes.zip (starts.zip ends)) = [] := by
      apply cutsAlong_eq_nil
      rintro cut hcut rfl
      exact haxis (List.of_mem_zip hcut).1
    rw [getElem?_cutAxes, hnone]
    exact Option.map_id'
  · intro len start stop
    rw [← keptLength_eq_keptPositions, keptLength_eq_words]

/-- Three dimensions, the second of which is cut twice. The first is symbolic, and the bounds of the
third are reversed. -/
theorem Graph.inferShape_slice_of_repeated_axis :
    let s : Shape := ⟨.float32, [.symbolic "n", .known 10, .known 3]⟩
    (Graph.empty.addInput s).inferShape (.slice [1, 1, 0, 2] [2, -5, 0, 5] [8, 4, 1, 1]) [0] =
      .ok ⟨.float32, [.symbolic "n", .known 4, .known 0]⟩ := by
  intro s
  obtain ⟨hshape, -⟩ := @inferShape_slice (Graph.empty.addInput s) [0] s [1, 1, 0, 2]
    [2, -5, 0, 5] [8, 4, 1, 1] rfl (by decide)
  rw [hshape]
  decide +kernel

end TensorResize
