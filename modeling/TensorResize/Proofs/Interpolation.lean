import Mathlib.Algebra.BigOperators.Intervals
import Mathlib.Algebra.Field.Rat
import TensorResize.Proofs.Blend
import TensorResize.Proofs.Corners

/-!
# Linear resizing is multilinear interpolation

Over a commutative ring, blending the stack of all corners axis by axis sums the corners, each times
the product of what it takes from every axis: the weight where it takes the sample above, and one
less the weight where it takes the sample below. The program of a linear plan computes this for
every output element.

## Main definitions

* `interpolate` — the sum over all corners.
* `CornerTable.weight` — the weight of an element along an axis.
-/

namespace TensorResize

open RowMajor Finset

variable {R : Type} [CommRing R] {single : Binary32 → R} {double : Binary64 → R}

/-- The weight of the sample above an element along axis `d`. -/
def CornerTable.weight (table : CornerTable) (d element : ℕ) : Binary32 :=
  (table.axes[d]?.elim [] AxisCorners.weight).getD element .zero

/-- The multilinear interpolation of samples that are numbered by their choices, where `weight d` is
the weight of the sample above along axis `d`. -/
def interpolate (rank : ℕ) (weight sample : ℕ → R) : R :=
  ∑ v ∈ range (2 ^ rank), (∏ d ∈ range rank, if v.testBit d then weight d else 1 - weight d) *
    sample v

theorem interpolate_zero (weight sample : ℕ → R) : interpolate 0 weight sample = sample 0 := by
  simp [interpolate]

/-- Interpolation may begin with the last axis. -/
theorem interpolate_succ (rank : ℕ) (weight sample : ℕ → R) :
    interpolate (rank + 1) weight sample = interpolate rank weight fun v =>
      (sample (2 ^ rank + v) - sample v) * weight rank + sample v := by
  have hlower : ∀ v ∈ range (2 ^ rank), v.testBit rank = false := by
    intro v hv
    exact Nat.testBit_lt_two_pow (mem_range.1 hv)
  have hupper : ∀ v ∈ range (2 ^ rank), (2 ^ rank + v).testBit rank = true := by
    intro v hv
    rw [Nat.testBit_two_pow_add_eq, hlower v hv, Bool.not_false]
  have hshared : ∀ v, ∏ d ∈ range rank, (if (2 ^ rank + v).testBit d then weight d else
      1 - weight d) = ∏ d ∈ range rank, if v.testBit d then weight d else 1 - weight d := by
    intro v
    apply prod_congr rfl
    intro d hd
    rw [Nat.testBit_two_pow_add_gt (mem_range.1 hd)]
  rw [interpolate, interpolate, Nat.pow_succ, Nat.mul_two, sum_range_add, ← sum_add_distrib]
  apply sum_congr rfl
  intro v hv
  rw [prod_range_succ, prod_range_succ, hlower v hv, hupper v hv, hshared v]
  simp only [if_true, Bool.false_eq_true, if_false]
  ring

theorem interpolate_congr {rank : ℕ} {weight weight' sample sample' : ℕ → R}
    (hweight : ∀ d < rank, weight d = weight' d) (hsample : ∀ v < 2 ^ rank, sample v = sample' v) :
    interpolate rank weight sample = interpolate rank weight' sample' := by
  apply sum_congr rfl
  intro v hv
  rw [hsample v (mem_range.1 hv)]
  congr 1
  apply prod_congr rfl
  intro d hd
  rw [hweight d (mem_range.1 hd)]

/-- Element `element` of the stack that is blended along all axes. -/
theorem blendAxes_ofRing {block element : ℕ} (h : element < block) (axes : List AxisCorners)
    (f : ℕ → R) :
    blendAxes (.ofRing single double) block axes f element =
      interpolate axes.length
        (fun d => single ((axes[d]?.elim [] AxisCorners.weight).getD element .zero))
        fun v => f (v * block + element) := by
  induction axes using List.reverseRecOn generalizing f with
  | nil => simp [blendAxes, interpolate_zero]
  | append_singleton axes corners ih =>
    rw [blendAxes_append, ih, List.length_append, List.length_singleton, interpolate_succ]
    apply interpolate_congr
    · intro d hd
      rw [List.getElem?_append_left hd]
    · intro v _
      have hmod : (v * block + element) % block = element := by
        rw [Nat.mul_comm, Nat.mul_add_mod, Nat.mod_eq_of_lt h]
      have hupper : 2 ^ axes.length * block + (v * block + element) =
          (2 ^ axes.length + v) * block + element := by ring
      simp only [blendAxis, hmod, hupper, AxisCorners.weightAt, Arithmetic.ofRing,
        List.getElem?_concat_length, Option.elim_some]

/-! ## The program of a linear plan -/

namespace ResizePlan

/-- The program of a linear plan interpolates: it yields a tensor of the output lengths, each
element of which is the multilinear interpolation between its corners in the source. The product of
the output lengths is checked before a linear plan is made. -/
theorem run_forLinear_interpolate {data : NodeId} {settings : ResizeSettings} {axes : List Axis}
    {tag : String} {plan : ResizePlan} {env : NodeId → Option (Value R)} {source : Tensor R}
    (hplan : forLinear data settings axes tag = .ok plan)
    (hout : count (axes.map Axis.outLen) < Word.modulus)
    (hin : count (axes.map Axis.inLen) < 2 ^ 63)
    (hwithin : (CornerTable.build settings.transform axes).Within (axes.map Axis.inLen))
    (hlens : source.lens = axes.map Axis.inLen)
    (henv : env data = some (.elements source)) :
    let table := CornerTable.build settings.transform axes
    let stored corner element := offset (axes.map Axis.inLen) (table.point corner element)
    ∃ result : Tensor R,
      plan.program.run (.ofRing single double) env = some (.elements result) ∧
      result.lens = axes.map Axis.outLen ∧
      ∀ element < count (axes.map Axis.outLen),
        (∀ corner < 2 ^ axes.length, stored corner element < source.values.length) ∧
        result.values[element]? = some (interpolate axes.length
          (fun d => single (table.weight d element))
          fun corner => source.values.getD (stored corner element) 0) := by
  intro table stored
  obtain ⟨-, -, hfits, rfl⟩ := forLinear_eq_ok.1 hplan
  have hword : count (axes.map Axis.inLen) < Word.modulus := hin.trans (by decide)
  have hblock : table.elements = count (axes.map Axis.outLen) := elements_eq_count hout
  have hrank : table.axes.length = axes.length := CornerTable.rank_build settings.transform axes
  have hstored : ∀ corner, ∀ element < count (axes.map Axis.outLen),
      stored corner element < count source.lens := by
    intro corner element h
    rw [hlens]
    exact CornerTable.offset_point_lt (hblock.symm ▸ h) hwithin hword
  have hoffsets : ∀ k < 2 ^ table.axes.length * count (axes.map Axis.outLen),
      table.stored (axes.map Axis.inLen) k < count source.lens := by
    intro k hk
    rw [hlens]
    exact CornerTable.stored_lt (hblock.symm ▸ hk) hwithin hword
  have hweights : ∀ corners ∈ table.axes,
      corners.weight.length = count (axes.map Axis.outLen) := by
    intro corners h
    exact (CornerTable.length_of_mem_build h).2.2.trans hblock
  have hrun := run_linear (A := .ofRing single double) 0 henv (hlens ▸ hin)
    (by rw [hrank, List.length_map]) hoffsets hweights (hrank ▸ hfits)
  rw [hlens, ← elements_eq_count hword, hrank, ← elements_eq_count hout] at hrun
  refine ⟨_, hrun, rfl, ?_⟩
  intro element helement
  constructor
  · intro corner _
    rw [source.length_values]
    exact hstored corner element helement
  · rw [Tensor.values_tabulate, List.getElem?_map, List.getElem?_range helement, Option.map_some,
      blendAxes_ofRing (helement.trans_eq (elements_eq_count hout).symm), hrank]
    congr 1
    apply interpolate_congr
    · intro d _
      rfl
    · intro corner _
      exact congrArg (source.values.getD · 0)
        (CornerTable.stored_mul_add table _ (hblock ▸ helement))

/-- Two samples enlarged to four: the second element lies halfway between them. -/
theorem run_forLinear_interpolate_two_to_four :
    ∃ (plan : ResizePlan) (result : Tensor ℚ),
      forLinear 0 ⟨.linear, .asymmetric, .floor, false⟩ [⟨2, 4, .ofNat .binary64 2⟩] "RESIZE" =
        .ok plan ∧
      plan.program.run (.ofRing Binary.toRat Binary.toRat)
        (fun _ => some (.elements ⟨[2], [10, 20], rfl⟩)) = some (.elements result) ∧
      result.lens = [4] ∧ result.values[1]? = some 15 := by
  have hplan := (@forLinear_eq_ok "RESIZE" 0 ⟨.linear, .asymmetric, .floor, false⟩
    [⟨2, 4, .ofNat .binary64 2⟩] _).2 ⟨by decide, by decide, by decide, rfl⟩
  obtain ⟨result, hrun, hlens, hvalues⟩ :=
    @run_forLinear_interpolate ℚ _ Binary.toRat Binary.toRat _ _ _ _ _
    (fun _ => some (.elements ⟨[2], [10, 20], rfl⟩)) ⟨[2], [10, 20], rfl⟩ hplan
    (by decide) (by decide) (by decide +kernel) rfl rfl
  have hhalfway := (hvalues 1 (by decide)).2
  refine ⟨_, result, hplan, hrun, hlens, hhalfway.trans (congrArg some ?_)⟩
  decide +kernel

end ResizePlan

end TensorResize
