import Mathlib.Data.List.Induction
import TensorResize.Proofs.Execution
import TensorResize.Proofs.Operands
import TensorResize.Proofs.Plan

/-!
# Running the blends

A stack of `2 ^ (d + 1)` blocks is blended to one of `2 ^ d`: the lower half is moved towards the
upper half by the weights of axis `d`, which are the same for every block. The last axis is blended
first, since the upper half of all blocks takes the samples above along the last axis.

## Main definitions

* `AxisCorners.weightAt` — the weight of an element, as an element of the arithmetic.
* `blendAxis`, `blendAxes` — what the blends do to the function a stack is tabulated by.
-/

namespace TensorResize

open RowMajor Tensor

variable {α : Type} {A : Arithmetic α} {env : NodeId → Option (Value α)}
  {outLens : List ℕ} {corners : AxisCorners} {d : ℕ}

/-- The weight of an element along an axis. -/
def AxisCorners.weightAt (A : Arithmetic α) (corners : AxisCorners) (element : ℕ) : α :=
  A.single (corners.weight.getD element .zero)

/-- The blend along axis `d` of a stack of blocks of `block` elements, element by element. -/
def blendAxis (A : Arithmetic α) (block : ℕ) (corners : AxisCorners) (d : ℕ) (f : ℕ → α) (k : ℕ) :
    α :=
  A.add (A.mul (A.sub (f (2 ^ d * block + k)) (f k)) (corners.weightAt A (k % block))) (f k)

/-- The blends along all axes, the last axis first. -/
def blendAxes (A : Arithmetic α) (block : ℕ) (axes : List AxisCorners) (f : ℕ → α) : ℕ → α :=
  axes.zipIdx.foldr (fun (corners, d) f => blendAxis A block corners d f) f

theorem blendAxes_append (block : ℕ) (axes : List AxisCorners) (corners : AxisCorners)
    (f : ℕ → α) :
    blendAxes A block (axes ++ [corners]) f =
      blendAxes A block axes (blendAxis A block corners axes.length f) := by
  simp [blendAxes, List.zipIdx_append]

theorem blendSteps_append (outLens : List ℕ) (axes : List AxisCorners) (corners : AxisCorners) :
    blendSteps outLens (axes ++ [corners]) =
      ⟨outLens.headD 0 * 2 ^ axes.length,
        ⟨stackLens (2 ^ axes.length) outLens, .float32 (doubled axes.length corners.weight)⟩⟩ ::
        blendSteps outLens axes := by
  simp [blendSteps, List.zipIdx_append]

/-! ## The weights of a step -/

/-- A list that is written out repeatedly is read at the remainder. -/
theorem doubled_eq_map {β : Type} (default : β) (xs : List β) :
    doubled d xs = (List.range (2 ^ d * xs.length)).map fun k =>
      xs.getD (k % xs.length) default := by
  induction d generalizing xs with
  | zero =>
    apply List.ext_getElem (by simp [doubled])
    intro k hk _
    simp only [doubled] at hk
    simp [doubled, Nat.mod_eq_of_lt hk, hk]
  | succ d ih =>
    rw [doubled, ih, List.length_append, Nat.pow_succ, Nat.mul_assoc, Nat.two_mul]
    apply List.map_congr_left
    intro k hk
    have hpos : 0 < xs.length := by
      apply Nat.pos_of_ne_zero
      intro h
      simp [h] at hk
    have hmod : k % (xs.length + xs.length) % xs.length = k % xs.length :=
      Nat.mod_mod_of_dvd k ⟨2, by omega⟩
    by_cases hfirst : k % (xs.length + xs.length) < xs.length
    · rw [List.getD_append _ _ _ _ hfirst, ← hmod, Nat.mod_eq_of_lt hfirst]
    · have hlt := Nat.mod_lt k (Nat.add_pos_left hpos xs.length)
      have hsecond : k % xs.length = k % (xs.length + xs.length) - xs.length := by
        rw [← hmod, Nat.mod_eq_sub_mod (Nat.le_of_not_lt hfirst), Nat.mod_eq_of_lt (by omega)]
      rw [List.getD_append_right _ _ _ _ (Nat.le_of_not_lt hfirst), hsecond]

theorem ofLiteral_weights (hlens : outLens ≠ []) (hweight : corners.weight.length = count outLens) :
    Value.ofLiteral A ⟨stackLens (2 ^ d) outLens, .float32 (doubled d corners.weight)⟩ =
      some (.elements (tabulate (stackLens (2 ^ d) outLens) fun k =>
        corners.weightAt A (k % count outLens))) := by
  have hcount : 2 ^ d * count outLens = count (stackLens (2 ^ d) outLens) :=
    (count_stackLens hlens).symm
  simp only [Value.ofLiteral, doubled_eq_map Binary.zero, hweight, List.map_map]
  exact congrArg (Option.map Value.elements) (ofList?_map_range hcount _)

/-! ## The halves of a stack -/

theorem toInt_ofNat_rows {rows : ℕ} (h : 2 * rows ≤ Word.maxEntries) :
    (Int64.ofNat rows).toInt = rows ∧ (2 * Int64.ofNat rows).toInt = (2 * rows : ℕ) := by
  have hmax : Word.maxEntries < 2 ^ 61 := by decide
  have hdouble : 2 * Int64.ofNat rows = Int64.ofNat (2 * rows) := by
    rw [Int64.ofNat_mul]
    rfl
  rw [hdouble, Int64.toInt_ofNat_of_lt (by omega), Int64.toInt_ofNat_of_lt (by omega)]
  exact ⟨rfl, rfl⟩

/-- The rows of each half of a stack of `2 ^ (d + 1)` blocks, as they are written in a slice. -/
theorem slice_halves (hlens : outLens ≠ [])
    (hfits : outLens.headD 0 * 2 ^ (d + 1) ≤ Word.maxEntries) (f : ℕ → α) :
    let stacked := tabulate (stackLens (2 ^ (d + 1)) outLens) f
    let rows := Int64.ofNat (outLens.headD 0 * 2 ^ d)
    stacked.slice [0] [0] [rows] = some (tabulate (stackLens (2 ^ d) outLens) f) ∧
      stacked.slice [0] [rows] [2 * rows] = some (tabulate (stackLens (2 ^ d) outLens)
        fun k => f (2 ^ d * count outLens + k)) := by
  cases outLens with
  | nil => exact absurd rfl hlens
  | cons len lens =>
    have hhalves : len * 2 ^ (d + 1) = 2 * (len * 2 ^ d) := by rw [Nat.pow_succ]; ring
    have hblock : len * 2 ^ d * count lens = 2 ^ d * count (len :: lens) := by
      rw [count_cons]; ring
    simp only [List.headD_cons, stackLens, hhalves, ← hblock] at hfits ⊢
    obtain ⟨hrows, hdouble⟩ := toInt_ofNat_rows hfits
    constructor
    · have hlower : (tabulate (2 * (len * 2 ^ d) :: lens) f).sliceAxis 0 0
          (Int64.ofNat (len * 2 ^ d)) = _ :=
        sliceAxis_rows f Int64.toInt_zero hrows (Nat.zero_le _) (by omega)
      simpa [slice] using hlower
    · have hupper : (tabulate (2 * (len * 2 ^ d) :: lens) f).sliceAxis 0
          (Int64.ofNat (len * 2 ^ d)) (2 * Int64.ofNat (len * 2 ^ d)) = _ :=
        sliceAxis_rows f hrows hdouble (by omega) le_rfl
      rw [Nat.two_mul, Nat.add_sub_cancel, ← Nat.two_mul] at hupper
      simpa [slice] using hupper

/-! ## One step -/

theorem value_result_add (earlier results : List (Value α)) (k : ℕ) :
    (Operand.result (earlier.length + k)).value env (earlier ++ results) = results[k]? := by
  rw [Operand.value, List.getElem?_append_right (Nat.le_add_right ..), Nat.add_sub_cancel_left]

theorem value_result_length (earlier results : List (Value α)) :
    (Operand.result earlier.length).value env (earlier ++ results) = results[0]? :=
  value_result_add earlier results 0

/-- The six calls of a step, whatever its weights. -/
theorem runCalls_step {stacked weights lower upper difference scaled blended : Tensor α}
    {step : BlendStep} (earlier : List (Value α))
    (hweights : Value.ofLiteral A step.weights = some (.elements weights))
    (hlower : stacked.slice [0] [0] [Int64.ofNat step.rows] = some lower)
    (hupper : stacked.slice [0] [Int64.ofNat step.rows] [2 * Int64.ofNat step.rows] = some upper)
    (hdifference : zipWith A.sub upper lower = some difference)
    (hscaled : zipWith A.mul difference weights = some scaled)
    (hblended : zipWith A.add scaled lower = some blended) :
    ∃ between : List (Value α), between.length = earlier.length + 6 ∧
      runCalls A env (earlier ++ [.elements stacked])
        (ResizePlan.blendCalls earlier.length [step]) = some (between ++ [.elements blended]) := by
  refine ⟨earlier ++ [stacked, weights, lower, upper, difference, scaled].map Value.elements,
    by simp, ?_⟩
  simp only [ResizePlan.blendCalls, ResizePlan.rowSlice, runCalls, Call.eval, List.mapM_cons,
    List.mapM_nil, List.append_assoc, List.cons_append, List.nil_append, List.append_nil,
    value_result_length, value_result_add, List.getElem?_cons_zero, List.getElem?_cons_succ,
    Option.bind_eq_bind, Option.bind_some, Option.pure_def, Instruction.eval, Value.move,
    Value.combine, hweights, hlower, hupper, hdifference, hscaled, hblended, Option.map_some,
    List.map_cons, List.map_nil]

/-- A step blends the stack of `2 ^ (d + 1)` blocks that is there. -/
theorem runCalls_blendStep {f : ℕ → α} (earlier : List (Value α)) (hlens : outLens ≠ [])
    (hweight : corners.weight.length = count outLens)
    (hfits : outLens.headD 0 * 2 ^ (d + 1) ≤ Word.maxEntries) :
    ∃ between : List (Value α), between.length = earlier.length + 6 ∧
      runCalls A env (earlier ++ [.elements (tabulate (stackLens (2 ^ (d + 1)) outLens) f)])
        (ResizePlan.blendCalls earlier.length [⟨outLens.headD 0 * 2 ^ d,
          ⟨stackLens (2 ^ d) outLens, .float32 (doubled d corners.weight)⟩⟩]) =
        some (between ++ [.elements (tabulate (stackLens (2 ^ d) outLens)
          (blendAxis A (count outLens) corners d f))]) := by
  obtain ⟨hlower, hupper⟩ := slice_halves hlens hfits f
  exact runCalls_step earlier (ofLiteral_weights hlens hweight) hlower hupper
    (zipWith_tabulate A.sub _ _) (zipWith_tabulate A.mul _ _) (zipWith_tabulate A.add _ _)

/-! ## All steps -/

/-- The steps of all axes blend a stack of `2 ^ rank` blocks to a single block. -/
theorem runCalls_blendSteps {axes : List AxisCorners} {f : ℕ → α} (earlier : List (Value α))
    (hrank : axes.length ≤ outLens.length)
    (hweight : ∀ corners ∈ axes, corners.weight.length = count outLens)
    (hfits : outLens.headD 0 * 2 ^ axes.length ≤ Word.maxEntries) :
    ∃ between : List (Value α),
      runCalls A env (earlier ++ [.elements (tabulate (stackLens (2 ^ axes.length) outLens) f)])
        (ResizePlan.blendCalls earlier.length (blendSteps outLens axes)) =
        some (between ++ [.elements (tabulate outLens
          (blendAxes A (count outLens) axes f))]) := by
  -- from the back, since the last axis is blended first; the stack halves with every axis
  induction axes using List.reverseRecOn generalizing f earlier with
  | nil => exact ⟨earlier, by simp [blendSteps, ResizePlan.blendCalls, runCalls, blendAxes]⟩
  | append_singleton axes corners ih =>
    rw [List.length_append, List.length_singleton] at hrank hfits ⊢
    have hlens : outLens ≠ [] := fun h => by simp [h] at hrank
    have hhalf : outLens.headD 0 * 2 ^ axes.length ≤ outLens.headD 0 * 2 ^ (axes.length + 1) :=
      Nat.mul_le_mul_left _ (Nat.pow_le_pow_right (by decide) (Nat.le_succ _))
    obtain ⟨between, hlength, hstep⟩ := @runCalls_blendStep α A env outLens corners axes.length f
      earlier hlens (hweight corners (by simp)) hfits
    obtain ⟨final, hrest⟩ := ih between (by omega)
      (fun corners h => hweight corners (List.mem_append_left _ h)) (hhalf.trans hfits)
    refine ⟨final, ?_⟩
    rw [blendSteps_append, blendCalls_cons, runCalls_append, hstep, Option.bind_some, ← hlength,
      hrest, blendAxes_append]

/-! ## The whole program -/

/-- A linear program gathers one block per corner and blends the stack of them. -/
theorem ResizePlan.run_linear {data : NodeId} {source : Tensor α} {axes : List AxisCorners}
    {offsets : ℕ → ℕ} (default : α) (henv : env data = some (.elements source))
    (htotal : count source.lens < 2 ^ 63) (hrank : axes.length = outLens.length)
    (hoffsets : ∀ k < 2 ^ axes.length * count outLens, offsets k < count source.lens)
    (hweight : ∀ corners ∈ axes, corners.weight.length = count outLens)
    (hfits : outLens.headD 0 * 2 ^ axes.length ≤ Word.maxEntries) :
    (linear data (count source.lens)
      (indexLiteral (stackLens (2 ^ axes.length) outLens)
        ((List.range (2 ^ axes.length * count outLens)).map offsets) (count source.lens))
      (blendSteps outLens axes)).program.run A env =
      some (.elements (tabulate outLens (blendAxes A (count outLens) axes fun k =>
        source.values.getD (offsets k) default))) := by
  have hcount : 2 ^ axes.length * count outLens = count (stackLens (2 ^ axes.length) outLens) := by
    rw [hrank, count_stackLens_corners]
  rw [hcount] at hoffsets ⊢
  obtain ⟨flat, indices, hgather⟩ :=
    runCalls_gatherCalls (A := A) default henv htotal hoffsets
  obtain ⟨between, hblend⟩ := @runCalls_blendSteps α A env outLens axes
    (fun k => source.values.getD (offsets k) default) [flat, indices] hrank.le hweight hfits
  rw [Program.run, program, runCalls_append, hgather]
  exact congrArg (Option.bind · List.getLast?) hblend |>.trans (by simp)

end TensorResize
