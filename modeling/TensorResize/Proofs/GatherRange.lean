import TensorResize.Proofs.Corners
import TensorResize.Proofs.NearestResize

/-!
# The range of gathered positions

A precomputed plan gathers from inside its source, whatever the scales and the coordinate mode,
unless the source is empty. Each axis of an empty source is clamped as if it had one sample, so that
something is read from it as soon as the output has elements.

## Main definitions

* `ResizePlan.gather?` — what a precomputed plan gathers.
* `Literal.PositionsBelow` — all positions of an index constant are in the source.
-/

namespace TensorResize

open RowMajor

/-- The number of source elements of a precomputed plan and the positions it gathers. -/
def ResizePlan.gather? : ResizePlan → Option (ℕ × Literal)
  | runtime .. => none
  | nearest _ total indices => some (total, indices)
  | linear _ total indices _ => some (total, indices)

/-- The constant holds integers, each of them the position of one of `total` elements. -/
def Literal.PositionsBelow (indices : Literal) (total : ℕ) : Prop :=
  indices.buffer.elementType.isInteger ∧ ∀ v ∈ indices.buffer.integers, 0 ≤ v ∧ v < total

instance Literal.decidablePositionsBelow (indices : Literal) (total : ℕ) :
    Decidable (indices.PositionsBelow total) := inferInstanceAs (Decidable (_ ∧ _))

theorem positionsBelow_of_forall_lt {lens offsets : List ℕ} {total : ℕ} (htotal : total < 2 ^ 63)
    (h : ∀ k ∈ offsets, k < total) : (indexLiteral lens offsets total).PositionsBelow total := by
  constructor
  · exact isInteger_indexLiteral lens offsets total
  · intro v hv
    rw [integers_indexLiteral lens htotal h] at hv
    obtain ⟨k, hk, rfl⟩ := List.mem_map.1 hv
    exact ⟨Int.natCast_nonneg k, Int.ofNat_lt.2 (h k hk)⟩

/-- No position is one of an empty source. -/
theorem positionsBelow_zero_iff {lens offsets : List ℕ} :
    (indexLiteral lens offsets 0).PositionsBelow 0 ↔ offsets = [] := by
  constructor
  · intro h
    have hnil : (indexLiteral lens offsets 0).buffer.integers = [] := by
      apply List.eq_nil_iff_forall_not_mem.2
      intro v hv
      have := h.2 v hv
      omega
    rw [← List.length_eq_zero_iff, ← length_integers_indexLiteral lens offsets 0, hnil]
    rfl
  · rintro rfl
    exact positionsBelow_of_forall_lt (by decide) (by simp)

/-! ## Precomputed plans -/

namespace ResizePlan

variable {data total : ℕ} {indices : Literal} {settings : ResizeSettings} {axes : List Axis}
  {plan : ResizePlan} {tag : String}

/-- What a plan for some axes gathers: nothing if there is no output element, and from inside the
source if there are samples along every axis. -/
structure GathersFrom (axes : List Axis) (total : ℕ) (indices : Literal) : Prop where
  total_eq : total = elements (axes.map Axis.inLen)
  indices_eq : ∃ lens offsets, indices = indexLiteral lens offsets total ∧
    (offsets = [] ↔ elements (axes.map Axis.outLen) = 0) ∧
    ((∀ a ∈ axes, a.HasSamples) → count (axes.map Axis.inLen) < Word.modulus →
      ∀ k ∈ offsets, k < total)

theorem gathersFrom_forNearest
    (h : (forNearest data settings axes).gather? = some (total, indices)) :
    GathersFrom axes total indices := by
  simp only [forNearest, gather?, Option.some.injEq, Prod.mk.injEq] at h
  obtain ⟨rfl, rfl⟩ := h
  refine ⟨rfl, _, _, rfl, ?_, ?_⟩
  · rw [nearestOffsets_eq_map, List.map_eq_nil_iff, List.range_eq_nil]
  · intro haxes hcount k hk
    rw [nearestOffsets_eq_map] at hk
    obtain ⟨flat, -, rfl⟩ := List.mem_map.1 hk
    rw [elements_eq_count hcount]
    exact nearestStored_lt haxes hcount flat

theorem gathersFrom_forLinear (hplan : forLinear data settings axes tag = .ok plan)
    (h : plan.gather? = some (total, indices)) : GathersFrom axes total indices := by
  obtain ⟨-, -, -, rfl⟩ := forLinear_eq_ok.1 hplan
  simp only [gather?, Option.some.injEq, Prod.mk.injEq] at h
  obtain ⟨rfl, rfl⟩ := h
  refine ⟨rfl, _, _, rfl, ?_, ?_⟩
  · rw [List.map_eq_nil_iff, List.range_eq_nil, Nat.mul_eq_zero]
    exact or_iff_right (Nat.two_pow_pos _).ne'
  · intro haxes hcount k hk
    obtain ⟨flat, hflat, rfl⟩ := List.mem_map.1 hk
    rw [elements_eq_count hcount]
    refine CornerTable.stored_lt ?_ (CornerTable.within_build settings.transform haxes) hcount
    rw [CornerTable.rank_build, CornerTable.elements_build]
    exact List.mem_range.1 hflat

theorem GathersFrom.positionsBelow_iff (h : GathersFrom axes total indices)
    (hin : count (axes.map Axis.inLen) < 2 ^ 63)
    (hout : count (axes.map Axis.outLen) < Word.modulus)
    (hmax : ∀ a ∈ axes, a.inLen ≤ Binary.maxLength) :
    indices.PositionsBelow total ↔ (0 ∈ axes.map Axis.inLen → 0 ∈ axes.map Axis.outLen) := by
  have hword : count (axes.map Axis.inLen) < Word.modulus := hin.trans (by decide)
  obtain ⟨rfl, lens, offsets, rfl, hempty, hbelow⟩ := h
  rw [elements_eq_count hout, count_eq_zero] at hempty
  rw [elements_eq_count hword] at hbelow ⊢
  by_cases hzero : 0 ∈ axes.map Axis.inLen
  · rw [count_eq_zero.2 hzero, positionsBelow_zero_iff, hempty]
    exact (imp_iff_right hzero).symm
  · have hsamples : ∀ a ∈ axes, a.HasSamples := by
      intro a ha
      constructor
      · apply Nat.pos_of_ne_zero
        intro hlen
        exact hzero (hlen ▸ List.mem_map_of_mem ha)
      · exact hmax a ha
    apply iff_of_true
    · exact positionsBelow_of_forall_lt hin (hbelow hsamples hword)
    · intro h
      exact absurd h hzero

/-- A plan that gathers is made of the axes that the lengths and scales give. -/
theorem gathersFrom_of_planResize {o : Operator} {args : List Argument}
    {lowering : LoweringSettings} (hplan : planResize o args lowering = .ok plan)
    (hgather : plan.gather? = some (total, indices)) :
    ∃ settings a inLens outLens scales,
      Precomputed o args settings a inLens outLens scales ∧
      GathersFrom (Axis.ofLists inLens outLens scales) total indices := by
  obtain ⟨_, _, _, -, -, -, -, rfl⟩ | ⟨settings, a, inLens, outLens, scales, hmade, h⟩ :=
    planResize_eq_ok hplan
  · cases hgather
  · refine ⟨settings, a, inLens, outLens, scales, hmade, ?_⟩
    rcases h with ⟨-, rfl⟩ | ⟨-, hlinear⟩
    · exact gathersFrom_forNearest hgather
    · exact gathersFrom_forLinear hlinear hgather

/-- A precomputed plan gathers from inside its source exactly if the source is not empty or the
output is. -/
theorem planResize_positionsBelow_iff {o : Operator} {args : List Argument}
    {lowering : LoweringSettings} {a : Argument} {inLens : List ℕ}
    (hplan : planResize o args lowering = .ok plan)
    (hgather : plan.gather? = some (total, indices)) (hdata : args.head? = some a)
    (hlens : a.shape.lens? = some inLens) (hmax : ∀ len ∈ inLens, len ≤ Binary.maxLength)
    (hcount : count inLens < 2 ^ 63) :
    ∃ scales outLens origin,
      Resolution.resolve o.attributes args inLens o.tag = .ok (.constant scales outLens origin) ∧
      (indices.PositionsBelow total ↔ (0 ∈ inLens → 0 ∈ outLens)) := by
  obtain ⟨settings, a', inLens', outLens, scales, hmade, hgathers⟩ :=
    gathersFrom_of_planResize hplan hgather
  obtain rfl : a' = a := by simpa [hmade.data_eq] using hdata
  obtain rfl : inLens' = inLens := by simpa [hmade.lens_eq] using hlens
  obtain ⟨origin, hresolution⟩ := hmade.resolution_eq
  refine ⟨scales, outLens, origin, hresolution, ?_⟩
  have hout := hmade.count_lt
  have hmapIn := hmade.map_inLen
  have hmapOut := Axis.map_outLen_ofLists inLens' outLens scales
  generalize Axis.ofLists inLens' outLens scales = axes at *
  subst hmapIn hmapOut
  exact hgathers.positionsBelow_iff hcount hout fun a ha => hmax _ (List.mem_map_of_mem ha)

/-- The positions gathered to enlarge two samples to four. -/
theorem planResize_positionsBelow_two_to_four :
    (⟨[4], .int32 [0, 0, 1, 1]⟩ : Literal).PositionsBelow 2 := by
  obtain ⟨scales, outLens, origin, -, hiff⟩ := @planResize_positionsBelow_iff 2
    ⟨[4], .int32 [0, 0, 1, 1]⟩ (.nearest 0 2 ⟨[4], .int32 [0, 0, 1, 1]⟩)
    ⟨"Resize", .ofList [("scales", .floats [.ofNat .binary32 2])]⟩
    [.ofShape 0 (.ofLens .float32 [2]) none] ⟨true⟩ (.ofShape 0 (.ofLens .float32 [2]) none) [2]
    (by decide +kernel) rfl rfl (by decide) (by decide) (by decide)
  exact hiff.2 fun h => absurd h (by decide)

/-- An empty source resized to three samples is planned to be read three times. -/
theorem planResize_not_positionsBelow_of_empty :
    planResize ⟨"Resize", .empty⟩
        [.ofShape 0 (.ofLens .float32 [0]) none,
          .ofShape 1 (.ofLens .int64 [1]) (some ⟨[1], .int64 [3]⟩)] ⟨true⟩ =
        .ok (.nearest 0 0 ⟨[3], .int32 [0, 0, 0]⟩) ∧
      ¬(⟨[3], .int32 [0, 0, 0]⟩ : Literal).PositionsBelow 0 :=
  ⟨by decide +kernel, by decide⟩

end ResizePlan

end TensorResize
