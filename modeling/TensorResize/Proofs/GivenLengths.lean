import TensorResize.Proofs.Aliases
import TensorResize.Proofs.NearestResize

/-!
# Explicit output lengths

An argument of integers gives the output lengths of a resize, one for each dimension. They are taken
as they are, and what is below zero counts as zero. But lengths that are all zero also stand for
lengths that were not given, so they are derived anew from the scales. These are then zero or, for
an empty dimension, a NaN, and the lengths that they give are zero again.

## Main statements

* `scaledLength_scaleBetween_zero` — the length that is derived from a length of zero.
* `Resolution.ofGivenLens_eq_constant` — given lengths are kept, all zero or not.
-/

namespace TensorResize

open Binary

variable {m : AttributeMap} {a : Argument} {args : List Argument} {v : Literal}
  {inLens outLens : List ℕ}

/-! ## Lengths of zero -/

theorem ofNat_zero : (ofNat .binary64 0 : Binary64) = .zero := by
  rw [ofNat, Nat.cast_zero, Magnitude.ofRat_of_nonpos le_rfl]
  rfl

/-- The scale that takes a length to zero is zero, or a NaN. -/
theorem scaleBetween_zero (inLen : ℕ) :
    scaleBetween inLen 0 = .nan ∨ scaleBetween inLen 0 = .zero := by
  have hfinite : (Magnitude.zero : Magnitude .binary64).isInfinite = false := rfl
  rw [scaleBetween, ofNat_zero]
  change div .zero (ofNat .binary64 inLen) = .nan ∨ div .zero (ofNat .binary64 inLen) = .zero
  simp only [zero, ofNat, div, hfinite, Bool.false_eq_true, if_false]
  split
  · exact .inr rfl
  · split
    · exact .inl rfl
    · right
      rw [Magnitude.toRat_zero, zero_div, Magnitude.ofRat_of_nonpos le_rfl]
      rfl

/-- A length times zero is zero, or a NaN if the length is too large for a number. -/
theorem ofNat_mul_zero (inLen : ℕ) :
    (ofNat .binary64 inLen * .zero : Binary64) = .nan ∨
      (ofNat .binary64 inLen * .zero : Binary64) = .zero := by
  change mul (ofNat .binary64 inLen) .zero = .nan ∨ mul (ofNat .binary64 inLen) .zero = .zero
  simp only [zero, ofNat, mul]
  split
  · left
    simp [Magnitude.zero]
  · right
    rw [Magnitude.toRat_zero, mul_zero, Magnitude.ofRat_of_nonpos le_rfl]
    rfl

/-- The length that is derived for a given length of zero is zero. -/
theorem scaledLength_scaleBetween_zero (inLen : ℕ) :
    scaledLength inLen (scaleBetween inLen 0) = 0 := by
  rw [scaledLength]
  rcases scaleBetween_zero inLen with hscale | hscale
  · rw [hscale]
    rfl
  · rw [hscale]
    rcases ofNat_mul_zero inLen with hproduct | hproduct
    · rw [hproduct]
      rfl
    · rw [hproduct]
      decide +kernel

namespace Resolution

/-! ## Given lengths -/

/-- Deriving lengths that were given as zero changes nothing. -/
theorem truncatedLens_scaleBetween (hlength : outLens.length = inLens.length)
    (hzero : ∀ len ∈ outLens, len = 0) :
    truncatedLens inLens (List.zipWith scaleBetween inLens outLens) = outLens := by
  induction inLens generalizing outLens with
  | nil =>
    rw [List.eq_nil_of_length_eq_zero hlength]
    rfl
  | cons inLen inLens ih =>
    cases outLens with
    | nil => cases hlength
    | cons outLen outLens =>
      obtain ⟨rfl, hrest⟩ := List.forall_mem_cons.1 hzero
      exact congrArg₂ List.cons (scaledLength_scaleBetween_zero inLen)
        (ih (Nat.succ.inj hlength) hrest)

/-- Given lengths are kept, also where all are zero. -/
theorem ofGivenLens_eq_constant (hlength : outLens.length = inLens.length) (source : NodeId) :
    ofGivenLens inLens outLens source =
      .constant (List.zipWith scaleBetween inLens outLens) outLens (some source) := by
  change constant (List.zipWith scaleBetween inLens outLens) _ (some source) = _
  by_cases hzero : ∀ len ∈ outLens, len = 0
  · rw [if_pos hzero]
    exact congrArg (constant _ · _) (truncatedLens_scaleBetween hlength hzero)
  · rw [if_neg hzero]

theorem exists_cons_of_decidingArgument? (ha : decidingArgument? args = some a) :
    ∃ data rest, args = data :: rest := by
  cases args with
  | nil => cases ha
  | cons data rest => exact ⟨data, rest, rfl⟩

section Integers

variable (hscales : m.LacksScales) (ha : decidingArgument? args = some a)
  (htype : a.shape.elementType.isInteger) (hvalue : a.HasValue v)
include hscales ha htype hvalue

/-- Integers of the argument that decides are the output lengths. -/
theorem resolve_of_lens (hlength : v.buffer.length = inLens.length) (tag : String) :
    resolve m args inLens tag = .ok (.constant (List.zipWith scaleBetween inLens v.toLengths)
      v.toLengths (some a.id)) := by
  obtain ⟨data, rest, rfl⟩ := exists_cons_of_decidingArgument? ha
  have hlens : v.toLengths.length = inLens.length := (Buffer.length_toLengths _).trans hlength
  rw [← ofGivenLens_eq_constant hlens]
  exact resolve_eq_iff_otherNodes.2
    (.lens (decides_of_decidingArgument? hscales ha) htype hvalue hlength)

/-- Where they lead to known scales, there is one integer for each dimension. -/
theorem outLens_eq_of_resolve {scales : List Binary64} {source : Option NodeId} {tag : String}
    (h : resolve m args inLens tag = .ok (.constant scales outLens source)) :
    outLens = v.toLengths := by
  by_cases hlength : v.buffer.length = inLens.length
  · rw [resolve_of_lens hscales ha htype hvalue hlength] at h
    cases h
    rfl
  · obtain ⟨data, rest, rfl⟩ := exists_cons_of_decidingArgument? ha
    have hmismatch : resolve m (data :: rest) inLens tag = .error _ := resolve_eq_iff_otherNodes.2
      (.lensMismatch (decides_of_decidingArgument? hscales ha) htype hvalue hlength)
    cases hmismatch.symm.trans h

end Integers

end Resolution

/-- Explicit output lengths are honoured: a constant argument of integers that decides, with one for
each of at least one dimension, gives the output lengths over any source, empty dimensions included.
A length below zero becomes zero, and so it stays where all lengths are zero and are derived anew
from the scales. The positions that a nearest resize of the node gathers have these lengths. -/
theorem planResize_honoursLens (hscales : m.LacksScales) (ha : decidingArgument? args = some a)
    (htype : a.shape.elementType.isInteger) (hvalue : a.value = some v)
    (hlength : v.buffer.length = inLens.length) (hrank : inLens ≠ []) :
    (∀ tag, Resolution.resolve m args inLens tag = .ok (.constant
      (List.zipWith scaleBetween inLens v.toLengths) v.toLengths (some a.id))) ∧
    (v.buffer.elementType.isInteger → v.toLengths = v.buffer.integers.map Int.toNat) ∧
    ∀ type lowering node total indices,
      planResize ⟨type, m⟩ args lowering = .ok (.nearest node total indices) →
        indices.lens = v.toLengths := by
  have hvalues : a.HasValue v :=
    ⟨hvalue, hlength.trans_ne (List.length_pos_iff.2 hrank).ne'⟩
  refine ⟨Resolution.resolve_of_lens hscales ha htype hvalues hlength, ?_, ?_⟩
  · exact Buffer.toLengths_eq_map
  · intro type lowering node total indices hplan
    obtain ⟨settings, data, inLens', outLens, scales, hmade, hnearest⟩ :=
      planResize_eq_nearest hplan
    obtain ⟨origin, hresolution⟩ := hmade.resolution_eq
    rw [ResizePlan.forNearest, ResizePlan.nearest.injEq, Axis.map_outLen_ofLists] at hnearest
    obtain ⟨-, -, rfl⟩ := hnearest
    rw [lens_indexLiteral]
    exact Resolution.outLens_eq_of_resolve hscales ha htype hvalues hresolution

/-- Three rows of no samples, with explicit lengths that are zero and below zero. -/
theorem planResize_honoursLens_of_zero :
    let args : List Argument := [.ofShape 0 (.ofLens .float32 [0, 3]) none,
      .ofShape 1 (.ofLens .int64 [2]) (some ⟨[2], .int64 [-1, 0]⟩)]
    Resolution.resolve .empty args [0, 3] "RESIZE" =
        .ok (.constant [.nan, .zero] [0, 0] (some 1)) ∧
      ∃ indices, planResize ⟨"Resize", .empty⟩ args .standard = .ok (.nearest 0 0 indices) ∧
        indices.lens = [0, 0] := by
  intro args
  obtain ⟨hresolution, -, hlens⟩ := @planResize_honoursLens .empty
    (.ofShape 1 (.ofLens .int64 [2]) (some ⟨[2], .int64 [-1, 0]⟩)) args ⟨[2], .int64 [-1, 0]⟩ [0, 3]
    (.inl rfl) rfl rfl rfl rfl (List.cons_ne_nil _ _)
  have hplan : planResize ⟨"Resize", .empty⟩ args .standard =
      .ok (.nearest 0 0 ⟨[0, 0], .int32 []⟩) := by decide +kernel
  have hscales : List.zipWith scaleBetween [0, 3] [0, 0] = [.nan, .zero] := by decide +kernel
  refine ⟨?_, _, hplan, hlens _ _ _ _ _ hplan⟩
  rw [← hscales]
  exact hresolution "RESIZE"

end TensorResize
