import Mathlib.Algebra.BigOperators.Group.List.Basic
import TensorResize.Proofs.Refusal

/-!
# The guard of the output

Output lengths are refused if no allocation holds as many elements. Their product is taken from the
left and refused as soon as it leaves the word, so that a length of zero helps only if it comes
early enough. An output without elements is then refused as one that is too large.

The guard is exact for lengths without a zero. With a zero it depends on the order of the lengths,
unless the product of the others fits a word.

## Main definitions

* `ZeroTooLate` — a length of zero behind lengths whose product left the word.
-/

namespace TensorResize

open RowMajor

variable {lens outLens : List ℕ}

/-- A length of zero comes behind lengths whose product leaves the word. -/
def ZeroTooLate (lens : List ℕ) : Prop :=
  ∃ before after, lens = before ++ 0 :: after ∧ Word.modulus ≤ count before

/-! ## Products of lengths -/

theorem RowMajor.count_eq_prod (lens : List ℕ) : count lens = lens.prod := by
  induction lens with
  | nil => rfl
  | cons len lens ih => rw [count_cons, ih, List.prod_cons]

theorem RowMajor.count_perm {more : List ℕ} (h : lens.Perm more) : count lens = count more := by
  rw [count_eq_prod, count_eq_prod, h.prod_eq]

/-- A partial product that leaves the word is at most the whole product, but for a zero behind
it. -/
theorem exists_le_count_take_iff :
    (∃ k ≤ lens.length, Word.modulus ≤ count (lens.take k)) ↔
      Word.modulus ≤ count lens ∨ ZeroTooLate lens := by
  constructor
  · rintro ⟨k, -, hk⟩
    by_cases hzero : 0 ∈ lens.drop k
    · right
      obtain ⟨between, after, hsplit, hnone⟩ := List.eq_append_cons_of_mem hzero
      refine ⟨lens.take k ++ between, after, ?_, ?_⟩
      · rw [List.append_assoc, ← hsplit, List.take_append_drop]
      · rw [count_append]
        exact hk.trans (Nat.le_mul_of_pos_right _ (count_pos hnone))
    · left
      rw [← List.take_append_drop k lens, count_append]
      exact hk.trans (Nat.le_mul_of_pos_right _ (count_pos hzero))
  · rintro (h | ⟨before, after, rfl, h⟩)
    · exact ⟨lens.length, le_rfl, by rwa [List.take_length]⟩
    · exact ⟨before.length, by simp, by rwa [List.take_left]⟩

/-- The lengths that are not zero. -/
def nonzeroLens (lens : List ℕ) : List ℕ := lens.filter (· ≠ 0)

theorem count_nonzeroLens_pos (lens : List ℕ) : 0 < count (nonzeroLens lens) :=
  count_pos (by simp [nonzeroLens])

/-- No order of the lengths puts a zero too late exactly if there is none, or the product of the
other lengths fits a word. -/
theorem forall_perm_not_zeroTooLate_iff :
    (∀ more, more.Perm lens → ¬ZeroTooLate more) ↔
      (0 ∈ lens → count (nonzeroLens lens) < Word.modulus) := by
  constructor
  · -- the order with all zeros last is the worst
    intro h hzero
    by_contra hle
    let zeros := lens.filter fun len => !decide (len ≠ 0)
    have hperm : (nonzeroLens lens ++ zeros).Perm lens := List.filter_append_perm _ _
    obtain ⟨between, after, hsplit, hnone⟩ :=
      List.eq_append_cons_of_mem (show 0 ∈ zeros by simpa [zeros] using hzero)
    refine h _ hperm ⟨nonzeroLens lens ++ between, after, ?_, ?_⟩
    · rw [hsplit, List.append_assoc]
    · rw [count_append]
      exact (Nat.le_of_not_lt hle).trans (Nat.le_mul_of_pos_right _ (count_pos hnone))
  · rintro h more hperm ⟨before, after, rfl, hle⟩
    have hfits := h (hperm.mem_iff.1 (by simp))
    have hbefore : nonzeroLens before = before := by
      rw [nonzeroLens, List.filter_eq_self]
      intro len hlen
      have hne : len ≠ 0 := by
        rintro rfl
        rw [count_eq_zero.2 hlen] at hle
        exact absurd hle (by decide)
      simpa using hne
    have hsplit : count (nonzeroLens lens) = count before * count (nonzeroLens (0 :: after)) := by
      conv_rhs => rw [← hbefore]
      rw [← count_append, nonzeroLens, nonzeroLens, nonzeroLens, ← List.filter_append]
      exact count_perm (hperm.symm.filter _)
    have hle' := Nat.le_mul_of_pos_right (count before) (count_nonzeroLens_pos (0 :: after))
    omega

/-! ## The verdict -/

namespace ResizePlan

/-- Output lengths are refused for their number of elements, or for a zero that comes too late. -/
theorem checkOutput_eq_error {tag : String} {fault : Fault} :
    checkOutput outLens tag = .error (.inOperator tag fault) ↔
      (Word.maxEntries < count outLens ∨ ZeroTooLate outLens) ∧
        .tooManyElements "output" = fault := by
  have hverdict : ((∃ k ≤ outLens.length, Word.modulus ≤ count (outLens.take k)) ∨
      Word.maxEntries < count outLens) ↔ Word.maxEntries < count outLens ∨ ZeroTooLate outLens := by
    rw [exists_le_count_take_iff]
    constructor
    · rintro ((hle | hlate) | hmany)
      · exact .inl (lt_of_lt_of_le (by decide) hle)
      · exact .inr hlate
      · exact .inl hmany
    · rintro (hmany | hlate)
      · exact .inr hmany
      · exact .inl (.inr hlate)
  rw [(reports_checkOutput outLens tag).eq_error_iff, ← hverdict]
  simp only [outputChecks, failIf, List.findSome?_singleton, id_eq, Option.ite_none_right_eq_some,
    Option.some.injEq]
  rfl

/-- The later checks of a linear resize are about the corners. -/
theorem forLinear_ne_output {data : NodeId} {settings : ResizeSettings} {axes : List Axis}
    {tag : String} (hout : count (axes.map Axis.outLen) < Word.modulus) :
    forLinear data settings axes tag ≠ .error (.inOperator tag (.tooManyElements "output")) := by
  intro h
  have hmem := (reports_forLinear hout).mem_of_eq_error h
  simp [cornerChecks, failIf] at hmem

theorem planResize_eq_error_output {o : Operator} {args : List Argument}
    {lowering : LoweringSettings} {settings : ResizeSettings} {a : Argument} {inLens : List ℕ}
    {scales : List Binary64} {origin : Option NodeId}
    (hsettings : ResizeSettings.resolve o = .ok settings) (hdata : args.head? = some a)
    (hlens : a.shape.lens? = some inLens)
    (hresolution : Resolution.resolve o.attributes args inLens o.tag =
      .ok (.constant scales outLens origin))
    (hbranch : settings.interpolation = .linear ∨ lowering.preferGather) :
    planResize o args lowering = .error (.inOperator o.tag (.tooManyElements "output")) ↔
      Word.maxEntries < count outLens ∨ ZeroTooLate outLens := by
  rw [planResize_of_constant hsettings hdata hlens hresolution]
  cases hmode : settings.interpolation with
  | nearest =>
    rw [hmode] at hbranch
    rw [hbranch.resolve_left (by decide)]
    simp [bind_eq_error, checkOutput_eq_error]
  | linear =>
    -- behind the guard the number of elements is exact, so that the later checks are about corners
    have hlinear : checkOutput outLens o.tag = .ok () →
        forLinear a.id settings (Axis.ofLists inLens outLens scales) o.tag ≠
          .error (.inOperator o.tag (.tooManyElements "output")) := by
      intro hout
      apply forLinear_ne_output
      rw [Axis.map_outLen_ofLists]
      exact (checkOutput_eq_ok.1 hout).2.trans_lt (by decide)
    simp only [bind_eq_error, checkOutput_eq_error, and_true]
    constructor
    · rintro (hrefused | ⟨_, hout, hlater⟩)
      · exact hrefused
      · exact absurd hlater (hlinear hout)
    · exact .inl

end ResizePlan

/-- Where positions are computed element by element, the output is refused exactly if it has more
elements than an allocation holds, or if it has none and a zero comes too late in its lengths. The
latter happens for no order of the lengths exactly if none is zero or the product of the others fits
a word. -/
theorem planResize_refusesOutput_iff {o : Operator} {args : List Argument}
    {lowering : LoweringSettings} {settings : ResizeSettings} {a : Argument} {inLens : List ℕ}
    {scales : List Binary64} {origin : Option NodeId}
    (hsettings : ResizeSettings.resolve o = .ok settings) (hdata : args.head? = some a)
    (hlens : a.shape.lens? = some inLens)
    (hresolution : Resolution.resolve o.attributes args inLens o.tag =
      .ok (.constant scales outLens origin))
    (hbranch : settings.interpolation = .linear ∨ lowering.preferGather) :
    (planResize o args lowering = .error (.inOperator o.tag (.tooManyElements "output")) ↔
      Word.maxEntries < count outLens ∨ ZeroTooLate outLens) ∧
    (ZeroTooLate outLens → count outLens = 0) ∧
    ((∀ lens, lens.Perm outLens → ¬ZeroTooLate lens) ↔
      (0 ∈ outLens → count (nonzeroLens outLens) < Word.modulus)) := by
  refine ⟨ResizePlan.planResize_eq_error_output hsettings hdata hlens hresolution hbranch, ?_,
    forall_perm_not_zeroTooLate_iff⟩
  · rintro ⟨before, after, rfl, -⟩
    exact count_eq_zero.2 (by simp)

/-- A zero behind two lengths of `2 ^ 32` comes too late. -/
theorem planResize_refusesOutput_zero_last :
    planResize ⟨"Resize", .empty⟩
      [.ofShape 0 (.ofLens .float32 [1, 1, 1]) none,
        .ofShape 1 (.ofLens .int64 [3]) (some ⟨[3], .int64 [2 ^ 32, 2 ^ 32, 0]⟩)] ⟨true⟩ =
      .error (.inOperator "RESIZE" (.tooManyElements "output")) := by
  have hverdict := @planResize_refusesOutput_iff [2 ^ 32, 2 ^ 32, 0] ⟨"Resize", .empty⟩
    [.ofShape 0 (.ofLens .float32 [1, 1, 1]) none,
      .ofShape 1 (.ofLens .int64 [3]) (some ⟨[3], .int64 [2 ^ 32, 2 ^ 32, 0]⟩)] ⟨true⟩
    ⟨.nearest, .halfPixel, .roundPreferFloor, false⟩ (.ofShape 0 (.ofLens .float32 [1, 1, 1]) none)
    [1, 1, 1] [.ofNat .binary64 (2 ^ 32), .ofNat .binary64 (2 ^ 32), .zero] (some 1)
    (by decide +kernel) rfl (by decide) (by decide +kernel) (.inr rfl)
  exact hverdict.1.2 (.inr ⟨[2 ^ 32, 2 ^ 32], [], rfl, by decide⟩)

/-- The same output lengths are refused with the zero last and planned with the zero first, though
both are those of an output without elements. -/
theorem planResize_refusesOutput_depends_on_order :
    let args (sizes : List Int64) : List Argument :=
      [.ofShape 0 (.ofLens .float32 [1, 1, 1]) none,
        .ofShape 1 (.ofLens .int64 [3]) (some ⟨[3], .int64 sizes⟩)]
    planResize ⟨"Resize", .empty⟩ (args [2 ^ 32, 2 ^ 32, 0]) ⟨true⟩ =
        .error (.inOperator "RESIZE" (.tooManyElements "output")) ∧
      planResize ⟨"Resize", .empty⟩ (args [0, 2 ^ 32, 2 ^ 32]) ⟨true⟩ =
        .ok (.nearest 0 1 ⟨[0, 2 ^ 32, 2 ^ 32], .int32 []⟩) ∧
      count [2 ^ 32, 2 ^ 32, 0] = 0 ∧ count [0, 2 ^ 32, 2 ^ 32] = 0 := by
  refine ⟨by decide +kernel, by decide +kernel, by decide, by decide⟩

end TensorResize
