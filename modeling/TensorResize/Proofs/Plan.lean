import Mathlib.Data.Nat.Notation
import TensorResize.Proofs.Layout
import TensorResize.Proofs.Sequencing
import TensorResize.Resize.Plan

/-!
# How plans are made

When each step of planning a resize passes, and what it then yields. A precomputed plan comes from
settings, data, scales and output lengths that all passed their checks; once the stack of all
corners fits an allocation, the shorter stacks that are left after each blend fit too.

## Main definitions

* `CornerTable.stored` — the stored position of a corner.
* `blendSteps` — the steps of a linear plan.
* `Precomputed` — what a plan of known lengths is made of.
-/

namespace TensorResize

open RowMajor

variable {lens outLens : List ℕ} {tag : String}

/-! ## Checked sizes -/

theorem foldlM_times?_eq_some {acc n : ℕ} (hacc : acc < Word.modulus) :
    lens.foldlM Word.times? acc = some n ↔
      (∀ k ≤ lens.length, acc * count (lens.take k) < Word.modulus) ∧ acc * count lens = n := by
  induction lens generalizing acc with
  | nil => simp [hacc]
  | cons len lens ih =>
    rw [List.foldlM_cons, Word.times?]
    by_cases hlen : acc * len < Word.modulus
    · rw [if_pos hlen, Option.bind_eq_bind, Option.bind_some, ih hlen, count_cons, ← Nat.mul_assoc]
      apply and_congr_left
      intro _
      constructor
      · intro h k hk
        cases k with
        | zero => simpa using hacc
        | succ k =>
          rw [List.take_succ_cons, count_cons, ← Nat.mul_assoc]
          exact h k (Nat.le_of_succ_le_succ hk)
      · intro h k hk
        have hnext := h (k + 1) (Nat.succ_le_succ hk)
        rwa [List.take_succ_cons, count_cons, ← Nat.mul_assoc] at hnext
    · rw [if_neg hlen]
      constructor
      · intro h
        simp at h
      · intro h
        have hfirst := h.1 1 (by simp)
        rw [List.take_succ_cons, List.take_zero, count_cons, count_nil, Nat.mul_one] at hfirst
        exact absurd hfirst hlen

/-- A checked product exists if no partial product from the left leaves the word. -/
theorem product?_eq_some {n : ℕ} :
    Word.product? lens = some n ↔
      (∀ k ≤ lens.length, count (lens.take k) < Word.modulus) ∧ count lens = n := by
  rw [Word.product?, foldlM_times?_eq_some (by decide)]
  simp only [Nat.one_mul]

theorem product?_eq_none :
    Word.product? lens = none ↔ ∃ k ≤ lens.length, Word.modulus ≤ count (lens.take k) := by
  rw [← not_iff_not, ← ne_eq, Option.ne_none_iff_exists']
  simp only [product?_eq_some, exists_and_left, exists_eq', and_true, not_exists, not_and,
    Nat.not_le]

theorem headD_stackLens (factor : ℕ) (lens : List ℕ) :
    (stackLens factor lens).headD 0 = lens.headD 0 * factor := by
  cases lens with
  | nil => simp [stackLens]
  | cons len lens => rfl

@[simp] theorem stackLens_one (lens : List ℕ) : stackLens 1 lens = lens := by
  cases lens with
  | nil => rfl
  | cons len lens => simp [stackLens]

theorem count_stackLens {factor : ℕ} (h : lens ≠ []) :
    count (stackLens factor lens) = factor * count lens := by
  cases lens with
  | nil => exact absurd rfl h
  | cons len lens => rw [stackLens, count_cons, count_cons, Nat.mul_comm len, Nat.mul_assoc]

/-- A stack with a block for every choice of a side per axis, which is one block without axes. -/
theorem count_stackLens_corners (lens : List ℕ) :
    count (stackLens (2 ^ lens.length) lens) = 2 ^ lens.length * count lens := by
  cases lens with
  | nil => rfl
  | cons len lens => exact count_stackLens (List.cons_ne_nil _ _)

@[simp] theorem checkedStack_eq_ok {factor : ℕ} {stacked : List ℕ} :
    checkedStack factor outLens tag = .ok stacked ↔
      outLens.headD 0 * factor ≤ Word.maxEntries ∧ stackLens factor outLens = stacked := by
  simp only [checkedStack, bind_eq_ok, checkEntries_eq_ok, pure_eq_ok, headD_stackLens,
    exists_const]

/-! ## Stored corners -/

namespace CornerTable

/-- The stored position of the corner and element that stand at `k`, one block of elements per
corner. -/
def stored (table : CornerTable) (inLens : List ℕ) (k : ℕ) : ℕ :=
  offset inLens (table.point (k / table.elements) (k % table.elements))

@[simp] theorem offsets_eq_ok {table : CornerTable} {inLens offsets : List ℕ} :
    table.offsets inLens tag = .ok offsets ↔
      table.rank < maxRank ∧ 2 ^ table.rank * table.elements ≤ Word.maxEntries ∧
        (List.range (2 ^ table.rank * table.elements)).map (table.stored inLens) = offsets := by
  rw [CornerTable.offsets, Nat.one_shiftLeft]
  by_cases hrank : table.rank < maxRank
  · rw [if_pos hrank]
    simp only [hrank, true_and, bind_eq_ok, checkEntries_eq_ok, pure_eq_ok, exists_const]
    rfl
  · simp [hrank, throw, throwThe, MonadExceptOf.throw]

@[simp] theorem rank_build (t : CoordinateTransform) (axes : List Axis) :
    (build t axes).rank = axes.length := by simp [build, rank]

@[simp] theorem elements_build (t : CoordinateTransform) (axes : List Axis) :
    (build t axes).elements = RowMajor.elements (axes.map Axis.outLen) := rfl

/-- Every list of a table has one entry per element. -/
theorem length_of_mem_build {t : CoordinateTransform} {axes : List Axis}
    {corners : AxisCorners} (h : corners ∈ (build t axes).axes) :
    corners.floor.length = (build t axes).elements ∧
      corners.ceil.length = (build t axes).elements ∧
      corners.weight.length = (build t axes).elements := by
  simp only [build, List.mem_map] at h
  obtain ⟨⟨a, d⟩, -, rfl⟩ := h
  simp [build]

end CornerTable

/-! ## Resolved lengths -/

namespace Resolution

variable {attributes : AttributeMap} {args : List Argument} {inLens : List ℕ}
  {scales given : List Binary64} {source origin : Option NodeId}

theorem length_of_ofScales (hlens : lens = [] ∨ lens.length = inLens.length)
    (h : ofScales inLens given lens origin tag = .ok (.constant scales outLens source)) :
    scales.length = inLens.length ∧ outLens.length = inLens.length := by
  rw [ofScales] at h
  split at h
  · next hscales =>
    simp only [Except.ok.injEq, constant.injEq] at h
    obtain ⟨rfl, rfl, rfl⟩ := h
    refine ⟨hscales, ?_⟩
    split
    · rw [List.length_zipWith, hscales, Nat.min_self]
    · next hzero =>
      rcases hlens with rfl | hlens
      · exact absurd rfl hzero
      · exact hlens
  · cases h

theorem length_of_reading {a : Argument} {rank : ℕ}
    (h : a.reading rank tag = .ok (.lengths lens)) : lens.length = rank := by
  simp only [Argument.reading] at h
  split at h
  · split at h
    · cases h
    · split at h
      · next hlength =>
        cases h
        exact hlength
      · cases h
  · split at h
    · split at h
      · cases h
      · cases h
    · cases h

/-- A resolution has one scale and one output length per source axis. -/
theorem length_of_resolve
    (h : resolve attributes args inLens tag = .ok (.constant scales outLens source)) :
    scales.length = inLens.length ∧ outLens.length = inLens.length := by
  simp only [resolve, bind_eq_ok] at h
  obtain ⟨attributeScales, -, h⟩ := h
  by_cases hempty : attributeScales.isEmpty
  · simp only [hempty, if_true, bind_eq_ok] at h
    obtain ⟨a, -, reading, hreading, h⟩ := h
    cases reading with
    | deferred => cases h
    | lengths lens => exact length_of_ofScales (.inr (length_of_reading hreading)) h
    | scales values => exact length_of_ofScales (.inl rfl) h
  · rw [if_neg hempty] at h
    exact length_of_ofScales (.inl rfl) h

end Resolution

/-! ## Known lengths -/

theorem mapM_length?_eq (dims : List Dimension) (fill : ℕ) :
    dims.mapM Dimension.length? =
      if dims.any (!·.isKnown) then none else some (dims.map fun d => d.length?.getD fill) := by
  induction dims with
  | nil => rfl
  | cons d dims ih =>
    rw [List.mapM_cons, ih]
    cases d with
    | known length =>
      have hany : (Dimension.known length :: dims).any (!·.isKnown) = dims.any (!·.isKnown) := rfl
      rw [hany]
      by_cases hrest : dims.any (!·.isKnown)
      · rw [if_pos hrest, if_pos hrest]
        rfl
      · rw [if_neg hrest, if_neg hrest]
        rfl
    | symbolic name => rfl

theorem Shape.lens?_eq_some {s : Shape} (fill : ℕ) :
    s.lens? = some lens ↔ s.isDynamic = false ∧ s.lensOr fill = lens := by
  rw [lens?, mapM_length?_eq _ fill, isDynamic, lensOr]
  by_cases hdynamic : s.dims.any (!·.isKnown)
  · simp [hdynamic]
  · simp [hdynamic]

theorem Shape.lens?_ofLens (t : ElementType) (lens : List ℕ) :
    (ofLens t lens).lens? = some lens := by
  rw [lens?_eq_some 0]
  exact ⟨by simp [isDynamic, ofLens, Dimension.isKnown], lensOr_ofLens 0 t lens⟩

/-! ## Linear plans -/

/-- The steps that blend along some axes, the last axis first. -/
def blendSteps (outLens : List ℕ) (axes : List AxisCorners) : List BlendStep :=
  axes.zipIdx.reverse.map fun (corners, d) =>
    ⟨outLens.headD 0 * 2 ^ d, ⟨stackLens (2 ^ d) outLens, .float32 (doubled d corners.weight)⟩⟩

theorem exists_of_mem_blendSteps {axes : List AxisCorners} {step : BlendStep}
    (h : step ∈ blendSteps outLens axes) : ∃ d < axes.length, ∃ weights,
      step = ⟨outLens.headD 0 * 2 ^ d, ⟨stackLens (2 ^ d) outLens, .float32 weights⟩⟩ := by
  simp only [blendSteps, List.mem_map, List.mem_reverse] at h
  obtain ⟨⟨corners, d⟩, hmem, rfl⟩ := h
  have hd := List.snd_lt_add_of_mem_zipIdx hmem
  rw [Nat.zero_add] at hd
  exact ⟨d, hd, _, rfl⟩

/-- Where the stack of all corners is not too large, no blend finds a stack that is. -/
theorem mapM_blendStep {axes : List AxisCorners}
    (h : outLens.headD 0 * 2 ^ axes.length ≤ Word.maxEntries) :
    (axes.zipIdx.reverse.mapM fun (corners, d) => blendStep outLens corners d tag) =
      .ok (blendSteps outLens axes) := by
  apply mapM_eq_pure_map
  rintro ⟨corners, d⟩ hmem
  have hd : d < axes.length := by
    have := List.snd_lt_add_of_mem_zipIdx (List.mem_reverse.1 hmem)
    simpa using this
  have hstack : outLens.headD 0 * 2 ^ d ≤ outLens.headD 0 * 2 ^ axes.length :=
    Nat.mul_le_mul_left _ (Nat.pow_le_pow_right (by decide) hd.le)
  have hcheck : checkedStack (1 <<< d) outLens tag = .ok (stackLens (2 ^ d) outLens) := by
    rw [Nat.one_shiftLeft, checkedStack_eq_ok]
    exact ⟨hstack.trans h, rfl⟩
  simp only [blendStep, hcheck, ← headD_stackLens]
  rfl

namespace ResizePlan

variable {o : Operator} {args : List Argument} {lowering : LoweringSettings}
  {data : NodeId} {settings : ResizeSettings} {axes : List Axis} {plan : ResizePlan}

theorem checkOutput_eq_ok {u : Unit} :
    checkOutput outLens tag = .ok u ↔
      (∀ k ≤ outLens.length, count (outLens.take k) < Word.modulus) ∧
        count outLens ≤ Word.maxEntries := by
  rw [checkOutput]
  cases hproduct : Word.product? outLens with
  | some n =>
    obtain ⟨hpartial, rfl⟩ := product?_eq_some.1 hproduct
    simp only [checkEntries_eq_ok, and_iff_right hpartial]
  | none =>
    obtain ⟨k, hk, hle⟩ := product?_eq_none.1 hproduct
    simp only [reduceCtorEq, false_iff, not_and]
    intro h
    exact absurd (h k hk) (Nat.not_lt.2 hle)

/-- A linear plan is refused only by the checks of the corner number, of the table and of the stack
of all corners. -/
theorem forLinear_eq :
    forLinear data settings axes tag = do
      let table := CornerTable.build settings.transform axes
      let offsets ← table.offsets (axes.map Axis.inLen) tag
      let lens ← checkedStack (2 ^ axes.length) (axes.map Axis.outLen) tag
      let total := elements (axes.map Axis.inLen)
      return .linear data total (indexLiteral lens offsets total)
        (blendSteps (axes.map Axis.outLen) table.axes) := by
  simp only [forLinear, Nat.one_shiftLeft, CornerTable.rank_build]
  congr 1
  funext offsets
  cases hstack : checkedStack (2 ^ axes.length) (axes.map Axis.outLen) tag with
  | error e => rfl
  | ok lens =>
    have hfits := (checkedStack_eq_ok.1 hstack).1
    rw [← CornerTable.rank_build settings.transform axes] at hfits
    have hblend := @mapM_blendStep _ tag _ hfits
    simp only [bind, Except.bind, hblend]

theorem forLinear_eq_ok :
    forLinear data settings axes tag = .ok plan ↔
      let table := CornerTable.build settings.transform axes
      let inLens := axes.map Axis.inLen
      let outLens := axes.map Axis.outLen
      axes.length < CornerTable.maxRank ∧
        2 ^ axes.length * elements outLens ≤ Word.maxEntries ∧
        outLens.headD 0 * 2 ^ axes.length ≤ Word.maxEntries ∧
        .linear data (elements inLens)
          (indexLiteral (stackLens (2 ^ axes.length) outLens)
            ((List.range (2 ^ axes.length * elements outLens)).map (table.stored inLens))
            (elements inLens))
          (blendSteps outLens table.axes) = plan := by
  rw [forLinear_eq]
  simp only [bind_eq_ok, pure_eq_ok, CornerTable.offsets_eq_ok, checkedStack_eq_ok,
    CornerTable.rank_build, CornerTable.elements_build]
  constructor
  · rintro ⟨offsets, ⟨hrank, htable, rfl⟩, lens, ⟨hstack, rfl⟩, rfl⟩
    exact ⟨hrank, htable, hstack, rfl⟩
  · rintro ⟨hrank, htable, hstack, rfl⟩
    exact ⟨_, ⟨hrank, htable, rfl⟩, _, ⟨hstack, rfl⟩, rfl⟩

/-! ## Precomputed plans -/

/-- The settings, the data and the resolution that a plan of known lengths is made of. -/
structure Precomputed (o : Operator) (args : List Argument) (settings : ResizeSettings)
    (a : Argument) (inLens outLens : List ℕ) (scales : List Binary64) : Prop where
  settings_eq : ResizeSettings.resolve o = .ok settings
  data_eq : args.head? = some a
  lens_eq : a.shape.lens? = some inLens
  resolution_eq : ∃ origin,
    Resolution.resolve o.attributes args inLens o.tag = .ok (.constant scales outLens origin)
  output : checkOutput outLens o.tag = .ok ()

namespace Precomputed

variable {a : Argument} {inLens : List ℕ} {scales : List Binary64}
  (h : Precomputed o args settings a inLens outLens scales)
include h

theorem rank_eq : inLens.length = outLens.length := by
  obtain ⟨origin, hresolution⟩ := h.resolution_eq
  exact (Resolution.length_of_resolve hresolution).2.symm

theorem count_lt : count outLens < Word.modulus :=
  (checkOutput_eq_ok.1 h.output).2.trans_lt (by decide)

theorem map_inLen : (Axis.ofLists inLens outLens scales).map Axis.inLen = inLens :=
  Axis.map_inLen_ofLists scales h.rank_eq

end Precomputed

/-- A plan is a nearest resize of the first argument that runs with the graph, or it is made of
known lengths. -/
theorem planResize_eq_ok (h : planResize o args lowering = .ok plan) :
    (∃ settings a resolution, ResizeSettings.resolve o = .ok settings ∧
        settings.interpolation = .nearest ∧ args.head? = some a ∧
        Resolution.resolve o.attributes args (a.shape.lensOr 1) o.tag = .ok resolution ∧
        plan = forRuntime a.id settings resolution) ∨
      ∃ settings a inLens outLens scales,
        Precomputed o args settings a inLens outLens scales ∧
        let axes := Axis.ofLists inLens outLens scales
        (settings.interpolation = .nearest ∧ plan = forNearest a.id settings axes ∨
          settings.interpolation = .linear ∧ forLinear a.id settings axes o.tag = .ok plan) := by
  simp only [planResize, bind_eq_ok, orError_eq_ok] at h
  obtain ⟨settings, hsettings, a, ha, resolution, hresolution, h⟩ := h
  split at h
  · next hmode =>
    exact .inl ⟨_, a, _, hsettings, hmode, ha, hresolution, (pure_eq_ok.1 h).symm⟩
  · next hmode _ _ =>
    exact .inl ⟨_, a, _, hsettings, hmode, ha, hresolution, (pure_eq_ok.1 h).symm⟩
  · cases h
  · cases h
  · next scales outLens source hmode hstatic =>
    have hlens := (Shape.lens?_eq_some 1).2 ⟨hstatic, rfl⟩
    by_cases hgather : lowering.preferGather
    · simp only [hgather, if_true, bind_eq_ok, pure_eq_ok] at h
      obtain ⟨_, hout, rfl⟩ := h
      exact .inr ⟨settings, a, a.shape.lensOr 1, outLens, scales,
        ⟨hsettings, ha, hlens, ⟨source, hresolution⟩, hout⟩, .inl ⟨hmode, rfl⟩⟩
    · rw [if_neg hgather] at h
      exact .inl ⟨_, a, _, hsettings, hmode, ha, hresolution, (pure_eq_ok.1 h).symm⟩
  · next scales outLens source hmode hstatic =>
    have hlens := (Shape.lens?_eq_some 1).2 ⟨hstatic, rfl⟩
    simp only [bind_eq_ok] at h
    obtain ⟨_, hout, h⟩ := h
    exact .inr ⟨settings, a, a.shape.lensOr 1, outLens, scales,
      ⟨hsettings, ha, hlens, ⟨source, hresolution⟩, hout⟩, .inr ⟨hmode, h⟩⟩

/-- What is made of known lengths. They are used in linear mode, and in nearest mode if precomputed
positions are preferred. -/
theorem planResize_of_constant {a : Argument} {inLens : List ℕ} {scales : List Binary64}
    {origin : Option NodeId} (hsettings : ResizeSettings.resolve o = .ok settings)
    (hdata : args.head? = some a) (hlens : a.shape.lens? = some inLens)
    (hresolution : Resolution.resolve o.attributes args inLens o.tag =
      .ok (.constant scales outLens origin)) :
    planResize o args lowering =
      match settings.interpolation, lowering.preferGather with
      | .nearest, false => .ok (forRuntime a.id settings (.constant scales outLens origin))
      | .nearest, true => checkOutput outLens o.tag >>= fun _ =>
        .ok (forNearest a.id settings (Axis.ofLists inLens outLens scales))
      | .linear, _ => checkOutput outLens o.tag >>= fun _ =>
        forLinear a.id settings (Axis.ofLists inLens outLens scales) o.tag := by
  obtain ⟨hstatic, rfl⟩ := (Shape.lens?_eq_some 1).1 hlens
  simp only [planResize, hsettings, hdata, orError, hresolution, hstatic, bind, Except.bind]
  cases settings.interpolation with
  | nearest =>
    cases lowering.preferGather with
    | false => rfl
    | true => rfl
  | linear => rfl

/-- What is made where a length or a scale is not known. -/
theorem planResize_of_unknown {a : Argument} {resolution : Resolution}
    (hsettings : ResizeSettings.resolve o = .ok settings) (hdata : args.head? = some a)
    (hresolution : Resolution.resolve o.attributes args (a.shape.lensOr 1) o.tag = .ok resolution)
    (hunknown : a.shape.isDynamic = true ∨ ∃ id, resolution = .deferred id) :
    planResize o args lowering =
      match settings.interpolation with
      | .nearest => .ok (forRuntime a.id settings resolution)
      | .linear => .error (.inOperator o.tag .dynamicLinear) := by
  simp only [planResize, hsettings, hdata, orError, hresolution, bind, Except.bind]
  cases resolution with
  | deferred id =>
    cases settings.interpolation with
    | nearest => rfl
    | linear => rfl
  | constant scales outLens origin =>
    have hdynamic : a.shape.isDynamic = true := by
      rcases hunknown with hdynamic | ⟨id, hid⟩
      · exact hdynamic
      · cases hid
    rw [hdynamic]
    cases settings.interpolation with
    | nearest => rfl
    | linear => rfl

end ResizePlan

end TensorResize
