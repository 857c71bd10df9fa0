import TensorResize.Proofs.Blend
import TensorResize.Proofs.CornerBlocks
import TensorResize.Proofs.GatherRange

/-!
# Exact integers

Strides, element counts and positions are computed in words, and a plan writes some of them as
signed integers. Nothing of this is checked but the size of the output and of the stack of corners.
The integers of a plan are the exact ones if the products of the trailing lengths fit a word on both
sides, the source has no more elements than a signed word counts and every position has room in the
element type that it is written in. None of these conditions can be left out.

They hold for a source without empty axes that a signed word can count, unless an output length is
zero. The bounds of slices are always exact, since the stack of corners bounds them.

## Main definitions

* `RowMajor.ExactLayout` — strides and element count in words are the exact ones.
* `gatheredCoordinates` — the source coordinates that a resize reads.
* `ResizePlan.Exact` — all integers of a plan are the exact ones.
-/

namespace TensorResize

open RowMajor

variable {lens inLens outLens : List ℕ} {total : ℕ}

/-! ## Layouts in words -/

theorem Word.wrap_eq_self_iff {n : ℕ} : wrap n = n ↔ n < modulus := by
  constructor
  · intro h
    rw [← h]
    exact wrap_lt n
  · exact wrap_eq_self

namespace RowMajor

/-- The stride of each axis, not reduced to a word. -/
def exactStrides : List ℕ → List ℕ
  | [] => []
  | _ :: rest => count rest :: exactStrides rest

/-- The strides and the number of elements are the exact ones, although they are held in words. -/
structure ExactLayout (lens : List ℕ) : Prop where
  strides_eq : strides lens = exactStrides lens
  elements_eq : elements lens = count lens

theorem exactLayout_cons {len : ℕ} :
    ExactLayout (len :: lens) ↔ count (len :: lens) < Word.modulus ∧ ExactLayout lens := by
  constructor
  · rintro ⟨hstrides, helements⟩
    rw [strides, exactStrides, List.cons.injEq] at hstrides
    exact ⟨Word.wrap_eq_self_iff.1 helements, hstrides.2, hstrides.1⟩
  · rintro ⟨hcount, hstrides, helements⟩
    refine ⟨?_, Word.wrap_eq_self_iff.2 hcount⟩
    rw [strides, exactStrides, hstrides]
    exact congrArg (· :: exactStrides lens) helements

/-- A layout is exact if the product of the lengths from any axis on fits a word. -/
theorem exactLayout_iff :
    ExactLayout lens ↔ ∀ trailing, trailing <:+ lens → count trailing < Word.modulus := by
  induction lens with
  | nil =>
    apply iff_of_true
    · exact ⟨rfl, rfl⟩
    · rintro trailing htrailing
      rw [List.suffix_nil.1 htrailing]
      decide
  | cons len lens ih =>
    rw [exactLayout_cons, ih]
    simp only [List.suffix_cons_iff, forall_eq_or_imp]

/-- Lengths without a zero are laid out exactly if their elements can be counted in a word. -/
theorem exactLayout_of_count_lt (hzero : 0 ∉ lens) (h : count lens < Word.modulus) :
    ExactLayout lens := by
  rw [exactLayout_iff]
  rintro trailing ⟨leading, rfl⟩
  have hpos : 0 < count leading := count_pos fun hmem => hzero (List.mem_append_left _ hmem)
  rw [count_append] at h
  exact (Nat.le_mul_of_pos_left _ hpos).trans_lt h

theorem dot_exactStrides (lens coords : List ℕ) :
    dot coords (exactStrides lens) = position lens coords := by
  induction lens generalizing coords with
  | nil => cases coords with
    | nil => rfl
    | cons c cs => rfl
  | cons len lens ih => cases coords with
    | nil => rfl
    | cons c cs => rw [exactStrides, dot, ih, position_cons]

/-- In an exact layout an offset is the position, reduced to a word. -/
theorem ExactLayout.offset_eq (h : ExactLayout lens) (coords : List ℕ) :
    offset lens coords = Word.wrap (position lens coords) := by
  rw [offset, h.strides_eq, dot_exactStrides]

/-- A stack of blocks is laid out exactly if a block is and the elements of the stack can be counted
in a word. -/
theorem ExactLayout.stackLens {factor : ℕ} (h : ExactLayout lens)
    (hcount : factor * count lens < Word.modulus) : ExactLayout (stackLens factor lens) := by
  cases lens with
  | nil => exact h
  | cons len lens =>
    rw [← count_stackLens (List.cons_ne_nil _ _)] at hcount
    exact exactLayout_cons.2 ⟨hcount, (exactLayout_cons.1 h).2⟩

end RowMajor

/-! ## Positions as they are written -/

theorem writtenIndex_lt (total offset : ℕ) : writtenIndex total offset < indexLimit total := by
  unfold writtenIndex indexLimit
  split
  · exact Int32.toInt_lt _
  · exact Int64.toInt_lt _

/-- A position survives the reduction to a word and to the element type exactly if the element type
has room for it. -/
theorem writtenIndex_wrap_eq_iff {p : ℕ} :
    writtenIndex total (Word.wrap p) = p ↔ p < indexLimit total := by
  constructor
  · intro h
    have hlt := writtenIndex_lt total (Word.wrap p)
    rw [h] at hlt
    exact Int.ofNat_lt.1 hlt
  · intro h
    have hlimit : indexLimit total ≤ Word.modulus := by
      unfold indexLimit
      split
      · decide
      · decide
    rw [Word.wrap_eq_self (h.trans_le hlimit), writtenIndex_eq_self h]

theorem toInt_ofNat_eq_iff {n : ℕ} :
    (Int64.ofNat n).toInt = n ↔ n < 2 ^ 63 := by
  constructor
  · intro h
    have hlt := Int64.toInt_lt (Int64.ofNat n)
    rw [h] at hlt
    exact Int.ofNat_lt.1 hlt
  · exact Int64.toInt_ofNat_of_lt

/-! ## What is gathered -/

/-- The source coordinates that a resize of known lengths reads, in the order of its index
constant. -/
def gatheredCoordinates (settings : ResizeSettings) (axes : List Axis) : List (List ℕ) :=
  let outLens := axes.map Axis.outLen
  match settings.interpolation with
  | .nearest => (List.range (count outLens)).map fun element =>
    nearestCoordinates settings.transform settings.nearestMode axes (coordinates outLens element)
  | .linear => (List.range (2 ^ axes.length * count outLens)).map fun k =>
    cornerCoordinates settings.transform axes (k / count outLens)
      (coordinates outLens (k % count outLens))

/-- The coordinates that are read are those of source elements, in a source that has samples along
every axis. -/
theorem inRange_gatheredCoordinates {settings : ResizeSettings} {axes : List Axis}
    (haxes : ∀ a ∈ axes, a.HasSamples) (hout : count (axes.map Axis.outLen) < Word.modulus) :
    ∀ coords ∈ gatheredCoordinates settings axes, InRange (axes.map Axis.inLen) coords := by
  intro coords hcoords
  unfold gatheredCoordinates at hcoords
  split at hcoords
  · obtain ⟨element, -, rfl⟩ := List.mem_map.1 hcoords
    exact inRange_nearestCoordinates haxes (by simp)
  · obtain ⟨k, hk, rfl⟩ := List.mem_map.1 hcoords
    have hpos := Nat.pos_of_lt_mul_left (List.mem_range.1 hk)
    refine inRange_cornerCoordinates haxes _ ?_
    rw [elements_eq_count hout]
    exact Nat.mod_lt _ hpos

/-- The integers of a gather from a source of lengths `inLens` are the exact ones. -/
structure GatherExact (inLens : List ℕ) (settings : ResizeSettings) (axes : List Axis) (total : ℕ)
    (indices : Literal) : Prop where
  output : ExactLayout (axes.map Axis.outLen)
  total_eq : total = count inLens
  /-- The length that the source is flattened to is a signed word. -/
  flat_eq : (Int64.ofNat total).toInt = count inLens
  indices_eq : indices.buffer.integers =
    (gatheredCoordinates settings axes).map fun coords => (position inLens coords : ℤ)

/-- What a plan writes for the coordinates that it reads. -/
structure Gathers (inLens : List ℕ) (settings : ResizeSettings) (axes : List Axis) (total : ℕ)
    (indices : Literal) : Prop where
  total_eq : total = elements inLens
  indices_eq : indices.buffer.integers = (gatheredCoordinates settings axes).map fun coords =>
    writtenIndex total (offset inLens coords)

theorem Gathers.gatherExact_iff {settings : ResizeSettings} {axes : List Axis} {indices : Literal}
    (h : Gathers inLens settings axes total indices) (hsource : ExactLayout inLens) :
    GatherExact inLens settings axes total indices ↔
      count inLens < 2 ^ 63 ∧ ExactLayout (axes.map Axis.outLen) ∧
        ∀ coords ∈ gatheredCoordinates settings axes,
          position inLens coords < indexLimit (count inLens) := by
  have htotal : total = count inLens := h.total_eq.trans hsource.elements_eq
  have hindices : indices.buffer.integers =
      (gatheredCoordinates settings axes).map (fun coords => (position inLens coords : ℤ)) ↔
      ∀ coords ∈ gatheredCoordinates settings axes,
        position inLens coords < indexLimit (count inLens) := by
    rw [h.indices_eq, List.map_inj_left, htotal]
    simp only [hsource.offset_eq, writtenIndex_wrap_eq_iff]
  rw [← hindices, ← toInt_ofNat_eq_iff]
  subst htotal
  constructor
  · rintro ⟨houtput, -, hflat, hexact⟩
    exact ⟨hflat, houtput, hexact⟩
  · rintro ⟨hflat, houtput, hexact⟩
    exact ⟨houtput, rfl, hflat, hexact⟩

namespace ResizePlan

theorem literal_mem_blendCalls {l : Literal} {current : ℕ} {blend : List BlendStep} :
    .literal l ∈ blendCalls current blend ↔ ∃ step ∈ blend, step.weights = l := by
  induction blend generalizing current with
  | nil => simp [blendCalls]
  | cons step blend ih =>
    rw [blendCalls_cons, List.mem_append, ih, List.exists_mem_cons_iff]
    apply or_congr_left
    simp [blendCalls, eq_comm]

variable {data : NodeId} {settings : ResizeSettings} {axes : List Axis} {plan : ResizePlan}
  {indices : Literal} {tag : String}

theorem gathers_forNearest (hmode : settings.interpolation = .nearest)
    (hout : count (axes.map Axis.outLen) < Word.modulus)
    (h : (forNearest data settings axes).gather? = some (total, indices)) :
    Gathers (axes.map Axis.inLen) settings axes total indices := by
  simp only [forNearest, gather?, Option.some.injEq, Prod.mk.injEq] at h
  obtain ⟨rfl, rfl⟩ := h
  refine ⟨rfl, ?_⟩
  rw [integers_indexLiteral_eq_map, nearestOffsets_eq_map, elements_eq_count hout,
    gatheredCoordinates, hmode, List.map_map, List.map_map]
  rfl

theorem gathers_forLinear (hmode : settings.interpolation = .linear)
    (hout : count (axes.map Axis.outLen) < Word.modulus)
    (hplan : forLinear data settings axes tag = .ok plan)
    (h : plan.gather? = some (total, indices)) :
    Gathers (axes.map Axis.inLen) settings axes total indices := by
  obtain ⟨-, -, -, rfl⟩ := forLinear_eq_ok.1 hplan
  simp only [gather?, Option.some.injEq, Prod.mk.injEq] at h
  obtain ⟨rfl, rfl⟩ := h
  refine ⟨rfl, ?_⟩
  rw [integers_indexLiteral_eq_map, elements_eq_count hout, gatheredCoordinates, hmode,
    List.map_map, List.map_map]
  apply List.map_congr_left
  intro k hk
  have hpos := Nat.pos_of_lt_mul_left (List.mem_range.1 hk)
  have hpoint := @CornerTable.point_build settings.transform axes
    (k % count (axes.map Axis.outLen)) (k / count (axes.map Axis.outLen)) (by
      rw [CornerTable.elements_build, elements_eq_count hout]
      exact Nat.mod_lt _ hpos)
  simp only [Function.comp_apply, CornerTable.stored, CornerTable.elements_build,
    elements_eq_count hout, hpoint]

/-! ## Plans -/

/-- The bounds of the slices of a plan are signed words. -/
def ExactRows (plan : ResizePlan) : Prop :=
  ∀ step ∈ plan.steps, (Int64.ofNat step.rows).toInt = step.rows ∧
    (2 * Int64.ofNat step.rows).toInt = (2 * step.rows : ℕ)

/-- The integers of a plan for a source of lengths `inLens` are the exact ones. -/
structure Exact (plan : ResizePlan) (inLens : List ℕ) (settings : ResizeSettings)
    (axes : List Axis) : Prop where
  source : ExactLayout inLens
  constants : ∀ l, .literal l ∈ plan.program.calls → ExactLayout l.lens
  rows : plan.ExactRows
  gather : ∀ total indices, plan.gather? = some (total, indices) →
    GatherExact inLens settings axes total indices

/-- The constant of a resize that runs with the graph holds one scale per axis. -/
theorem lens_of_literal_mem_forRuntime {attributes : AttributeMap} {args : List Argument}
    {resolution : Resolution} {l : Literal}
    (hresolution : Resolution.resolve attributes args inLens tag = .ok resolution)
    (hl : .literal l ∈ (forRuntime data settings resolution).program.calls) :
    l.lens = [inLens.length] := by
  cases resolution with
  | constant scales outLens source =>
    cases source with
    | none =>
      obtain rfl : l = _ := by simpa [forRuntime, program] using hl
      rw [← (Resolution.length_of_resolve hresolution).1]
    | some id => simp [forRuntime, program] at hl
  | deferred id => simp [forRuntime, program] at hl

theorem exactRows_forRuntime (data : NodeId) (settings : ResizeSettings) (resolution : Resolution) :
    (forRuntime data settings resolution).ExactRows := by simp [ExactRows, forRuntime, steps]

theorem exact_forRuntime_iff {attributes : AttributeMap} {args : List Argument}
    {resolution : Resolution}
    (hresolution : Resolution.resolve attributes args inLens tag = .ok resolution)
    (hrank : inLens.length < Word.modulus) :
    (forRuntime data settings resolution).Exact inLens settings axes ↔ ExactLayout inLens := by
  constructor
  · exact Exact.source
  · intro hsource
    refine ⟨hsource, ?_, exactRows_forRuntime _ _ _, by simp [forRuntime, gather?]⟩
    intro l hl
    rw [lens_of_literal_mem_forRuntime hresolution hl, exactLayout_cons]
    exact ⟨by simpa using hrank, rfl, rfl⟩

/-- The constants of a plan of known lengths are laid out exactly if its output is. -/
theorem exactLayout_of_literal_mem_forLinear {l : Literal}
    (hlens : ExactLayout (axes.map Axis.outLen))
    (hplan : forLinear data settings axes tag = .ok plan) (hl : .literal l ∈ plan.program.calls) :
    ExactLayout l.lens := by
  obtain ⟨-, htable, -, rfl⟩ := forLinear_eq_ok.1 hplan
  rw [hlens.elements_eq] at htable
  have hstack : ∀ d ≤ axes.length,
      ExactLayout (stackLens (2 ^ d) (axes.map Axis.outLen)) := by
    intro d hd
    apply hlens.stackLens
    calc 2 ^ d * count (axes.map Axis.outLen)
        ≤ 2 ^ axes.length * count (axes.map Axis.outLen) :=
          Nat.mul_le_mul_right _ (Nat.pow_le_pow_right (by decide) hd)
      _ ≤ Word.maxEntries := htable
      _ < Word.modulus := by decide
  rw [program, List.mem_append, literal_mem_blendCalls] at hl
  rcases hl with hl | ⟨step, hstep, rfl⟩
  · obtain rfl : l = _ := by simpa [gatherCalls] using hl
    rw [lens_indexLiteral]
    exact hstack _ le_rfl
  · obtain ⟨d, hd, _, rfl⟩ := exists_of_mem_blendSteps hstep
    rw [← CornerTable.rank, CornerTable.rank_build] at hd
    exact hstack d hd.le

/-- The rows of every blend are bounded by those of the stack of all corners. -/
theorem exactRows_forLinear (hplan : forLinear data settings axes tag = .ok plan) :
    plan.ExactRows := by
  obtain ⟨-, -, hstack, rfl⟩ := forLinear_eq_ok.1 hplan
  intro step hstep
  obtain ⟨d, hd, _, rfl⟩ := exists_of_mem_blendSteps hstep
  rw [← CornerTable.rank, CornerTable.rank_build] at hd
  apply toInt_ofNat_rows
  calc 2 * ((axes.map Axis.outLen).headD 0 * 2 ^ d)
      = (axes.map Axis.outLen).headD 0 * 2 ^ (d + 1) := by rw [Nat.pow_succ]; ring
    _ ≤ (axes.map Axis.outLen).headD 0 * 2 ^ axes.length :=
        Nat.mul_le_mul_left _ (Nat.pow_le_pow_right (by decide) hd)
    _ ≤ Word.maxEntries := hstack

/-- A plan of known lengths is exact if both sides are laid out exactly, the source can be counted
in a signed word and there is room for every position. -/
theorem exact_iff_of_gathers (hgather : plan.gather? = some (total, indices))
    (hgathers : Gathers inLens settings axes total indices)
    (hconstants : ExactLayout (axes.map Axis.outLen) →
      ∀ l, .literal l ∈ plan.program.calls → ExactLayout l.lens)
    (hrows : plan.ExactRows) :
    plan.Exact inLens settings axes ↔
      ExactLayout inLens ∧ count inLens < 2 ^ 63 ∧ ExactLayout (axes.map Axis.outLen) ∧
        ∀ coords ∈ gatheredCoordinates settings axes,
          position inLens coords < indexLimit (count inLens) := by
  constructor
  · intro h
    exact ⟨h.source, (hgathers.gatherExact_iff h.source).1 (h.gather _ _ hgather)⟩
  · rintro ⟨hsource, hexact⟩
    refine ⟨hsource, hconstants hexact.2.1, hrows, ?_⟩
    intro total' indices' hgather'
    rw [hgather, Option.some.injEq, Prod.mk.injEq] at hgather'
    obtain ⟨rfl, rfl⟩ := hgather'
    exact (hgathers.gatherExact_iff hsource).2 hexact

section Axes

variable (hplan : settings.interpolation = .nearest ∧ plan = forNearest data settings axes ∨
  settings.interpolation = .linear ∧ forLinear data settings axes tag = .ok plan)
include hplan

theorem exactRows_of_axes : plan.ExactRows := by
  rcases hplan with ⟨-, rfl⟩ | ⟨-, hlinear⟩
  · simp [ExactRows, forNearest, steps]
  · exact exactRows_forLinear hlinear

variable (hout : count (axes.map Axis.outLen) < Word.modulus)
include hout

theorem exists_gathers : ∃ total indices, plan.gather? = some (total, indices) ∧
    Gathers (axes.map Axis.inLen) settings axes total indices := by
  rcases hplan with ⟨hmode, rfl⟩ | ⟨hmode, hlinear⟩
  · exact ⟨_, _, rfl, @gathers_forNearest _ data _ _ _ hmode hout rfl⟩
  · obtain ⟨-, -, -, rfl⟩ := forLinear_eq_ok.1 hlinear
    exact ⟨_, _, rfl, gathers_forLinear hmode hout hlinear rfl⟩

theorem exact_iff_of_axes :
    plan.gather?.isSome ∧ (plan.Exact (axes.map Axis.inLen) settings axes ↔
      ExactLayout (axes.map Axis.inLen) ∧ count (axes.map Axis.inLen) < 2 ^ 63 ∧
        ExactLayout (axes.map Axis.outLen) ∧ ∀ coords ∈ gatheredCoordinates settings axes,
          position (axes.map Axis.inLen) coords < indexLimit (count (axes.map Axis.inLen))) := by
  obtain ⟨total, indices, hgather, hgathers⟩ := exists_gathers hplan hout
  refine ⟨by rw [hgather]; rfl,
    exact_iff_of_gathers hgather hgathers ?_ (exactRows_of_axes hplan)⟩
  intro hlens l hl
  rcases hplan with ⟨-, rfl⟩ | ⟨-, hlinear⟩
  · obtain rfl : l = _ := by simpa [forNearest, program, gatherCalls] using hl
    rwa [lens_indexLiteral]
  · exact exactLayout_of_literal_mem_forLinear hlens hlinear hl

/-- A plan of known lengths is exact for a source that has samples along every axis and fits a
signed word, unless the output is empty. -/
theorem exact_of_hasSamples (haxes : ∀ a ∈ axes, a.HasSamples)
    (hin : count (axes.map Axis.inLen) < 2 ^ 63) (hzero : 0 ∉ axes.map Axis.outLen) :
    plan.Exact (axes.map Axis.inLen) settings axes := by
  have hsource : 0 ∉ axes.map Axis.inLen := by
    intro hmem
    obtain ⟨a, ha, hlen⟩ := List.mem_map.1 hmem
    exact absurd (haxes a ha).1 (by omega)
  refine (exact_iff_of_axes hplan hout).2.2 ⟨?_, hin, exactLayout_of_count_lt hzero hout, ?_⟩
  · exact exactLayout_of_count_lt hsource (hin.trans (by decide))
  · intro coords hcoords
    exact lt_indexLimit hin (position_lt (inRange_gatheredCoordinates haxes hout coords hcoords))

end Axes

end ResizePlan

/-- The axes of a resize, if its lengths and scales are known. -/
def Resolution.axes (inLens : List ℕ) : Resolution → List Axis
  | constant scales outLens _ => Axis.ofLists inLens outLens scales
  | deferred _ => []

/-- The integers of a plan are the exact ones exactly if the products of the trailing lengths fit a
word and, for a plan of known lengths, the source can be counted in a signed word and every position
has room in the element type that it is written in. This is so whenever no source length is zero or
too large for its samples, no output length is zero and the source can be counted in a signed word.
The bounds of slices are exact in any case. A shape is held in memory, so that its rank fits a
word. -/
theorem planResize_exact_iff {o : Operator} {args : List Argument} {lowering : LoweringSettings}
    {plan : ResizePlan} {settings : ResizeSettings} {a : Argument} {resolution : Resolution}
    (hplan : planResize o args lowering = .ok plan)
    (hsettings : ResizeSettings.resolve o = .ok settings)
    (hdata : args.head? = some a)
    (hresolution :
      Resolution.resolve o.attributes args (a.shape.lensOr 1) o.tag = .ok resolution)
    (hrank : a.shape.rank < Word.modulus) :
    let inLens := a.shape.lensOr 1
    let axes := resolution.axes inLens
    let outLens := axes.map Axis.outLen
    (plan.Exact inLens settings axes ↔
      (∀ trailing, trailing <:+ inLens → count trailing < 2 ^ 64) ∧
      (plan.gather?.isSome → count inLens < 2 ^ 63 ∧
        (∀ trailing, trailing <:+ outLens → count trailing < 2 ^ 64) ∧
        ∀ coords ∈ gatheredCoordinates settings axes,
          position inLens coords < indexLimit (count inLens))) ∧
    ((∀ len ∈ inLens, 0 < len ∧ len ≤ Binary.maxLength) → count inLens < 2 ^ 63 →
      0 ∉ outLens → plan.Exact inLens settings axes) ∧
    plan.ExactRows := by
  intro inLens axes outLens
  have hlimit : Word.modulus = 2 ^ 64 := by decide
  rw [← hlimit, ← exactLayout_iff, ← exactLayout_iff]
  obtain ⟨settings', a', resolution', hsettings', -, hdata', hresolution', rfl⟩ |
    ⟨settings', a', inLens', outLens', scales, hmade, h⟩ := ResizePlan.planResize_eq_ok hplan
  · obtain rfl : settings' = settings := by simpa [hsettings'] using hsettings
    obtain rfl : a' = a := by simpa [hdata'] using hdata
    obtain rfl : resolution' = resolution := by simpa [hresolution'] using hresolution
    have hlength : inLens.length < Word.modulus := by simpa [inLens] using hrank
    rw [ResizePlan.exact_forRuntime_iff hresolution hlength]
    have hnone : ¬(ResizePlan.forRuntime a'.id settings' resolution').gather?.isSome :=
      Bool.false_ne_true
    refine ⟨(and_iff_left fun h => absurd h hnone).symm, ?_,
      ResizePlan.exactRows_forRuntime _ _ _⟩
    intro hlens hcount _
    refine exactLayout_of_count_lt ?_ (hcount.trans (by decide))
    exact fun hzero => absurd (hlens 0 hzero).1 (lt_irrefl 0)
  · obtain rfl : settings' = settings := by simpa [hmade.settings_eq] using hsettings
    obtain rfl : a' = a := by simpa [hmade.data_eq] using hdata
    obtain ⟨origin, hresolution'⟩ := hmade.resolution_eq
    obtain ⟨-, rfl⟩ := (Shape.lens?_eq_some 1).1 hmade.lens_eq
    rw [hresolution', Except.ok.injEq] at hresolution
    subst hresolution
    have hout := hmade.count_lt
    have hmapIn : axes.map Axis.inLen = inLens := hmade.map_inLen
    have hmapOut : axes.map Axis.outLen = outLens' := Axis.map_outLen_ofLists ..
    rw [← hmapOut] at hout
    have hsamples (hlens : ∀ len ∈ inLens, 0 < len ∧ len ≤ Binary.maxLength) :
        ∀ a ∈ axes, a.HasSamples := Axis.hasSamples_of_mem_ofLists scales hmade.rank_eq hlens
    obtain ⟨hgather, hiff⟩ := @ResizePlan.exact_iff_of_axes a'.id settings' axes plan o.tag h hout
    rw [hmapIn] at hiff
    refine ⟨?_, ?_, ResizePlan.exactRows_of_axes h⟩
    · rw [hiff]
      exact and_congr_right fun _ => (imp_iff_right hgather).symm
    · intro hlens hcount hzero
      rw [← hmapIn] at hcount ⊢
      exact ResizePlan.exact_of_hasSamples h hout (hsamples hlens) hcount hzero

/-- Two samples enlarged to four by the scales attribute. -/
theorem planResize_exact_two_to_four :
    (ResizePlan.nearest 0 2 ⟨[4], .int32 [0, 0, 1, 1]⟩).Exact [2]
      ⟨.nearest, .halfPixel, .roundPreferFloor, false⟩ [⟨2, 4, .ofNat .binary64 2⟩] := by
  have hexact := @planResize_exact_iff
    ⟨"Resize", .ofList [("scales", .floats [.ofNat .binary32 2])]⟩
    [.ofShape 0 (.ofLens .float32 [2]) none] ⟨true⟩ (.nearest 0 2 ⟨[4], .int32 [0, 0, 1, 1]⟩)
    ⟨.nearest, .halfPixel, .roundPreferFloor, false⟩ (.ofShape 0 (.ofLens .float32 [2]) none)
    (.constant [.ofNat .binary64 2] [4] none) (by decide +kernel) (by decide +kernel) rfl
    (by decide +kernel) (by decide)
  exact hexact.2.1 (by decide) (by decide) (by decide)

/-- A source of `2 ^ 63` samples is planned, though it is flattened to a length below zero. -/
theorem planResize_not_exact_of_large_source :
    let plan : ResizePlan := .nearest 0 (2 ^ 63) ⟨[1], .int64 [2 ^ 62]⟩
    planResize ⟨"Resize", .empty⟩
        [.ofShape 0 (.ofLens .float32 [2 ^ 63]) none,
          .ofShape 1 (.ofLens .int64 [1]) (some ⟨[1], .int64 [1]⟩)] ⟨true⟩ = .ok plan ∧
      plan.program.calls.head? =
        some (.instruction (.reshape [-9223372036854775808]) [.node 0]) ∧
      ∀ settings axes, ¬plan.Exact [2 ^ 63] settings axes := by
  refine ⟨by decide +kernel, by decide, ?_⟩
  intro settings axes h
  have hflat : (Int64.ofNat (2 ^ 63)).toInt = count [2 ^ 63] := (h.gather _ _ rfl).flat_eq
  exact absurd hflat (by decide)

end TensorResize
