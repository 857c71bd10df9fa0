import TensorResize.Proofs.Refusal
import TensorResize.Proofs.RuntimeInputs
import TensorResize.Proofs.ScaleCount

/-!
# Regions of interest

Behind the data a node may have a region of interest, scales and output lengths, in this order. No
coordinate transformation reads a region, but the scan for the argument that decides does not go by
this order: a region that is present is the first argument it finds, and it is read as scales. As a
list it holds two values for each dimension of the data or none at all, so that it is never a scale
per dimension, and data with dimensions is refused whatever scales and lengths follow. A region that
was left out does not matter, nor does one that is the data node again.

## Main definitions

* `Argument.IsRegion` — an argument that can stand for a region of interest.
* `IgnoresRegion` — the node is planned as without its region.
* `RegionDecides` — what becomes of a node whose region decides.

## Main results

* `ResizePlan.planResize_eq_rankMismatch_iff` — the number of scales is checked by the resolution
  only.
* `planResize_region` — which regions matter, and what they lead to.
-/

namespace TensorResize

open RowMajor

variable {m : AttributeMap} {o : Operator} {data region b : Argument} {rest later : List Argument}
  {settings : ResizeSettings} {lowering : LoweringSettings}

/-- An argument that can stand for a region of interest of data of this rank. It was left out, or it
is a tensor with two elements for each dimension of the data, or an empty list; its value may be
known or not. -/
structure Argument.IsRegion (a : Argument) (rank : ℕ) : Prop where
  isInteger_eq : a.shape.elementType.isInteger = false
  given : a.undefined = true ∨ ∃ lens : List ℕ, a.shape.dims = lens.map .known ∧
    (lens = [0] ∨ count lens = 2 * rank) ∧ ∀ v, a.value = some v → v.buffer.length = count lens

/-- A region that was not left out has lengths, and as many elements as they say. -/
theorem Argument.IsRegion.exists_lens {rank : ℕ} (h : region.IsRegion rank)
    (hgiven : region.undefined = false) :
    ∃ lens : List ℕ, region.shape.dims = lens.map .known ∧
      (lens = [0] ∨ count lens = 2 * rank) ∧
      ∀ v, region.value = some v → v.buffer.length = count lens := by
  refine h.given.resolve_left fun hundefined => ?_
  rw [hgiven] at hundefined
  cases hundefined

/-- Such a region is present: a tensor without dimensions has an odd number of elements. -/
theorem Argument.IsRegion.isPresent {rank : ℕ} (h : region.IsRegion rank)
    (hgiven : region.undefined = false) : region.IsPresent := by
  obtain ⟨lens, hlens, hcount, -⟩ := h.exists_lens hgiven
  refine ⟨hgiven, fun hdims => ?_⟩
  obtain rfl : lens = [] := List.map_eq_nil_iff.1 (hlens.symm.trans hdims)
  rcases hcount with hempty | hcount
  · cases hempty
  · rw [count_nil] at hcount
    omega

/-- A region with one dimension is as long as it may be, and so is its value. -/
theorem Argument.IsRegion.length_eq {rank n : ℕ} (h : region.IsRegion rank)
    (hgiven : region.undefined = false) (hdims : region.shape.dims = [.known n]) :
    (n = 0 ∨ n = 2 * rank) ∧ ∀ v, region.value = some v → v.buffer.length = n := by
  obtain ⟨lens, hlens, hcount, hvalue⟩ := h.exists_lens hgiven
  obtain rfl : lens = [n] := by
    rw [hdims] at hlens
    cases lens with
    | nil => cases hlens
    | cons len lens => simpa using hlens.symm
  simpa using And.intro hcount hvalue

/-! ## The scan -/

/-- The scan passes over an argument that is not present, and over the data. -/
theorem decidingArgument?_cons_of_passed (h : b.id = data.id ∨ ¬b.IsPresent) :
    decidingArgument? (data :: b :: rest) = decidingArgument? (data :: rest) := by
  rw [decidingArgument?_eq_find?, decidingArgument?_eq_find?, List.find?_cons_of_neg]
  rw [Argument.isEligible_eq_true_iff]
  exact fun heligible => h.elim heligible.1 (absurd heligible.2)

theorem not_isPresent_of_undefined (h : b.undefined = true) : ¬b.IsPresent := by
  intro hpresent
  rw [hpresent.1] at h
  cases h

/-- A region that is present decides. -/
theorem Argument.IsRegion.decides {rank : ℕ} (h : region.IsRegion rank) (hscales : m.LacksScales)
    (hgiven : region.undefined = false) (hid : region.id ≠ data.id) :
    Decides m (otherNodes data (region :: rest)) region := by
  refine ⟨hscales, ⟨[], otherNodes data rest, ?_, nofun⟩, h.isPresent hgiven⟩
  exact List.filter_cons_of_pos (by simpa using hid)

/-! ## The number of scales -/

/-- The checks of the output are not about scales. -/
theorem rankMismatch_not_mem_precomputedChecks {linear : Prop} [Decidable linear] {outLens : List ℕ}
    {input scale : ℕ} : some (.rankMismatch input scale) ∉ precomputedChecks linear outLens := by
  intro h
  rw [precomputedChecks, List.mem_append] at h
  rcases h with h | h
  · simp [outputChecks, some_eq_failIf_iff] at h
  · split at h
    · simp [cornerChecks, some_eq_failIf_iff] at h
    · cases h

namespace ResizePlan

/-- Planning looks at the arguments behind the data through the one that decides only. -/
theorem planResize_congr
    (h : decidingArgument? (data :: rest) = decidingArgument? (data :: later)) :
    planResize o (data :: rest) lowering = planResize o (data :: later) lowering := by
  simp only [planResize, List.head?_cons, Resolution.resolve_congr h]

theorem planResize_of_refused_settings {args : List Argument} {e : LoweringError}
    (h : ResizeSettings.resolve o = .error e) : planResize o args lowering = .error e := by
  rw [planResize, h]
  rfl

/-- The number of scales is checked when they are resolved, and not again. -/
theorem planResize_eq_rankMismatch_iff (hsettings : ResizeSettings.resolve o = .ok settings)
    {input scale : ℕ} :
    planResize o (data :: rest) lowering =
        .error (.inOperator o.tag (.rankMismatch input scale)) ↔
      Resolution.resolve o.attributes (data :: rest) (data.shape.lensOr 1) o.tag =
        .error (.inOperator o.tag (.rankMismatch input scale)) := by
  constructor
  · intro h
    have hmem := (reports_planResize o (data :: rest) lowering).mem_of_eq_error h
    simp only [planChecks, settingsChecks, List.mem_append, List.mem_cons, List.not_mem_nil,
      some_eq_failIf_iff, some_eq_faultOf_iff (dataResolution_sameButTag o _), reduceCtorEq,
      and_false, or_false, false_or] at hmem
    rcases hmem with hrefused | hlater
    · exact hrefused
    · split at hlater
      · exact absurd hlater rankMismatch_not_mem_precomputedChecks
      · cases hlater
  · intro h
    simp only [planResize, hsettings, List.head?_cons, orError, bind, Except.bind, h]

end ResizePlan

/-- The node is refused for having no scales at all exactly if the argument that decides holds
scales for another rank. -/
theorem Resolution.resolve_eq_rankMismatch_zero_iff {tag : String} (hscales : m.LacksScales)
    (hrank : data.shape.rank ≠ 0) :
    resolve m (data :: rest) (data.shape.lensOr 1) tag =
        .error (.inOperator tag (.rankMismatch data.shape.rank 0)) ↔
      ∃ a, DecidesByMismatch m data rest data.shape.rank a := by
  have hlength : (data.shape.lensOr 1).length = data.shape.rank := Shape.length_lensOr 1 _
  constructor
  · intro h
    have hrule := resolve_eq_iff_otherNodes.1 h
    generalize houtcome : (Except.error _ : Except LoweringError Resolution) = outcome at hrule
    cases hrule with
    | attributeNotFloats | missing | lensDeferred | lensMismatch | lens | scalesDeferred =>
      cases houtcome
    | attributeScales hvalue hvalues =>
      rcases hscales with hnone | hempty
      · cases hnone.symm.trans hvalue
      · cases hempty.symm.trans hvalue
        exact absurd rfl hvalues
    | @scalesMismatch a ha htype hleading => exact ⟨a, ha, htype, hlength ▸ hleading⟩
    | @scales a v ha htype hleading hvalue =>
      rw [ofGivenScales] at houtcome
      split at houtcome
      · cases houtcome
      · simp only [Except.error.injEq, LoweringError.inOperator.injEq, Fault.rankMismatch.injEq,
          true_and] at houtcome
        exact absurd ((Buffer.length_toDoubles _).symm.trans houtcome.2.symm) hvalue.2
  · rintro ⟨a, ha⟩
    rw [ha.resolve_eq hlength, if_neg hrank]

/-! ## Regions -/

/-- The node is planned as with a placeholder where the region is. -/
def IgnoresRegion (o : Operator) (data region : Argument) (rest : List Argument)
    (lowering : LoweringSettings) : Prop :=
  ∀ id, planResize o (data :: region :: rest) lowering =
    planResize o (data :: .placeholder id :: rest) lowering

theorem planResize_cons_of_passed (h : b.id = data.id ∨ ¬b.IsPresent) :
    planResize o (data :: b :: rest) lowering = planResize o (data :: rest) lowering :=
  ResizePlan.planResize_congr (decidingArgument?_cons_of_passed h)

/-- A placeholder may as well not be there. -/
theorem ignoresRegion_iff :
    IgnoresRegion o data region rest lowering ↔
      planResize o (data :: region :: rest) lowering = planResize o (data :: rest) lowering := by
  have hplaceholder (id : NodeId) : planResize o (data :: .placeholder id :: rest) lowering =
      planResize o (data :: rest) lowering :=
    planResize_cons_of_passed (.inr (not_isPresent_of_undefined rfl))
  simp only [IgnoresRegion, hplaceholder, forall_const]

theorem ignoresRegion_of_refused_settings {e : LoweringError}
    (h : ResizeSettings.resolve o = .error e) : IgnoresRegion o data region rest lowering := by
  rw [ignoresRegion_iff, ResizePlan.planResize_of_refused_settings h,
    ResizePlan.planResize_of_refused_settings h]

/-- What becomes of a node with a region that is present. -/
structure RegionDecides (o : Operator) (data region : Argument) (rest : List Argument)
    (lowering : LoweringSettings) (settings : ResizeSettings) : Prop where
  /-- The arguments behind the region do not matter. -/
  later_eq (later : List Argument) : planResize o (data :: region :: later) lowering =
    planResize o (data :: region :: rest) lowering
  /-- A region with one dimension is refused as scales, if there are dimensions to be scaled. -/
  refused {n : ℕ} (hdims : region.shape.dims = [.known n]) (hrank : data.shape.rank ≠ 0) :
    planResize o (data :: region :: rest) lowering =
      .error (.inOperator o.tag (.rankMismatch data.shape.rank 0))
  /-- The same refusal comes without the region only from scales for another rank. -/
  ignored_iff {n : ℕ} (hdims : region.shape.dims = [.known n]) (hrank : data.shape.rank ≠ 0) :
    IgnoresRegion o data region rest lowering ↔
      ∃ a, DecidesByMismatch o.attributes data rest data.shape.rank a
  /-- Data without dimensions has an empty region, which is taken for scales that are not known. -/
  runtime {n : ℕ} (hdims : region.shape.dims = [.known n]) (hrank : data.shape.rank = 0) :
    planResize o (data :: region :: rest) lowering =
      match settings.interpolation with
      | .nearest => .ok (.runtime data.id (.existing region.id)
          (ResizePlan.runtimeInstruction settings))
      | .linear => .error (.inOperator o.tag .dynamicLinear)

/-- Where there are dimensions, planning is refused for having no scales exactly if the argument
that decides holds scales for another rank. -/
theorem planResize_eq_rankMismatch_zero_iff (hscales : o.attributes.LacksScales)
    (hsettings : ResizeSettings.resolve o = .ok settings)
    (hrank : data.shape.rank ≠ 0) :
    planResize o (data :: rest) lowering =
        .error (.inOperator o.tag (.rankMismatch data.shape.rank 0)) ↔
      ∃ a, DecidesByMismatch o.attributes data rest data.shape.rank a := by
  rw [ResizePlan.planResize_eq_rankMismatch_iff hsettings,
    Resolution.resolve_eq_rankMismatch_zero_iff hscales hrank]

section Decides

variable (hscales : o.attributes.LacksScales) (hregion : region.IsRegion data.shape.rank)
  (hgiven : region.undefined = false) (hid : region.id ≠ data.id)
include hscales hregion hgiven hid

/-- A region with one dimension holds scales for another rank, if there are dimensions. -/
theorem Argument.IsRegion.decidesByMismatch {n : ℕ} (hdims : region.shape.dims = [.known n])
    (hrank : data.shape.rank ≠ 0) :
    DecidesByMismatch o.attributes data (region :: rest) data.shape.rank region := by
  refine ⟨hregion.decides hscales hgiven hid, hregion.isInteger_eq, ?_⟩
  obtain ⟨hlength, -⟩ := hregion.length_eq hgiven hdims
  rw [hdims, List.head?_cons, ne_eq, Option.some.injEq, Dimension.known.injEq]
  omega

/-- An empty region of data without dimensions is taken for scales that are not known yet. -/
theorem Argument.IsRegion.resolve_eq_deferred {n : ℕ} (hdims : region.shape.dims = [.known n])
    (hrank : data.shape.rank = 0) :
    Resolution.resolve o.attributes (data :: region :: rest) (data.shape.lensOr 1) o.tag =
      .ok (.deferred region.id) := by
  obtain ⟨hlength, hvalue⟩ := hregion.length_eq hgiven hdims
  obtain rfl : n = 0 := by omega
  rw [Resolution.resolve_eq_iff_otherNodes]
  refine .scalesDeferred (hregion.decides hscales hgiven hid) hregion.isInteger_eq ?_ ?_
  · rw [hdims, Shape.length_lensOr, hrank, List.head?_cons]
  · rintro v ⟨hv, hnonempty⟩
    exact hnonempty (hvalue v hv)

theorem Argument.IsRegion.planResize_eq_rankMismatch {n : ℕ}
    (hdims : region.shape.dims = [.known n]) (hrank : data.shape.rank ≠ 0)
    (hsettings : ResizeSettings.resolve o = .ok settings) :
    planResize o (data :: region :: rest) lowering =
      .error (.inOperator o.tag (.rankMismatch data.shape.rank 0)) :=
  (planResize_eq_rankMismatch_zero_iff hscales hsettings hrank).2
    ⟨region, hregion.decidesByMismatch hscales hgiven hid hdims hrank⟩

theorem Argument.IsRegion.regionDecides
    (hsettings : ResizeSettings.resolve o = .ok settings) :
    RegionDecides o data region rest lowering settings where
  later_eq later := by
    have hscan : decidingArgument? (data :: ([] ++ region :: later)) =
        decidingArgument? (data :: ([] ++ region :: rest)) :=
      decidingArgument?_append_later (hregion.isPresent hgiven) hid
    exact ResizePlan.planResize_congr hscan
  refused hdims hrank :=
    hregion.planResize_eq_rankMismatch hscales hgiven hid hdims hrank hsettings
  ignored_iff hdims hrank := by
    rw [ignoresRegion_iff,
      hregion.planResize_eq_rankMismatch hscales hgiven hid hdims hrank hsettings, eq_comm,
      planResize_eq_rankMismatch_zero_iff hscales hsettings hrank]
  runtime hdims hrank := by
    have hresolution :=
      @hregion.resolve_eq_deferred o data region rest hscales hgiven hid _ hdims hrank
    rw [ResizePlan.planResize_of_unknown hsettings rfl hresolution (.inr ⟨_, rfl⟩)]
    cases settings.interpolation with
    | nearest => rfl
    | linear => rfl

end Decides

/-- A region of interest does not matter if it was left out, if it is the data node again, or if the
settings of the node are refused. Otherwise it decides. -/
theorem planResize_region (hscales : o.attributes.LacksScales)
    (hregion : region.IsRegion data.shape.rank) (rest : List Argument)
    (lowering : LoweringSettings) :
    (region.undefined = true ∨ region.id = data.id ∨
        (∃ e, ResizeSettings.resolve o = .error e) →
      IgnoresRegion o data region rest lowering) ∧
    (region.undefined = false → region.id ≠ data.id → ∀ settings,
      ResizeSettings.resolve o = .ok settings →
        RegionDecides o data region rest lowering settings) := by
  constructor
  · rintro (hundefined | hid | ⟨e, he⟩)
    · exact ignoresRegion_iff.2
        (planResize_cons_of_passed (.inr (not_isPresent_of_undefined hundefined)))
    · exact ignoresRegion_iff.2 (planResize_cons_of_passed (.inl hid))
    · exact ignoresRegion_of_refused_settings he
  · intro hgiven hid settings hsettings
    exact hregion.regionDecides hscales hgiven hid hsettings

/-- A region of two values, known when the graph runs, for data with one dimension. Lengths behind
it are not looked at. -/
theorem planResize_region_two_values :
    let data := Argument.ofShape 0 (.ofLens .float32 [2]) none
    let region := Argument.ofShape 1 (.ofLens .float32 [2]) none
    let lens := Argument.ofShape 2 (.ofLens .int64 [1]) (some ⟨[1], .int64 [3]⟩)
    region.IsRegion data.shape.rank ∧
      RegionDecides ⟨"Resize", .empty⟩ data region [lens] .standard
        ⟨.nearest, .halfPixel, .roundPreferFloor, false⟩ ∧
      planResize ⟨"Resize", .empty⟩ [data, region, lens] .standard =
        .error (.inOperator "RESIZE" (.rankMismatch 1 0)) := by
  intro data region lens
  have hregion : region.IsRegion data.shape.rank := ⟨rfl, .inr ⟨[2], rfl, .inr rfl, nofun⟩⟩
  have h : RegionDecides ⟨"Resize", .empty⟩ data region [lens] .standard _ :=
    (planResize_region (.inl rfl) hregion [lens] .standard).2 rfl (by decide) _ rfl
  exact ⟨hregion, h, h.refused rfl (by decide)⟩

/-- With an empty region in front of them scales of two are refused, with a placeholder they double
the samples. -/
theorem planResize_region_not_ignored :
    let data := Argument.ofShape 0 (.ofLens .float32 [2]) none
    let region := Argument.ofShape 1 (.ofLens .float32 [0]) (some ⟨[0], .float32 []⟩)
    let scales := Argument.ofShape 2 (.ofLens .float32 [1])
      (some ⟨[1], .float32 [.ofNat .binary32 2]⟩)
    AttributeMap.empty.LacksScales ∧ region.IsRegion data.shape.rank ∧
      planResize ⟨"Resize", .empty⟩ [data, region, scales] .standard =
        .error (.inOperator "RESIZE" (.rankMismatch 1 0)) ∧
      planResize ⟨"Resize", .empty⟩ [data, .placeholder 1, scales] .standard =
        .ok (.nearest 0 2 ⟨[4], .int32 [0, 0, 1, 1]⟩) ∧
      ¬IgnoresRegion ⟨"Resize", .empty⟩ data region [scales] .standard := by
  intro data region scales
  have hregion : region.IsRegion data.shape.rank := by
    refine ⟨rfl, .inr ⟨[0], rfl, .inl rfl, ?_⟩⟩
    rintro _ ⟨⟩
    rfl
  have hrefused : planResize ⟨"Resize", .empty⟩ [data, region, scales] .standard =
      .error (.inOperator "RESIZE" (.rankMismatch 1 0)) := by decide +kernel
  have hplanned : planResize ⟨"Resize", .empty⟩ [data, .placeholder 1, scales] .standard =
      .ok (.nearest 0 2 ⟨[4], .int32 [0, 0, 1, 1]⟩) := by decide +kernel
  refine ⟨.inl rfl, hregion, hrefused, hplanned, fun h => ?_⟩
  cases hrefused.symm.trans ((h 1).trans hplanned)

end TensorResize
