import TensorResize.Proofs.Aliases
import TensorResize.Proofs.Steps

/-!
# Scales of another number than the dimensions

An argument with scales decides also if its leading dimension is not the rank of the data. It then
counts as one that holds no scales, and the check that there is a scale per dimension is left to
refuse the node. That check passes where there are no dimensions: data of rank zero can be resized
by scales of any number, which are not looked at.

## Main definitions

* `DecidesByMismatch` — the argument that decides holds scales for another rank.
-/

namespace TensorResize

variable {m : AttributeMap} {o : Operator} {data a : Argument} {rest : List Argument}
  {inLens : List ℕ} {rank : ℕ} {tag : String}

/-- The argument that decides holds scales, and its leading dimension is not `rank`. -/
structure DecidesByMismatch (m : AttributeMap) (data : Argument) (rest : List Argument) (rank : ℕ)
    (a : Argument) : Prop where
  decides : Decides m (otherNodes data rest) a
  holdsScales : a.shape.elementType.isInteger = false
  leading_ne : a.shape.dims.head? ≠ some (.known rank)

/-- Such an argument counts as one without scales. -/
theorem DecidesByMismatch.resolve_eq (h : DecidesByMismatch m data rest rank a)
    (hrank : inLens.length = rank) :
    Resolution.resolve m (data :: rest) inLens tag =
      if rank = 0 then .ok (.constant [] [] (some a.id))
      else .error (.inOperator tag (.rankMismatch rank 0)) := by
  subst hrank
  have hresolve : Resolution.resolve m (data :: rest) inLens tag =
      Resolution.ofGivenScales inLens [] (some a.id) tag :=
    Resolution.resolve_eq_iff_otherNodes.2
      (.scalesMismatch h.decides h.holdsScales h.leading_ne)
  rw [hresolve, Resolution.ofGivenScales, List.length_nil]
  simp only [eq_comm, Resolution.truncatedLens, List.zipWith_nil_right]

/-- Data without dimensions is resized to itself, in whichever way it is lowered. -/
theorem ResizePlan.exists_planResize_of_scalar {settings : ResizeSettings}
    {origin : Option NodeId} (lowering : LoweringSettings) (hrank : data.shape.rank = 0)
    (hsettings : ResizeSettings.resolve o = .ok settings)
    (hresolution : Resolution.resolve o.attributes (data :: rest) [] o.tag =
      .ok (.constant [] [] origin)) :
    ∃ plan, planResize o (data :: rest) lowering = .ok plan := by
  have hdims : data.shape.dims = [] := List.length_eq_zero_iff.1 hrank
  have hlens : data.shape.lens? = some [] := by
    rw [Shape.lens?, hdims]
    rfl
  rw [planResize_of_constant hsettings rfl hlens hresolution]
  cases settings.interpolation with
  | nearest =>
    cases lowering.preferGather with
    | false => exact ⟨_, rfl⟩
    | true => exact ⟨_, rfl⟩
  | linear =>
    have hlinear :=
      (@forLinear_eq_ok o.tag data.id settings [] _).2 ⟨by decide, by decide, by decide, rfl⟩
    exact ⟨_, hlinear⟩

/-- A planned node has valid settings, and a resolution over the lengths of its data. -/
theorem ResizePlan.resolved_of_planResize {lowering : LoweringSettings} {plan : ResizePlan}
    (h : planResize o (data :: rest) lowering = .ok plan) :
    (∃ settings, ResizeSettings.resolve o = .ok settings) ∧
      ∃ resolution, Resolution.resolve o.attributes (data :: rest) (data.shape.lensOr 1) o.tag =
        .ok resolution := by
  simp only [planResize, bind_eq_ok, orError_eq_ok, List.head?_cons, Option.some.injEq] at h
  obtain ⟨settings, hsettings, _, rfl, resolution, hresolution, -⟩ := h
  exact ⟨⟨settings, hsettings⟩, resolution, hresolution⟩

/-- A node with such an argument is planned if there are no dimensions that scales could be missing
for. -/
theorem DecidesByMismatch.exists_planResize_iff
    (h : DecidesByMismatch o.attributes data rest data.shape.rank a) (lowering : LoweringSettings) :
    (∃ plan, planResize o (data :: rest) lowering = .ok plan) ↔
      data.shape.rank = 0 ∧ ∃ settings, ResizeSettings.resolve o = .ok settings := by
  constructor
  · rintro ⟨plan, hplan⟩
    obtain ⟨hsettings, resolution, hresolution⟩ := ResizePlan.resolved_of_planResize hplan
    rw [h.resolve_eq (Shape.length_lensOr 1 _)] at hresolution
    split at hresolution
    · next hrank => exact ⟨hrank, hsettings⟩
    · cases hresolution
  · rintro ⟨hrank, settings, hsettings⟩
    have hscalar : Resolution.resolve o.attributes (data :: rest) [] o.tag = _ :=
      h.resolve_eq hrank.symm
    rw [if_pos hrank] at hscalar
    exact ResizePlan.exists_planResize_of_scalar lowering hrank hsettings hscalar

/-- Scales for another rank than that of the data are refused if the data has dimensions, and with
them the node: nothing is added to a graph. If the data has none they are accepted instead, and the
node is planned. -/
theorem planResize_mismatch_iff (h : DecidesByMismatch o.attributes data rest data.shape.rank a) :
    (∀ (inLens : List ℕ) tag, inLens.length = data.shape.rank →
      Resolution.resolve o.attributes (data :: rest) inLens tag =
        if data.shape.rank = 0 then .ok (.constant [] [] (some a.id))
        else .error (.inOperator tag (.rankMismatch data.shape.rank 0))) ∧
    (∀ lowering, (∃ plan, planResize o (data :: rest) lowering = .ok plan) ↔
      data.shape.rank = 0 ∧ ∃ settings, ResizeSettings.resolve o = .ok settings) ∧
    (data.shape.rank ≠ 0 → ∀ lowering g ids, g.arguments ids = .ok (data :: rest) →
      ∃ e, (Step.lowerResize o ids lowering).apply g = (g, .refused e)) := by
  refine ⟨fun _ _ => h.resolve_eq, h.exists_planResize_iff, ?_⟩
  intro hrank lowering g ids hargs
  cases hplan : planResize o (data :: rest) lowering with
  | ok plan => exact absurd ((h.exists_planResize_iff lowering).1 ⟨plan, hplan⟩).1 hrank
  | error e =>
    have hlower : lowerResize o (data :: rest) lowering = .error e := by
      rw [lowerResize, hplan]
      rfl
    exact ⟨e, Graph.lowerStepwise_of_error hargs hlower⟩

/-- Three scales, of which the values are known when the graph runs, for data with one dimension. -/
theorem planResize_mismatch_three_scales :
    let data := Argument.ofShape 0 (.ofLens .float32 [2]) none
    let scales := Argument.ofShape 1 (.ofLens .float32 [3]) none
    DecidesByMismatch .empty data [scales] data.shape.rank scales ∧
      Resolution.resolve .empty [data, scales] [2] "RESIZE" =
        .error (.inOperator "RESIZE" (.rankMismatch 1 0)) ∧
      ¬∃ plan, planResize ⟨"Resize", .empty⟩ [data, scales] .standard = .ok plan := by
  intro data scales
  have hpresent : scales.IsPresent := ⟨rfl, List.cons_ne_nil _ _⟩
  have h : DecidesByMismatch .empty data [scales] data.shape.rank scales :=
    ⟨⟨.inl rfl, ⟨[], [], rfl, nofun⟩, hpresent⟩, rfl, by decide⟩
  obtain ⟨hresolve, hplanned, -⟩ := @planResize_mismatch_iff ⟨"Resize", .empty⟩ data scales _ h
  exact ⟨h, hresolve [2] "RESIZE" rfl, fun hplan => absurd ((hplanned _).1 hplan).1 (by decide)⟩

/-- The same scales are accepted for data without dimensions, which is then gathered from itself. -/
theorem planResize_accepts_mismatch_of_scalar :
    let data := Argument.ofShape 0 (.scalar .float32) none
    let scales := Argument.ofShape 1 (.ofLens .float32 [3]) none
    DecidesByMismatch .empty data [scales] 0 scales ∧
      Resolution.resolve .empty [data, scales] [] "RESIZE" = .ok (.constant [] [] (some 1)) ∧
      planResize ⟨"Resize", .empty⟩ [data, scales] .standard =
        .ok (.nearest 0 1 ⟨[], .int32 [0]⟩) := by
  intro data scales
  have hpresent : scales.IsPresent := ⟨rfl, List.cons_ne_nil _ _⟩
  exact ⟨⟨⟨.inl rfl, ⟨[], [], rfl, nofun⟩, hpresent⟩, rfl, by decide⟩, rfl, rfl⟩

end TensorResize
