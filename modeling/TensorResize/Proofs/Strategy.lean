import TensorResize.Proofs.OutputGuard
import TensorResize.Resize.Lowering

/-!
# Precomputed or at run time

The lowering settings choose between two ways to resize in nearest mode: to gather from positions
that are precomputed, or to resize when the graph runs. They have a say in this one case only. If
the node is refused before anything is computed from its lengths, if it is linear, or if a length or
a scale is not known yet, they do not matter. Otherwise the two ways never agree; the one that runs
with the graph always works, and the other one unless the output is too large.

## Main definitions

* `IsSettled` — the lowering settings have no say.
* `DifferInStrategy` — the same resize at run time and with precomputed positions.
-/

namespace TensorResize

variable {o : Operator} {args : List Argument}

/-- How a node with these arguments is lowered does not depend on the lowering settings. -/
inductive IsSettled (o : Operator) (args : List Argument) : Prop where
  | settingsRefused {e : LoweringError} (h : ResizeSettings.resolve o = .error e)
  | dataMissing (h : args = [])
  | scalesRefused {e : LoweringError} (h : dataResolution o args = .error e)
  | linear (h : o.attributes.IsLinear)
  | dynamicData (h : isDynamicData args = true)
  | scalesDeferred {id : NodeId} (h : dataResolution o args = .ok (.deferred id))

/-- What a resize at run time and one with precomputed positions have in common. Both are of the
data of the node, and the one at run time has the modes that its attributes name. It is a plan in
any case, the other one unless the output is too large. -/
def DifferInStrategy (o : Operator) (args : List Argument)
    (precomputed atRunTime : Except LoweringError ResizePlan) : Prop :=
  ∃ settings data scales, ResizeSettings.resolve o = .ok settings ∧
    args.head? = some data ∧
    atRunTime = .ok (.runtime data.id scales
      (.resize settings.nearestMode.name settings.transform.name)) ∧
    (precomputed = .error (.inOperator o.tag (.tooManyElements "output")) ∨
      ∃ total indices, precomputed = .ok (.nearest data.id total indices))

/-- Where the lowering settings have a say, everything is known that positions are computed from. -/
theorem exists_of_not_isSettled (h : ¬IsSettled o args) :
    ∃ settings data inLens scales outLens origin, ResizeSettings.resolve o = .ok settings ∧
      settings.interpolation = .nearest ∧ args.head? = some data ∧
      data.shape.lens? = some inLens ∧
      Resolution.resolve o.attributes args inLens o.tag =
        .ok (.constant scales outLens origin) := by
  cases hsettings : ResizeSettings.resolve o with
  | error e => exact absurd (.settingsRefused hsettings) h
  | ok settings =>
    cases args with
    | nil => exact absurd (.dataMissing rfl) h
    | cons data rest =>
      have hnearest : settings.interpolation = .nearest := by
        cases hmode : settings.interpolation with
        | nearest => rfl
        | linear => exact absurd (.linear ((isLinear_iff hsettings).2 hmode)) h
      have hstatic : data.shape.isDynamic = false := by
        cases hdynamic : data.shape.isDynamic with
        | false => rfl
        | true => exact absurd (.dynamicData hdynamic) h
      have hlens := (Shape.lens?_eq_some 1).2 ⟨hstatic, rfl⟩
      cases hresolution : dataResolution o (data :: rest) with
      | error e => exact absurd (.scalesRefused hresolution) h
      | ok resolution =>
        cases resolution with
        | deferred id => exact absurd (.scalesDeferred hresolution) h
        | constant scales outLens origin =>
          exact ⟨settings, data, _, scales, outLens, origin, rfl, hnearest, rfl, hlens, hresolution⟩

namespace ResizePlan

theorem planResize_eq_of_isSettled (h : IsSettled o args) (lowering lowering' : LoweringSettings) :
    planResize o args lowering = planResize o args lowering' := by
  cases hsettings : ResizeSettings.resolve o with
  | error e => simp only [planResize, hsettings, bind, Except.bind]
  | ok settings =>
    cases args with
    | nil => simp only [planResize, hsettings, bind, Except.bind, List.head?_nil, orError]
    | cons data rest =>
      cases hresolution :
          Resolution.resolve o.attributes (data :: rest) (data.shape.lensOr 1) o.tag with
      | error e =>
        simp only [planResize, hsettings, bind, Except.bind, List.head?_cons, orError, hresolution]
      | ok resolution =>
        by_cases hunknown : data.shape.isDynamic = true ∨ ∃ id, resolution = .deferred id
        · rw [planResize_of_unknown hsettings rfl hresolution hunknown,
            planResize_of_unknown hsettings rfl hresolution hunknown]
        · -- nothing is left for which the settings do not matter but linear mode
          have hlinear : settings.interpolation = .linear := by
            cases h with
            | settingsRefused h => cases hsettings.symm.trans h
            | dataMissing h => cases h
            | scalesRefused h => cases hresolution.symm.trans h
            | linear h => exact (isLinear_iff hsettings).1 h
            | dynamicData h => exact absurd (.inl h) hunknown
            | scalesDeferred h =>
              exact absurd (.inr ⟨_, Except.ok.inj (hresolution.symm.trans h)⟩) hunknown
          obtain ⟨hstatic, hconstant⟩ := not_or.1 hunknown
          rw [Bool.not_eq_true] at hstatic
          have hlens := (Shape.lens?_eq_some 1).2 ⟨hstatic, rfl⟩
          cases resolution with
          | deferred id => exact absurd ⟨id, rfl⟩ hconstant
          | constant scales outLens origin =>
            rw [planResize_of_constant hsettings rfl hlens hresolution,
              planResize_of_constant hsettings rfl hlens hresolution, hlinear]

end ResizePlan

theorem DifferInStrategy.ne {precomputed atRunTime : Except LoweringError ResizePlan}
    (h : DifferInStrategy o args precomputed atRunTime) : precomputed ≠ atRunTime := by
  obtain ⟨settings, data, scales, -, -, rfl, rfl | ⟨total, indices, rfl⟩⟩ := h
  · exact nofun
  · exact nofun

theorem differInStrategy_of_not_isSettled (h : ¬IsSettled o args) :
    DifferInStrategy o args (planResize o args ⟨true⟩) (planResize o args ⟨false⟩) := by
  obtain ⟨settings, data, inLens, scales, outLens, origin, hsettings, hmode, hdata, hlens,
    hresolution⟩ := exists_of_not_isSettled h
  have hrun : planResize o args ⟨false⟩ =
      .ok (.forRuntime data.id settings (.constant scales outLens origin)) := by
    rw [ResizePlan.planResize_of_constant hsettings hdata hlens hresolution, hmode]
  refine ⟨settings, data, _, hsettings, hdata, hrun, ?_⟩
  rw [ResizePlan.planResize_of_constant hsettings hdata hlens hresolution, hmode]
  cases hout : ResizePlan.checkOutput outLens o.tag with
  | error e =>
    obtain ⟨fault, rfl⟩ := (ResizePlan.checkOutput_sameButTag o.tag o.tag _).exists_fault hout
    obtain ⟨-, rfl⟩ := ResizePlan.checkOutput_eq_error.1 hout
    exact .inl rfl
  | ok _ => exact .inr ⟨_, _, rfl⟩

/-- The lowering settings choose a strategy and nothing else. A node is lowered alike under both
exactly if it is settled otherwise; if it is not, the same resize is made in two ways. To give up
precomputed positions refuses no node, and changes no linear one. -/
theorem planResize_preferGather (o : Operator) (args : List Argument) :
    let precomputed := planResize o args ⟨true⟩
    let atRunTime := planResize o args ⟨false⟩
    (precomputed = atRunTime ↔ IsSettled o args) ∧
    (¬IsSettled o args → DifferInStrategy o args precomputed atRunTime) ∧
    (∀ plan, precomputed = .ok plan → ∃ plan', atRunTime = .ok plan') ∧
    (o.attributes.IsLinear → lowerResize o args ⟨true⟩ = lowerResize o args ⟨false⟩) := by
  intro precomputed atRunTime
  have hsettled (h : IsSettled o args) : precomputed = atRunTime :=
    ResizePlan.planResize_eq_of_isSettled h _ _
  refine ⟨⟨?_, hsettled⟩, differInStrategy_of_not_isSettled, ?_, ?_⟩
  · intro heq
    by_contra h
    exact (differInStrategy_of_not_isSettled h).ne heq
  · intro plan hplan
    by_cases h : IsSettled o args
    · exact ⟨plan, (hsettled h).symm.trans hplan⟩
    · obtain ⟨settings, data, scales, -, -, hrun, -⟩ := differInStrategy_of_not_isSettled h
      exact ⟨_, hrun⟩
  · intro hlinear
    exact congrArg (Except.map ResizePlan.program) (hsettled (.linear hlinear))

end TensorResize
