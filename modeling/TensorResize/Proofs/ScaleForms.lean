import TensorResize.Proofs.CornerBlocks
import TensorResize.Proofs.RuntimeInputs

/-!
# Scales as an attribute and as an argument

Scales are given to a node as its attribute or as a constant among its arguments. Whatever their
values are, both ways lead to the same scales in double precision and to the same output lengths. So
the node is refused with the same fault, or planned alike but for one thing: a resize that runs with
the graph reads the scales of the attribute from a constant of its own, and those of the argument
from the argument.

## Main definitions

* `Argument.ofScales` — a constant argument that holds scales.
* `AgreeButScales` — outcomes that differ in the second input of a resize at run time, if at all.
-/

namespace TensorResize

variable {m given : AttributeMap} {data : Argument} {args args' rest before after : List Argument}
  {inLens outLens : List ℕ} {values : List Binary32} {id : NodeId} {type tag : String}

/-- The argument for a constant node that holds scales. -/
def Argument.ofScales (id : NodeId) (values : List Binary32) : Argument :=
  .ofShape id (.ofLens .float32 [values.length]) (some ⟨[values.length], .float32 values⟩)

/-- Two outcomes are the same and leave nothing to the running graph, or both are a resize at run
time of the same data in the same modes. The first of these reads the scales from a constant of its
own, the second from node `id`. -/
inductive AgreeButScales (values : List Binary32) (id : NodeId) {ε : Type} :
    Except ε ResizePlan → Except ε ResizePlan → Prop where
  | same {outcome : Except ε ResizePlan}
      (hknown : ∀ data scales instruction, outcome ≠ .ok (.runtime data scales instruction)) :
      AgreeButScales values id outcome outcome
  | atRunTime (data : NodeId) (instruction : Instruction) :
      AgreeButScales values id
        (.ok (.runtime data (.constant ⟨[values.length], .float32 values⟩) instruction))
        (.ok (.runtime data (.existing id) instruction))

/-! ## The scales -/

/-- The settings of a node do not depend on its scales. -/
theorem ResizeSettings.resolve_insert_scales (type : String) (m : AttributeMap)
    (value : AttributeValue) : resolve ⟨type, m.insert "scales" value⟩ = resolve ⟨type, m⟩ := by
  rw [resolve, Operator.stringOr_insert_of_ne _ _ _ _ (by decide),
    Operator.intOr_insert_of_ne _ _ _ _ (by decide),
    Operator.stringOr_insert_of_ne _ _ _ _ (by decide),
    Operator.stringOr_insert_of_ne _ _ _ _ (by decide)]
  rfl

namespace Resolution

/-- Scales of the attribute are taken whatever the arguments are. -/
theorem resolve_insert_scales (hvalues : values ≠ []) :
    resolve (m.insert "scales" (.floats values)) (data :: rest) inLens tag =
      ofGivenScales inLens (values.map (Binary.convert .binary64)) none tag :=
  resolve_eq_iff_otherNodes.2 (.attributeScales (AttributeMap.get?_insert_self ..) hvalues)

/-- The same scales are taken from the first argument that is present. -/
theorem resolve_ofScales (hscales : m.LacksScales) (hvalues : values ≠ [])
    (hlength : values.length = inLens.length) (hid : id ≠ data.id)
    (hbefore : ∀ b ∈ before, ¬b.IsPresent) :
    resolve m (data :: (before ++ .ofScales id values :: after)) inLens tag =
      ofGivenScales inLens (values.map (Binary.convert .binary64)) (some id) tag := by
  have hdecides : Decides m (before ++ .ofScales id values :: after) (.ofScales id values) :=
    ⟨hscales, ⟨before, after, rfl, hbefore⟩, rfl, List.cons_ne_nil _ _⟩
  have hdata : ∀ a, Decides m (before ++ .ofScales id values :: after) a → a.id ≠ data.id := by
    intro a ha
    rw [ha.unique hdecides]
    exact hid
  have hvalue : (Argument.ofScales id values).HasValue ⟨[values.length], .float32 values⟩ :=
    ⟨rfl, List.length_pos_iff.2 hvalues |>.ne'⟩
  have hleading : (Argument.ofScales id values).shape.dims.head? = some (.known inLens.length) := by
    rw [← hlength]
    rfl
  exact (Resolves.scales hdecides rfl hleading hvalue).resolve_eq_of_ne hdata

end Resolution

/-! ## The plans -/

/-- Nodes with the same settings and data agree if their scales and lengths do. -/
theorem ResizePlan.planResize_agreeButScales (lowering : LoweringSettings)
    (hsettings : ResizeSettings.resolve ⟨type, given⟩ = ResizeSettings.resolve ⟨type, m⟩)
    (hdata : args.head? = some data) (hdata' : args'.head? = some data)
    (hgiven : Resolution.resolve given args (data.shape.lensOr 1) (uppercase type) =
      .ok (.constant (values.map (Binary.convert .binary64)) outLens none))
    (hargument : Resolution.resolve m args' (data.shape.lensOr 1) (uppercase type) =
      .ok (.constant (values.map (Binary.convert .binary64)) outLens (some id))) :
    AgreeButScales values id (planResize ⟨type, given⟩ args lowering)
      (planResize ⟨type, m⟩ args' lowering) := by
  cases hresolve : ResizeSettings.resolve ⟨type, m⟩ with
  | error e =>
    rw [hresolve] at hsettings
    simp only [planResize, hsettings, hresolve, bind, Except.bind]
    refine .same fun data scales instruction hruntime => ?_
    cases hruntime
  | ok settings =>
    rw [hresolve] at hsettings
    cases hdynamic : data.shape.isDynamic with
    | true =>
      rw [planResize_of_unknown hsettings hdata hgiven (.inl hdynamic),
        planResize_of_unknown hresolve hdata' hargument (.inl hdynamic)]
      cases settings.interpolation with
      | nearest =>
        rw [forRuntime_of_attribute, forRuntime_of_source? rfl]
        exact .atRunTime data.id _
      | linear =>
        refine .same fun data scales instruction hruntime => ?_
        cases hruntime
    | false =>
      have hlens := (Shape.lens?_eq_some 1).2 ⟨hdynamic, rfl⟩
      rw [planResize_of_constant hsettings hdata hlens hgiven,
        planResize_of_constant hresolve hdata' hlens hargument]
      cases settings.interpolation with
      | nearest =>
        cases lowering.preferGather with
        | false =>
          simp only [forRuntime_of_attribute]
          exact .atRunTime data.id _
        | true =>
          refine .same fun data scales instruction hruntime => ?_
          obtain ⟨-, -, hplan⟩ := bind_eq_ok.1 hruntime
          cases hplan
      | linear =>
        refine .same fun data scales instruction hruntime => ?_
        obtain ⟨-, -, hlinear⟩ := bind_eq_ok.1 hruntime
        obtain ⟨-, -, -, hplan⟩ := forLinear_eq_ok.1 hlinear
        cases hplan

/-- It does not matter whether the scales of a node, one for each dimension of its data, are given
by the attribute or by a constant that no present argument precedes. They are resolved to the same
scales and lengths over any source, and an operator of any type with any other attributes is lowered
alike under any settings: it is refused with the same error, planned alike, or left to the running
graph with the scales from another node. -/
theorem planResize_ofScales (hscales : m.LacksScales) (hlength : values.length = data.shape.rank)
    (hrank : data.shape.rank ≠ 0) (hid : id ≠ data.id) (hbefore : ∀ b ∈ before, ¬b.IsPresent) :
    let given := m.insert "scales" (.floats values)
    let args := data :: (before ++ .ofScales id values :: after)
    let scales := values.map (Binary.convert .binary64)
    (∀ (inLens : List ℕ) tag, inLens.length = data.shape.rank →
      let outLens := Resolution.truncatedLens inLens scales
      Resolution.resolve given (data :: rest) inLens tag = .ok (.constant scales outLens none) ∧
      Resolution.resolve m args inLens tag = .ok (.constant scales outLens (some id))) ∧
    ∀ type lowering, AgreeButScales values id
      (planResize ⟨type, given⟩ (data :: rest) lowering) (planResize ⟨type, m⟩ args lowering) := by
  intro given args scales
  have hvalues : values ≠ [] := by
    rintro rfl
    exact hrank hlength.symm
  have hresolve : ∀ (inLens : List ℕ) tag, inLens.length = data.shape.rank →
      let outLens := Resolution.truncatedLens inLens scales
      Resolution.resolve given (data :: rest) inLens tag = .ok (.constant scales outLens none) ∧
      Resolution.resolve m args inLens tag = .ok (.constant scales outLens (some id)) := by
    intro inLens tag hinLens
    have hlengths : scales.length = inLens.length := by
      rw [List.length_map, hlength, hinLens]
    rw [Resolution.resolve_insert_scales hvalues,
      Resolution.resolve_ofScales hscales hvalues (hlength.trans hinLens.symm) hid hbefore]
    simp only [Resolution.ofGivenScales]
    rw [if_pos hlengths, if_pos hlengths]
    exact ⟨rfl, rfl⟩
  refine ⟨hresolve, fun type lowering => ?_⟩
  obtain ⟨hgiven, hargument⟩ :=
    hresolve (data.shape.lensOr 1) (uppercase type) (Shape.length_lensOr 1 _)
  exact ResizePlan.planResize_agreeButScales lowering
    (ResizeSettings.resolve_insert_scales type m (.floats values)) rfl rfl hgiven hargument

/-- One half and a NaN as scales for two dimensions, of which one is not known. The argument stands
behind one that was left out. -/
theorem planResize_ofScales_of_nan :
    let data := Argument.ofShape 0 ⟨.float32, [.symbolic "n", .known 2]⟩ none
    let values : List Binary32 := [.half, .nan]
    let given := AttributeMap.empty.insert "scales" (.floats values)
    let args := [data, .placeholder 1, .ofScales 2 values]
    let instruction := Instruction.resize "round_prefer_floor" "half_pixel"
    Resolution.resolve .empty args [1, 2] "UPSAMPLE" =
        .ok (.constant [.half, .nan] [0, 0] (some 2)) ∧
      planResize ⟨"Upsample", given⟩ [data] .standard =
        .ok (.runtime 0 (.constant ⟨[2], .float32 values⟩) instruction) ∧
      planResize ⟨"Upsample", .empty⟩ args .standard =
        .ok (.runtime 0 (.existing 2) instruction) := by
  intro data values given args instruction
  have hleftOut : ∀ b ∈ [Argument.placeholder 1], ¬b.IsPresent := by
    intro b hb
    rw [List.mem_singleton.1 hb]
    exact fun hpresent => Bool.noConfusion hpresent.1
  obtain ⟨hresolve, hagree⟩ := @planResize_ofScales .empty data [] [.placeholder 1] [] values 2
    (.inl rfl) rfl (by decide) (by decide) hleftOut
  have hgiven : planResize ⟨"Upsample", given⟩ [data] .standard =
      .ok (.runtime 0 (.constant ⟨[2], .float32 values⟩) instruction) := by decide +kernel
  have hscales : values.map (Binary.convert .binary64) = [.half, .nan] := by decide +kernel
  have hlens : Resolution.truncatedLens [1, 2] [.half, .nan] = [0, 0] := by decide +kernel
  have hargument := (hresolve [1, 2] "UPSAMPLE" rfl).2
  rw [hscales, hlens] at hargument
  have hplans := hagree "Upsample" .standard
  rw [hgiven] at hplans
  refine ⟨hargument, hgiven, ?_⟩
  change AgreeButScales values 2 _ (planResize ⟨"Upsample", .empty⟩ args .standard) at hplans
  generalize planResize ⟨"Upsample", .empty⟩ args .standard = outcome at hplans ⊢
  cases hplans with
  | same hknown => exact absurd rfl (hknown 0 _ instruction)
  | atRunTime => rfl

end TensorResize
