import TensorResize.Proofs.Aliases
import TensorResize.Proofs.Widening

/-!
# The inputs of a resize at run time

A resize that runs with the graph reads its data and a second tensor. This one is where the scales
or lengths of the node come from, whatever led to a resize at run time: the values of the attribute
as they are, though they went through double precision, or the node of the argument that decides. It
is never the data again.

## Main definitions

* `RuntimeInput` — the second input.
* `ResizePlan.runtimeInstruction` — the instruction, with the modes of the node.
-/

namespace TensorResize

variable {m : AttributeMap} {o : Operator} {data : Argument} {rest args : List Argument}
  {inLens : List ℕ} {r : Resolution} {id : NodeId} {scales : RuntimeScales}
  {settings : ResizeSettings} {tag : String}

/-- The second input of a resize at run time: the scales of the attribute if it has any, one for
each dimension of the data, and otherwise the argument that decides. -/
inductive RuntimeInput (m : AttributeMap) (data : Argument) (rest : List Argument) :
    RuntimeScales → Prop where
  | ofAttribute {values : List Binary32} (hvalue : m.get? "scales" = some (.floats values))
      (hvalues : values ≠ []) :
      RuntimeInput m data rest (.constant ⟨[data.shape.rank], .float32 values⟩)
  | ofArgument {a : Argument} (ha : Decides m (otherNodes data rest) a) :
      RuntimeInput m data rest (.existing a.id)

theorem RuntimeInput.ne_data (h : RuntimeInput m data rest scales) :
    scales ≠ .existing data.id := by
  cases h with
  | ofAttribute hvalue hvalues => exact nofun
  | ofArgument ha => exact fun hid => ha.ne_data (RuntimeScales.existing.inj hid)

namespace ResizePlan

/-- The instruction of a resize at run time, with the modes that the settings name. -/
def runtimeInstruction (settings : ResizeSettings) : Instruction :=
  .resize settings.nearestMode.name settings.transform.name

theorem forRuntime_of_source? (h : r.source? = some id) :
    forRuntime data.id settings r =
      .runtime data.id (.existing id) (runtimeInstruction settings) := by
  cases r with
  | deferred argument =>
    cases h
    rfl
  | constant scales outLens source =>
    cases h
    rfl

/-- Scales of the attribute are written as they were given. -/
theorem forRuntime_of_attribute {values : List Binary32} {outLens : List ℕ} :
    forRuntime data.id settings
        (.constant (values.map (Binary.convert .binary64)) outLens none) =
      .runtime data.id (.constant ⟨[values.length], .float32 values⟩)
        (runtimeInstruction settings) := by
  have hvalues :
      (values.map (Binary.convert .binary64)).map (Binary.convert .binary32) = values := by
    rw [List.map_map]
    refine (List.map_congr_left ?_).trans values.map_id
    exact fun x _ => Binary.convert_convert Format.widens_binary64 x
  rw [forRuntime, hvalues, List.length_map]
  rfl

/-- What is resolved gives a resize at run time its second input. -/
theorem exists_runtimeInput (settings : ResizeSettings) (hrank : inLens.length = data.shape.rank)
    (h : Resolution.resolve m (data :: rest) inLens tag = .ok r) :
    ∃ scales, RuntimeInput m data rest scales ∧
      forRuntime data.id settings r = .runtime data.id scales (runtimeInstruction settings) := by
  rcases m.scales_cases with ⟨value, hvalue, hkind⟩ | ⟨values, hvalue, hvalues⟩ | hscales
  · have hrefused : Resolution.resolve m (data :: rest) inLens tag = .error _ :=
      Resolution.resolve_eq_iff_otherNodes.2 (.attributeNotFloats hvalue hkind)
    cases h.symm.trans hrefused
  · have hgiven : Resolution.resolve m (data :: rest) inLens tag =
        Resolution.ofGivenScales inLens (values.map (Binary.convert .binary64)) none tag :=
      Resolution.resolve_eq_iff_otherNodes.2 (.attributeScales hvalue hvalues)
    rw [h, Resolution.ofGivenScales] at hgiven
    split at hgiven
    · next hlength =>
      cases hgiven
      rw [List.length_map, hrank] at hlength
      refine ⟨_, .ofAttribute hvalue hvalues, ?_⟩
      rw [← hlength]
      exact forRuntime_of_attribute
    · cases hgiven
  · obtain ⟨values, hvalues, ⟨hne, -⟩ | ⟨-, a, ha, hsource⟩⟩ := Resolution.source?_of_resolve h
    · rw [AttributeMap.scales_eq_nil hscales] at hvalues
      cases hvalues
      exact absurd rfl hne
    · have hdecides := decides_of_decidingArgument? hscales ha
      exact ⟨_, .ofArgument hdecides, forRuntime_of_source? hsource⟩

end ResizePlan

/-- A resize at run time reads the first argument, and where the scales or lengths of the node come
from, which is not the first argument again. Its modes are found by the names that it is given. -/
theorem planResize_runtimeInput {lowering : LoweringSettings} {instruction : Instruction}
    (h : planResize o args lowering = .ok (.runtime id scales instruction)) :
    ∃ data rest, args = data :: rest ∧ id = data.id ∧
      RuntimeInput o.attributes data rest scales ∧ scales ≠ .existing data.id ∧
      ∃ settings nearestMode transform, ResizeSettings.resolve o = .ok settings ∧
        instruction = .resize nearestMode transform ∧
        NearestMode.ofName? nearestMode = some settings.nearestMode ∧
        CoordinateTransform.ofName? transform = some settings.transform := by
  obtain ⟨settings, data, r, hsettings, -, hdata, hresolution, hplan⟩ |
    ⟨_, _, _, _, _, -, ⟨-, hplan⟩ | ⟨-, hlinear⟩⟩ := ResizePlan.planResize_eq_ok h
  · obtain ⟨rest, rfl⟩ := List.head?_eq_some_iff.1 hdata
    obtain ⟨scales, hinput, hruntime⟩ :=
      ResizePlan.exists_runtimeInput settings (Shape.length_lensOr 1 _) hresolution
    cases hplan.trans hruntime
    exact ⟨data, rest, rfl, rfl, hinput, hinput.ne_data, settings, _, _, hsettings, rfl,
      NearestMode.ofName?_name _, CoordinateTransform.ofName?_name _⟩
  · cases hplan
  · obtain ⟨-, -, -, hplan⟩ := ResizePlan.forLinear_eq_ok.1 hlinear
    cases hplan

/-- Data of unknown length that is an argument twice, and lengths that are known. With scales in the
attribute these are handed on, without them the lengths, and the data neither way. -/
theorem planResize_runtimeInput_of_dynamic :
    let data := Argument.ofShape 0 ⟨.float32, [.symbolic "n"]⟩ none
    let lens := Argument.ofShape 1 (.ofLens .int64 [1]) (some ⟨[1], .int64 [3]⟩)
    let given := AttributeMap.ofList [("scales", .floats [.half])]
    let instruction := Instruction.resize "round_prefer_floor" "half_pixel"
    (planResize ⟨"Upsample", given⟩ [data, data, lens] .standard =
        .ok (.runtime 0 (.constant ⟨[1], .float32 [.half]⟩) instruction) ∧
      RuntimeInput given data [data, lens] (.constant ⟨[1], .float32 [.half]⟩)) ∧
    planResize ⟨"Resize", .empty⟩ [data, data, lens] .standard =
        .ok (.runtime 0 (.existing 1) instruction) ∧
      RuntimeInput .empty data [data, lens] (.existing 1) := by
  intro data lens given instruction
  have hgiven : planResize ⟨"Upsample", given⟩ [data, data, lens] .standard =
      .ok (.runtime 0 (.constant ⟨[1], .float32 [.half]⟩) instruction) := by decide +kernel
  have hlens : planResize ⟨"Resize", .empty⟩ [data, data, lens] .standard =
      .ok (.runtime 0 (.existing 1) instruction) := by decide +kernel
  obtain ⟨_, _, hargs, -, hscales, -⟩ := planResize_runtimeInput hgiven
  obtain ⟨_, _, hargs', -, hexisting, -⟩ := planResize_runtimeInput hlens
  cases hargs
  cases hargs'
  exact ⟨⟨hgiven, hscales⟩, hlens, hexisting⟩

end TensorResize
