import Mathlib.Data.List.GetD
import TensorResize.Proofs.Execution
import TensorResize.Proofs.Plan
import TensorResize.Proofs.SampleRange

/-!
# Nearest resizing

The program of a nearest plan yields the tensor whose element at some coordinates is the source
element at the nearest coordinates, axis by axis. Its index constant holds the exact positions of
these elements, in whichever width it is written.

## Main definitions

* `nearestCoordinates` — the source coordinates of an output element.
-/

namespace TensorResize

open RowMajor

variable {α : Type} {A : Arithmetic α} {env : NodeId → Option (Value α)} {axes : List Axis}
  {t : CoordinateTransform} {m : NearestMode} {coords : List ℕ}

/-- The nearest source coordinates of the output element at `coords`. -/
def nearestCoordinates (t : CoordinateTransform) (m : NearestMode) (axes : List Axis)
    (coords : List ℕ) : List ℕ :=
  List.zipWith (fun a x => a.nearest t m x) axes coords

theorem inRange_nearestCoordinates (h : ∀ a ∈ axes, a.HasSamples)
    (hrank : coords.length = axes.length) :
    InRange (axes.map Axis.inLen) (nearestCoordinates t m axes coords) := by
  induction axes generalizing coords with
  | nil =>
    rw [List.eq_nil_of_length_eq_zero hrank]
    exact inRange_nil
  | cons a axes ih =>
    cases coords with
    | nil => cases hrank
    | cons x coords =>
      exact ⟨Axis.nearest_lt (h a (List.mem_cons_self ..)) t m x,
        ih (fun a ha => h a (List.mem_cons_of_mem _ ha)) (Nat.succ.inj hrank)⟩

/-- The axes of known lengths have samples if no source length is zero or too large. -/
theorem Axis.hasSamples_of_mem_ofLists {inLens outLens : List ℕ} (scales : List Binary64)
    (hrank : inLens.length = outLens.length)
    (hlens : ∀ len ∈ inLens, 0 < len ∧ len ≤ Binary.maxLength) :
    ∀ a ∈ ofLists inLens outLens scales, a.HasSamples := by
  intro a ha
  have hmem : a.inLen ∈ (ofLists inLens outLens scales).map Axis.inLen :=
    List.mem_map_of_mem ha
  rw [map_inLen_ofLists scales hrank] at hmem
  exact hlens a.inLen hmem

/-- The stored position of the nearest source element of an output element. -/
def nearestStored (t : CoordinateTransform) (m : NearestMode) (axes : List Axis) (flat : ℕ) : ℕ :=
  offset (axes.map Axis.inLen)
    (nearestCoordinates t m axes (coordinates (axes.map Axis.outLen) flat))

theorem nearestOffsets_eq_map (t : CoordinateTransform) (m : NearestMode) (axes : List Axis) :
    nearestOffsets t m axes =
      (List.range (elements (axes.map Axis.outLen))).map (nearestStored t m axes) := by
  rw [nearestOffsets, positions_eq_map, List.map_map]
  rfl

section Stored

variable (haxes : ∀ a ∈ axes, a.HasSamples) (hin : count (axes.map Axis.inLen) < Word.modulus)
include haxes hin

theorem nearestStored_eq_position (flat : ℕ) :
    nearestStored t m axes flat = position (axes.map Axis.inLen)
      (nearestCoordinates t m axes (coordinates (axes.map Axis.outLen) flat)) :=
  offset_eq_position (inRange_nearestCoordinates haxes (by simp)) hin

theorem nearestStored_lt (flat : ℕ) :
    nearestStored t m axes flat < count (axes.map Axis.inLen) := by
  rw [nearestStored_eq_position haxes hin]
  exact position_lt (inRange_nearestCoordinates haxes (by simp))

end Stored

/-! ## The program of a nearest plan -/

namespace ResizePlan

variable {data : NodeId} {settings : ResizeSettings}

/-- The plan of a nearest resize moves every output element from the nearest source element. -/
theorem run_forNearest {source : Tensor α} (haxes : ∀ a ∈ axes, a.HasSamples)
    (hin : count (axes.map Axis.inLen) < 2 ^ 63)
    (hout : count (axes.map Axis.outLen) < Word.modulus)
    (hlens : source.lens = axes.map Axis.inLen) (henv : env data = some (.elements source)) :
    ∃ result : Tensor α,
      (forNearest data settings axes).program.run A env = some (.elements result) ∧
      result.lens = axes.map Axis.outLen ∧
      ∀ coords, InRange (axes.map Axis.outLen) coords → ∃ x,
        source.at? (nearestCoordinates settings.transform settings.nearestMode axes coords) =
          some x ∧ result.at? coords = some x := by
  have hword : count (axes.map Axis.inLen) < Word.modulus := hin.trans (by decide)
  have hstored := nearestStored_lt (t := settings.transform) (m := settings.nearestMode) haxes hword
  have hlength : source.values.length = count (axes.map Axis.inLen) :=
    source.length_values.trans (congrArg count hlens)
  have hnonempty : source.values ≠ [] :=
    List.ne_nil_of_length_pos (hlength ▸ Nat.zero_lt_of_lt (hstored 0))
  obtain ⟨flat, indices, hgather⟩ := @runCalls_gatherCalls α A env (axes.map Axis.outLen) data
    source (nearestStored settings.transform settings.nearestMode axes)
    (source.values.head hnonempty) henv (hlens ▸ hin) fun k _ => hlens ▸ hstored k
  rw [hlens, ← elements_eq_count hword, ← elements_eq_count hout,
    ← nearestOffsets_eq_map] at hgather
  have hrun : (forNearest data settings axes).program.run A env = some (.elements
      (Tensor.tabulate (axes.map Axis.outLen) fun flat => source.values.getD
        (nearestStored settings.transform settings.nearestMode axes flat)
        (source.values.head hnonempty))) :=
    congrArg (Option.bind · List.getLast?) hgather
  refine ⟨_, hrun, rfl, ?_⟩
  intro coords hcoords
  have hrange := inRange_nearestCoordinates (t := settings.transform)
    (m := settings.nearestMode) haxes (hcoords.length_eq.trans (List.length_map _))
  have hlt := position_lt hrange
  rw [← hlength] at hlt
  refine ⟨source.values.get ⟨_, hlt⟩, ?_, ?_⟩
  · rw [Tensor.at?, hlens, if_pos hrange]
    exact List.getElem?_eq_getElem hlt
  · rw [Tensor.at?_tabulate hcoords, nearestStored_eq_position haxes hword,
      coordinates_position hcoords]
    exact congrArg some (List.getD_eq_getElem _ _ hlt)

/-- The index constant of a nearest plan holds exact positions. -/
theorem indices_forNearest {total : ℕ} {indices : Literal} (haxes : ∀ a ∈ axes, a.HasSamples)
    (hin : count (axes.map Axis.inLen) < 2 ^ 63)
    (hout : count (axes.map Axis.outLen) < Word.modulus)
    (h : nearest data total indices = forNearest data settings axes) :
    indices.lens = axes.map Axis.outLen ∧
      indices.toLengths = (List.range (count (axes.map Axis.outLen))).map fun flat =>
        position (axes.map Axis.inLen) (nearestCoordinates settings.transform settings.nearestMode
          axes (coordinates (axes.map Axis.outLen) flat)) := by
  have hword : count (axes.map Axis.inLen) < Word.modulus := hin.trans (by decide)
  rw [forNearest, nearest.injEq, nearestOffsets_eq_map, elements_eq_count hword,
    elements_eq_count hout] at h
  obtain ⟨-, -, rfl⟩ := h
  constructor
  · exact lens_indexLiteral _ _ _
  · have hbelow : ∀ k ∈ (List.range (count (axes.map Axis.outLen))).map
        (nearestStored settings.transform settings.nearestMode axes),
        k < count (axes.map Axis.inLen) := by
      intro k hk
      obtain ⟨flat, -, rfl⟩ := List.mem_map.1 hk
      exact nearestStored_lt haxes hword flat
    rw [toLengths_indexLiteral _ hin hbelow]
    apply List.map_congr_left
    intro flat _
    exact nearestStored_eq_position haxes hword flat

end ResizePlan

/-- A nearest plan is made of the axes that the lengths and scales give. -/
theorem planResize_eq_nearest {o : Operator} {args : List Argument} {lowering : LoweringSettings}
    {data : NodeId} {total : ℕ} {indices : Literal}
    (hplan : planResize o args lowering = .ok (.nearest data total indices)) :
    ∃ settings a inLens outLens scales,
      ResizePlan.Precomputed o args settings a inLens outLens scales ∧
      ResizePlan.nearest data total indices =
        .forNearest data settings (Axis.ofLists inLens outLens scales) := by
  obtain ⟨_, _, _, -, -, -, -, h⟩ | ⟨settings, a, inLens, outLens, scales, hmade, h⟩ :=
    ResizePlan.planResize_eq_ok hplan
  · cases h
  · refine ⟨settings, a, inLens, outLens, scales, hmade, ?_⟩
    rcases h with ⟨-, h⟩ | ⟨-, h⟩
    · cases h
      rfl
    · obtain ⟨-, -, -, h⟩ := ResizePlan.forLinear_eq_ok.1 h
      cases h

/-- The program of a nearest plan computes the nearest resize: it yields a tensor of the output
lengths whose element at some coordinates is the source element at the nearest coordinates. Its
index constant reads back as the exact positions of these elements. -/
theorem run_planResize_nearest {o : Operator} {args : List Argument} {lowering : LoweringSettings}
    {data : NodeId} {total : ℕ} {indices : Literal} {settings : ResizeSettings} {a : Argument}
    {inLens outLens : List ℕ} {scales : List Binary64} {origin : Option NodeId} {source : Tensor α}
    (hplan : planResize o args lowering = .ok (.nearest data total indices))
    (hsettings : ResizeSettings.resolve o = .ok settings)
    (hdata : args.head? = some a) (hlens : a.shape.lens? = some inLens)
    (hresolution : Resolution.resolve o.attributes args inLens o.tag =
      .ok (.constant scales outLens origin))
    (hrange : ∀ len ∈ inLens, 0 < len ∧ len ≤ Binary.maxLength) (hcount : count inLens < 2 ^ 63)
    (hsource : source.lens = inLens) (henv : env data = some (.elements source)) :
    let nearest := nearestCoordinates settings.transform settings.nearestMode
      (Axis.ofLists inLens outLens scales)
    (∃ result : Tensor α,
      (ResizePlan.nearest data total indices).program.run A env = some (.elements result) ∧
      result.lens = outLens ∧
      ∀ coords, InRange outLens coords → ∃ x,
        source.at? (nearest coords) = some x ∧ result.at? coords = some x) ∧
    indices.lens = outLens ∧
    indices.toLengths = (List.range (count outLens)).map fun flat =>
      position inLens (nearest (coordinates outLens flat)) := by
  obtain ⟨settings', a', inLens', outLens', scales', hmade, hforNearest⟩ :=
    planResize_eq_nearest hplan
  obtain ⟨origin', hresolution'⟩ := hmade.resolution_eq
  obtain rfl : settings' = settings := by simpa [hmade.settings_eq] using hsettings
  obtain rfl : a' = a := by simpa [hmade.data_eq] using hdata
  obtain rfl : inLens' = inLens := by simpa [hmade.lens_eq] using hlens
  rw [hresolution', Except.ok.injEq, Resolution.constant.injEq] at hresolution
  obtain ⟨rfl, rfl, -⟩ := hresolution
  have hout := hmade.count_lt
  have haxes := Axis.hasSamples_of_mem_ofLists scales' hmade.rank_eq hrange
  have hmapIn := hmade.map_inLen
  have hmapOut := Axis.map_outLen_ofLists inLens' outLens' scales'
  generalize Axis.ofLists inLens' outLens' scales' = axes at *
  subst hmapIn hmapOut
  have hrun := @ResizePlan.run_forNearest α A env axes data settings' source haxes hcount hout
    hsource henv
  rw [← hforNearest] at hrun
  intro nearest
  exact ⟨hrun, ResizePlan.indices_forNearest haxes hcount hout hforNearest⟩

/-- Two samples enlarged to four by the scales attribute. -/
theorem run_planResize_nearest_two_to_four :
    ∃ result : Tensor ℤ,
      (ResizePlan.nearest 0 2 ⟨[4], .int32 [0, 0, 1, 1]⟩).program.run
        (.ofRing (fun _ => 0) fun _ => 0) (fun _ => some (.elements ⟨[2], [10, 20], rfl⟩)) =
        some (.elements result) ∧
      result.lens = [4] ∧ result.at? [1] = some 10 ∧ result.at? [2] = some 20 := by
  obtain ⟨⟨result, hrun, hlens, hat⟩, -⟩ :=
    @run_planResize_nearest ℤ (.ofRing (fun _ => 0) fun _ => 0)
      (fun _ => some (.elements ⟨[2], [10, 20], rfl⟩))
      ⟨"Resize", .ofList [("scales", .floats [.ofNat .binary32 2])]⟩
      [.ofShape 0 (.ofLens .float32 [2]) none] ⟨true⟩ 0 2 ⟨[4], .int32 [0, 0, 1, 1]⟩
      ⟨.nearest, .halfPixel, .roundPreferFloor, false⟩ (.ofShape 0 (.ofLens .float32 [2]) none)
      [2] [4] [.ofNat .binary64 2] none ⟨[2], [10, 20], rfl⟩
      (by decide +kernel) (by decide +kernel) rfl (by decide) (by decide +kernel) (by decide)
      (by decide) rfl rfl
  obtain ⟨x, hx, hxresult⟩ := hat [1] (by decide)
  obtain ⟨y, hy, hyresult⟩ := hat [2] (by decide)
  have hten : some 10 = some x := Eq.trans (by decide +kernel) hx
  have htwenty : some 20 = some y := Eq.trans (by decide +kernel) hy
  exact ⟨result, hrun, hlens, hxresult.trans hten.symm, hyresult.trans htwenty.symm⟩

end TensorResize
