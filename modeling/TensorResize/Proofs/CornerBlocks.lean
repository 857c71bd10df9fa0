import TensorResize.Proofs.Corners
import TensorResize.Proofs.NearestResize

/-!
# Corners and nearest samples

A linear resize and a nearest resize of the same node compute their positions by different code: one
numbers the corners of each element, the other looks up a single sample per axis. They agree where
they overlap. The first block of corners holds the positions that the nearest resize gathers when it
rounds down, and the last block those that it gathers when it rounds up.

## Main definitions

* `cornerCoordinates`, `cornerStored` — where a corner of an element is in the source.
* `CornerBlocks` — what the blocks of an index constant are.
* `Operator.inNearestMode` — the node with another mode and rounding.
-/

namespace TensorResize

open RowMajor

variable {t : CoordinateTransform} {axes : List Axis}

/-! ## Coordinates of a corner -/

/-- The source coordinates of a corner of the element at `coords`: the sample above along the axes
whose bit of the corner number is set, and the sample below along the others. -/
def cornerCoordinates (t : CoordinateTransform) (axes : List Axis) (corner : ℕ)
    (coords : List ℕ) : List ℕ :=
  (axes.zip coords).zipIdx.map fun ((a, x), d) =>
    a.nearest t (if corner.testBit d then .ceil else .floor) x

theorem cornerCoordinates_eq_nearest {m : NearestMode} {corner : ℕ}
    (h : ∀ d < axes.length, (if corner.testBit d then NearestMode.ceil else .floor) = m)
    (coords : List ℕ) :
    cornerCoordinates t axes corner coords = nearestCoordinates t m axes coords := by
  apply List.ext_getElem
  · simp [cornerCoordinates, nearestCoordinates]
  · intro d hd _
    have hd : d < axes.length := by
      simp only [cornerCoordinates, List.length_map, List.length_zipIdx, List.length_zip] at hd
      omega
    simp [cornerCoordinates, nearestCoordinates, h d hd]

/-- The first corner takes the sample below along every axis. -/
theorem cornerCoordinates_zero (coords : List ℕ) :
    cornerCoordinates t axes 0 coords = nearestCoordinates t .floor axes coords := by
  apply cornerCoordinates_eq_nearest
  intro d _
  simp

/-- The last corner takes the sample above along every axis. -/
theorem cornerCoordinates_last (coords : List ℕ) :
    cornerCoordinates t axes (2 ^ axes.length - 1) coords =
      nearestCoordinates t .ceil axes coords := by
  apply cornerCoordinates_eq_nearest
  intro d hd
  simp [Nat.testBit_two_pow_sub_one, hd]

/-- The table looks up the samples of each axis under the coordinates of the element. -/
theorem CornerTable.point_build {element : ℕ} (corner : ℕ)
    (h : element < (build t axes).elements) :
    (build t axes).point corner element =
      cornerCoordinates t axes corner (coordinates (axes.map Axis.outLen) element) := by
  have hpositions : element < RowMajor.elements (axes.map Axis.outLen) := h
  apply List.ext_getElem
  · simp [point, build, cornerCoordinates]
  · intro d hd _
    have hd : d < axes.length := by simpa [point, build] using hd
    simp only [point, build, cornerCoordinates, positions_eq_map, List.getElem_map,
      List.getElem_zipIdx, List.getElem_zip, List.map_map, Nat.zero_add]
    cases corner.testBit d with
    | false => simp [AxisCorners.side, hpositions, hd]
    | true => simp [AxisCorners.side, hpositions, hd]

/-! ## Blocks of an index constant -/

/-- A stretch of a tabulated list. -/
theorem take_drop_map_range {α : Type} (f : ℕ → α) {first length n : ℕ} (h : first + length ≤ n) :
    (((List.range n).map f).drop first).take length =
      (List.range length).map fun k => f (first + k) := by
  apply List.ext_getElem
  · simp only [List.length_take, List.length_drop, List.length_map, List.length_range]
    omega
  · intro k hk _
    simp

/-- The stored position of a corner of an element. -/
def cornerStored (t : CoordinateTransform) (axes : List Axis) (corner element : ℕ) : ℕ :=
  offset (axes.map Axis.inLen)
    (cornerCoordinates t axes corner (coordinates (axes.map Axis.outLen) element))

/-- How the index constant of a linear resize is divided. Next to it stand those of the nearest
resizes of the same axes that round down and up. -/
structure CornerBlocks (t : CoordinateTransform) (axes : List Axis) (total : ℕ)
    (corners below above : Literal) : Prop where
  elementType_below : below.buffer.elementType = corners.buffer.elementType
  elementType_above : above.buffer.elementType = corners.buffer.elementType
  /-- There is a block for every corner. -/
  length_eq : corners.buffer.integers.length =
    2 ^ axes.length * count (axes.map Axis.outLen)
  first_eq : corners.buffer.integers.take (count (axes.map Axis.outLen)) = below.buffer.integers
  last_eq : corners.buffer.integers.drop
      (corners.buffer.integers.length - count (axes.map Axis.outLen)) = above.buffer.integers
  /-- A block holds the offset of its corner for every element. Offsets are held in words and
  written in the element type of the constant. -/
  block_eq : ∀ corner < 2 ^ axes.length,
    (corners.buffer.integers.drop (corner * count (axes.map Axis.outLen))).take
        (count (axes.map Axis.outLen)) =
      (List.range (count (axes.map Axis.outLen))).map fun element =>
        writtenIndex total (cornerStored t axes corner element)
  /-- These are the exact positions, in a source that has samples along every axis and fits a signed
  word. -/
  position_eq : (∀ a ∈ axes, a.HasSamples) → count (axes.map Axis.inLen) < 2 ^ 63 →
    ∀ corner < 2 ^ axes.length, ∀ element < count (axes.map Axis.outLen),
      writtenIndex total (cornerStored t axes corner element) = position (axes.map Axis.inLen)
        (cornerCoordinates t axes corner (coordinates (axes.map Axis.outLen) element))

/-- The corners of an element are elements of a source that has samples along every axis. -/
theorem inRange_cornerCoordinates {element : ℕ} (haxes : ∀ a ∈ axes, a.HasSamples) (corner : ℕ)
    (h : element < elements (axes.map Axis.outLen)) :
    InRange (axes.map Axis.inLen)
      (cornerCoordinates t axes corner (coordinates (axes.map Axis.outLen) element)) := by
  rw [← CornerTable.point_build corner h]
  exact CornerTable.inRange_point h (CornerTable.within_build t haxes)

section Blocks

variable (hout : count (axes.map Axis.outLen) < Word.modulus)
include hout

/-- A block of corners as it is written. -/
theorem take_drop_integers {corner : ℕ} (hcorner : corner < 2 ^ axes.length) (lens : List ℕ)
    (total : ℕ) :
    ((indexLiteral lens ((List.range (2 ^ axes.length * count (axes.map Axis.outLen))).map
        ((CornerTable.build t axes).stored (axes.map Axis.inLen))) total).buffer.integers.drop
        (corner * count (axes.map Axis.outLen))).take (count (axes.map Axis.outLen)) =
      (List.range (count (axes.map Axis.outLen))).map fun element =>
        writtenIndex total (cornerStored t axes corner element) := by
  have hfits : corner * count (axes.map Axis.outLen) + count (axes.map Axis.outLen) ≤
      2 ^ axes.length * count (axes.map Axis.outLen) := by
    rw [← Nat.succ_mul]
    exact Nat.mul_le_mul_right _ hcorner
  rw [integers_indexLiteral_eq_map, List.map_map, take_drop_map_range _ hfits]
  apply List.map_congr_left
  intro element helement
  rw [List.mem_range, ← elements_eq_count hout] at helement
  rw [cornerStored, ← CornerTable.point_build corner helement, ← elements_eq_count hout]
  exact congrArg (writtenIndex total) (CornerTable.stored_mul_add _ _ helement)

/-- A nearest resize writes the offsets of a corner, if it rounds along every axis to the side that
the corner takes. -/
theorem integers_nearestOffsets {m : NearestMode} {corner : ℕ}
    (h : ∀ coords, cornerCoordinates t axes corner coords = nearestCoordinates t m axes coords)
    (lens : List ℕ) (total : ℕ) :
    (indexLiteral lens (nearestOffsets t m axes) total).buffer.integers =
      (List.range (count (axes.map Axis.outLen))).map fun element =>
        writtenIndex total (cornerStored t axes corner element) := by
  rw [integers_indexLiteral_eq_map, nearestOffsets_eq_map, elements_eq_count hout, List.map_map]
  apply List.map_congr_left
  intro element _
  rw [cornerStored, h]
  rfl

/-- Corners are written as their exact positions, if these can be counted in a signed word. -/
theorem writtenIndex_cornerStored {corner element : ℕ} (haxes : ∀ a ∈ axes, a.HasSamples)
    (hin : count (axes.map Axis.inLen) < 2 ^ 63)
    (helement : element < count (axes.map Axis.outLen)) :
    writtenIndex (elements (axes.map Axis.inLen)) (cornerStored t axes corner element) =
      position (axes.map Axis.inLen)
        (cornerCoordinates t axes corner (coordinates (axes.map Axis.outLen) element)) := by
  have hword : count (axes.map Axis.inLen) < Word.modulus := hin.trans (by decide)
  rw [← elements_eq_count hout] at helement
  have hrange := @inRange_cornerCoordinates t axes element haxes corner helement
  rw [cornerStored, offset_eq_position hrange hword, elements_eq_count hword]
  exact writtenIndex_eq_self (lt_indexLimit hin (position_lt hrange))

/-- A linear plan gathers from as many source elements as the nearest plans of its axes, and its
blocks of corners agree with their positions. -/
theorem cornerBlocks_of_forLinear {data : NodeId} {settings : ResizeSettings} {total : ℕ}
    {corners : Literal} {blend : List BlendStep} {tag : String}
    (h : ResizePlan.forLinear data settings axes tag = .ok (.linear data total corners blend)) :
    total = elements (axes.map Axis.inLen) ∧
      CornerBlocks settings.transform axes total corners
        (indexLiteral (axes.map Axis.outLen) (nearestOffsets settings.transform .floor axes) total)
        (indexLiteral (axes.map Axis.outLen) (nearestOffsets settings.transform .ceil axes)
          total) := by
  obtain ⟨-, -, -, hplan⟩ := ResizePlan.forLinear_eq_ok.1 h
  rw [ResizePlan.linear.injEq, elements_eq_count hout] at hplan
  obtain ⟨-, rfl, rfl, -⟩ := hplan
  have hblock {corner : ℕ} (hcorner : corner < 2 ^ axes.length) :=
    @take_drop_integers settings.transform axes hout corner hcorner
      (stackLens (2 ^ axes.length) (axes.map Axis.outLen)) (elements (axes.map Axis.inLen))
  refine ⟨rfl, ?_, ?_, ?_, ?_, ?_, fun _ => hblock, ?_⟩
  · rw [elementType_indexLiteral, elementType_indexLiteral]
  · rw [elementType_indexLiteral, elementType_indexLiteral]
  · rw [length_integers_indexLiteral, List.length_map, List.length_range]
  · rw [integers_nearestOffsets hout cornerCoordinates_zero, ← hblock (Nat.two_pow_pos _),
      Nat.zero_mul, List.drop_zero]
  · rw [integers_nearestOffsets hout cornerCoordinates_last, ← hblock (by simp), Nat.sub_one_mul,
      length_integers_indexLiteral, List.length_map, List.length_range]
    -- behind the start of the last block there is nothing but this block
    refine (List.take_of_length_le ?_).symm
    rw [List.length_drop, length_integers_indexLiteral, List.length_map, List.length_range]
    omega
  · intro haxes hin corner _ element helement
    exact writtenIndex_cornerStored hout haxes hin helement

end Blocks

/-! ## The same node in nearest mode -/

section Insert

variable (type : String) (m : AttributeMap) {name other : String}

theorem Operator.stringOr_insert_self (text default : String) :
    stringOr ⟨type, m.insert name (.string text)⟩ name default = .ok text := by
  simp only [stringOr, AttributeMap.get?_insert_self]
  rfl

theorem Operator.stringOr_insert_of_ne (value : AttributeValue) (default : String)
    (h : other ≠ name) :
    stringOr ⟨type, m.insert name value⟩ other default = stringOr ⟨type, m⟩ other default := by
  simp only [stringOr, AttributeMap.get?_insert_of_ne m value h]
  rfl

theorem Operator.intOr_insert_of_ne (value : AttributeValue) (default : Int64) (h : other ≠ name) :
    intOr ⟨type, m.insert name value⟩ other default = intOr ⟨type, m⟩ other default := by
  simp only [intOr, AttributeMap.get?_insert_of_ne m value h]
  rfl

end Insert

/-- The node with nearest mode and this rounding in place of its own. -/
def Operator.inNearestMode (o : Operator) (m : NearestMode) : Operator :=
  ⟨o.type, (o.attributes.insert "mode" (.string "nearest")).insert "nearest_mode" (.string m.name)⟩

namespace Operator

variable {o : Operator} {settings : ResizeSettings}

theorem resolve_inNearestMode (m : NearestMode)
    (h : ResizeSettings.resolve o = .ok settings) :
    ResizeSettings.resolve (o.inNearestMode m) =
      .ok { settings with interpolation := .nearest, nearestMode := m } := by
  simp only [ResizeSettings.resolve, bind_eq_ok, orError_eq_ok, refuseIf_eq_ok, pure_eq_ok] at h
  obtain ⟨coordinateMode, hcoordinateMode, _, hcropping, transform, htransform, excludeOutside,
    hexclude, _, hinside, -, -, -, -, -, -, -, -, rfl⟩ := h
  simp only [ResizeSettings.resolve, bind_eq_ok, orError_eq_ok, refuseIf_eq_ok, pure_eq_ok]
  refine ⟨coordinateMode, ?_, (), hcropping, transform, htransform, excludeOutside, ?_, (), hinside,
    "nearest", ?_, .nearest, Interpolation.ofName?_name .nearest, m.name,
    stringOr_insert_self .., m, NearestMode.ofName?_name m, rfl⟩
  · rw [inNearestMode, stringOr_insert_of_ne _ _ _ _ (by decide),
      stringOr_insert_of_ne _ _ _ _ (by decide), hcoordinateMode]
  · rw [inNearestMode, intOr_insert_of_ne _ _ _ _ (by decide),
      intOr_insert_of_ne _ _ _ _ (by decide), hexclude]
  · rw [inNearestMode, stringOr_insert_of_ne _ _ _ _ (by decide),
      stringOr_insert_self]

/-- Scales and output lengths do not depend on the mode. -/
theorem resolution_inNearestMode (o : Operator) (m : NearestMode) (args : List Argument)
    (inLens : List ℕ) :
    Resolution.resolve (o.inNearestMode m).attributes args inLens (o.inNearestMode m).tag =
      Resolution.resolve o.attributes args inLens o.tag := by
  have hscales : (o.inNearestMode m).attributes.scales (o.inNearestMode m).tag =
      o.attributes.scales o.tag := by
    rw [AttributeMap.scales, inNearestMode, AttributeMap.get?_insert_of_ne _ _ (by decide),
      AttributeMap.get?_insert_of_ne _ _ (by decide)]
    rfl
  rw [Resolution.resolve, hscales]
  rfl

end Operator

/-- A node that is planned from known lengths is planned from the same lengths in nearest mode. -/
theorem ResizePlan.Precomputed.planResize_inNearestMode {o : Operator} {args : List Argument}
    {settings : ResizeSettings} {a : Argument} {inLens outLens : List ℕ} {scales : List Binary64}
    (h : Precomputed o args settings a inLens outLens scales) (m : NearestMode) :
    let axes := Axis.ofLists inLens outLens scales
    let total := elements (axes.map Axis.inLen)
    planResize (o.inNearestMode m) args ⟨true⟩ = .ok (.nearest a.id total
      (indexLiteral (axes.map Axis.outLen) (nearestOffsets settings.transform m axes) total)) := by
  obtain ⟨origin, hresolution⟩ := h.resolution_eq
  rw [← o.resolution_inNearestMode m] at hresolution
  have hout : checkOutput outLens (o.inNearestMode m).tag = .ok () := h.output
  rw [planResize_of_constant (Operator.resolve_inNearestMode m h.settings_eq) h.data_eq h.lens_eq
    hresolution]
  simp only [hout]
  rfl

/-- A linear resize gathers the corners of every element, in blocks. The same node in nearest mode
with precomputed positions is planned as well, from the same data with as many elements. Rounding
down it gathers the positions of the first block, rounding up those of the last, and all of them are
written in the same element type. -/
theorem planResize_linear_cornerBlocks {o : Operator} {args : List Argument}
    {lowering : LoweringSettings} {settings : ResizeSettings} {plan : ResizePlan}
    (hplan : planResize o args lowering = .ok plan)
    (hsettings : ResizeSettings.resolve o = .ok settings)
    (hmode : settings.interpolation = .linear) :
    ∃ data total corners blend below above a inLens outLens scales origin,
      plan = .linear data total corners blend ∧
      planResize (o.inNearestMode .floor) args ⟨true⟩ = .ok (.nearest data total below) ∧
      planResize (o.inNearestMode .ceil) args ⟨true⟩ = .ok (.nearest data total above) ∧
      args.head? = some a ∧ a.shape.lens? = some inLens ∧
      Resolution.resolve o.attributes args inLens o.tag = .ok (.constant scales outLens origin) ∧
      CornerBlocks settings.transform (Axis.ofLists inLens outLens scales) total corners
        below above := by
  obtain ⟨_, _, _, hresolved, hnearest, -⟩ | ⟨_, a, inLens, outLens, scales, hmade, h⟩ :=
    ResizePlan.planResize_eq_ok hplan
  · rw [hsettings, Except.ok.injEq] at hresolved
    rw [hresolved, hnearest] at hmode
    cases hmode
  · have hresolved := hmade.settings_eq
    rw [hsettings, Except.ok.injEq] at hresolved
    subst hresolved
    obtain ⟨hnearest, -⟩ | ⟨-, hlinear⟩ := h
    · rw [hnearest] at hmode
      cases hmode
    · obtain ⟨-, -, -, rfl⟩ := ResizePlan.forLinear_eq_ok.1 hlinear
      have hout := hmade.count_lt
      rw [← Axis.map_outLen_ofLists inLens outLens scales] at hout
      obtain ⟨-, hblocks⟩ := cornerBlocks_of_forLinear hout hlinear
      obtain ⟨origin, hresolution⟩ := hmade.resolution_eq
      exact ⟨_, _, _, _, _, _, a, inLens, outLens, scales, origin, rfl,
        hmade.planResize_inNearestMode .floor, hmade.planResize_inNearestMode .ceil,
        hmade.data_eq, hmade.lens_eq, hresolution, hblocks⟩

/-- Two samples enlarged to four. The sample below each of them and the sample above are the two
corners. -/
theorem planResize_linear_cornerBlocks_two_to_four :
    let o : Operator :=
      ⟨"Resize", .ofList [("mode", .string "linear"), ("scales", .floats [.ofNat .binary32 2])]⟩
    let args : List Argument := [.ofShape 0 (.ofLens .float32 [2]) none]
    ∃ corners blend below above,
      planResize o args ⟨false⟩ = .ok (.linear 0 2 corners blend) ∧
      planResize (o.inNearestMode .floor) args ⟨true⟩ = .ok (.nearest 0 2 below) ∧
      planResize (o.inNearestMode .ceil) args ⟨true⟩ = .ok (.nearest 0 2 above) ∧
      corners.buffer.integers = [0, 0, 0, 1, 0, 1, 1, 1] ∧
      below.buffer.integers = [0, 0, 0, 1] ∧ above.buffer.integers = [0, 1, 1, 1] := by
  intro o args
  have hplan : planResize o args ⟨false⟩ = .ok (.linear 0 2
      ⟨[8], .int32 [0, 0, 0, 1, 0, 1, 1, 1]⟩
      [⟨4, ⟨[4], .float32
        ([0, 1, 2, 3].map (Axis.weight ⟨2, 4, .ofNat .binary64 2⟩ .halfPixel))⟩⟩]) := by
    decide +kernel
  have hresolved : Resolution.resolve o.attributes args [2] o.tag =
      .ok (.constant [.ofNat .binary64 2] [4] none) := by decide +kernel
  obtain ⟨_, _, _, _, below, above, _, inLens, _, _, _, hlinear, hbelow, habove, hdata, hlens,
    hresolution, hblocks⟩ := @planResize_linear_cornerBlocks o args ⟨false⟩
      ⟨.linear, .halfPixel, .roundPreferFloor, false⟩ _ hplan (by decide +kernel) rfl
  cases hlinear
  cases hdata
  obtain rfl : [2] = inLens := Option.some.inj hlens
  rw [hresolved] at hresolution
  cases hresolution
  exact ⟨_, _, below, above, hplan, hbelow, habove, by decide, hblocks.first_eq.symm,
    hblocks.last_eq.symm⟩

end TensorResize
