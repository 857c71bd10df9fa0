import TensorResize.Proofs.CornerBlocks
import TensorResize.Proofs.Enumeration
import TensorResize.Proofs.GivenLengths
import TensorResize.Proofs.Replication
import TensorResize.Proofs.Weights

/-!
# Resizing to the lengths of the source

A resize that asks for the lengths of its source moves nothing. Along such an axis the scale is one,
and every coordinate mode but the one with output centres over source edges computes the output
coordinate itself. This takes all of the arithmetic to be exact, which is where the lengths have to
be small: with the corners laid over each other, two of them are multiplied.

## Main definitions

* `Axis.KeepsLength` — the axes that are resized to their own length.
* `KeepsLengths` — the nodes that ask for the lengths of their source.
-/

namespace TensorResize

open Binary RowMajor

/-- The greatest length of which the square is a length. -/
def maxRoot : ℕ := 2 ^ 26

/-! ## Exact products and quotients -/

namespace Binary

theorem ofNat_mul_ofNat {x k : ℕ} (hx : x ≤ maxLength) (hk : k ≤ maxLength) :
    (ofNat .binary64 x * ofNat .binary64 k : Binary64) = .ofNat .binary64 (x * k) := by
  obtain ⟨hfin, hval⟩ := natMagnitude_spec (n := x) (by omega)
  obtain ⟨hfin', hval'⟩ := natMagnitude_spec (n := k) (by omega)
  change mul (number false (natMagnitude x)) (number false (natMagnitude k)) = _
  simp only [mul, isInfinite_eq_false hfin, isInfinite_eq_false hfin', Bool.or_self,
    Bool.false_eq_true, if_false, hval, hval', ← Nat.cast_mul]
  rfl

/-- A product divided by a factor is the other factor. -/
theorem ofNat_mul_div_ofNat {x k : ℕ} (hk : 0 < k) (hmax : k ≤ maxLength)
    (hproduct : x * k < maxLength) :
    (ofNat .binary64 (x * k) / ofNat .binary64 k : Binary64) = .ofNat .binary64 x := by
  have hk' : (k : ℚ) ≠ 0 := by exact_mod_cast hk.ne'
  have hvalue : (natMagnitude (x * k)).toRat = (2 * (x * k) : ℕ) / 2 := by
    rw [(natMagnitude_spec (by omega)).2]
    push_cast
    ring
  have hquotient : ((2 * (x * k) : ℕ) : ℚ) / 2 / k = x := by
    push_cast
    field_simp
  change (number false (natMagnitude (x * k)) / ofNat .binary64 k : Binary64) = _
  rw [number_div_ofNat hvalue (by omega) hk hmax, hquotient]
  rfl

theorem ofNat_div_one {x : ℕ} (hx : x < maxLength) :
    (ofNat .binary64 x / .one : Binary64) = .ofNat .binary64 x := by
  have hdiv := ofNat_mul_div_ofNat (x := x) (k := 1) one_pos (by decide) (by omega)
  rwa [Nat.mul_one] at hdiv

/-- With the first and last samples of both sides together, two lengths are multiplied before the
division takes one of them out again. -/
theorem ofNat_mul_last_div_last {x n : ℕ} (hx : x < n) (hn : 1 < n) (hmax : n ≤ maxRoot) :
    (ofNat .binary64 x * (ofNat .binary64 n - .one) / (ofNat .binary64 n - .one) : Binary64) =
      .ofNat .binary64 x := by
  have hlen : n ≤ maxLength := hmax.trans (by decide)
  have hproduct : x * (n - 1) < maxLength :=
    calc x * (n - 1) ≤ (maxRoot - 1) * (maxRoot - 1) := Nat.mul_le_mul (by omega) (by omega)
      _ < maxLength := by decide
  rw [ofNat_sub_one_of_pos (by omega) hlen, ofNat_mul_ofNat (by omega) (by omega),
    ofNat_mul_div_ofNat (by omega) (by omega) hproduct]

/-- The centre of an output coordinate, without a scale, less one half is the coordinate. -/
theorem ofNat_add_half_div_one_sub_half {x : ℕ} (hx : x < maxLength) :
    ((ofNat .binary64 x + .half) / .one - .half : Binary64) = .ofNat .binary64 x := by
  obtain ⟨e, hcentre, he⟩ := exists_ofNat_add_half_eq hx
  obtain ⟨h, hhalf, hhalfFinite, hhalfValue⟩ := half_eq
  have hone : ((2 * x + 1 : ℕ) : ℚ) / 2 / (1 : ℕ) = e.toRat := by
    rw [he, Nat.cast_one, div_one]
  have hdiv : (number false e / .one : Binary64) = number false e := by
    refine (number_div_ofNat he (by omega) one_pos (by decide)).trans ?_
    rw [hone, Magnitude.ofRat_toRat]
  have hfinite : e.isInfinite = false := by
    apply isInfinite_of_le (n := x + 1) (by omega)
    rw [he]
    push_cast
    linarith
  have hvalue : (natMagnitude x).toRat = e.toRat - h.toRat := by
    rw [(natMagnitude_spec (by omega)).2, he, hhalfValue]
    push_cast
    ring
  rw [hcentre, hdiv, hhalf]
  exact sub_eq_of_toRat hfinite hhalfFinite hvalue

theorem toWord_ofNat {n : ℕ} (hn : n ≤ maxLength) : (ofNat .binary64 n : Binary64).toWord = n := by
  obtain ⟨hfin, hval⟩ := natMagnitude_spec (n := n) (by omega)
  change (number false (natMagnitude n)).toWord = n
  simp only [toWord, isInfinite_eq_false hfin, Bool.false_eq_true, if_false, hval]
  rw [← Int.cast_natCast (R := ℚ), Rat.floor_intCast, Int.toNat_natCast,
    min_eq_left (hn.trans (by decide))]

end Binary

/-! ## Axes of unchanged length -/

/-- The axis is resized to its own length, by a scale of one. -/
structure Axis.KeepsLength (a : Axis) : Prop where
  inLen_pos : 0 < a.inLen
  inLen_le : a.inLen ≤ maxRoot
  outLen_eq : a.outLen = a.inLen
  scale_eq : a.scale = .one

namespace Axis.KeepsLength

variable {a : Axis} {t : CoordinateTransform} {x : ℕ} (h : a.KeepsLength)
include h

theorem hasSamples : a.HasSamples := ⟨h.inLen_pos, h.inLen_le.trans (by decide)⟩

theorem lt_maxLength (hx : x < a.outLen) : x < maxLength :=
  (hx.trans_eq h.outLen_eq).trans_le h.hasSamples.2

/-- The source coordinate is the output coordinate. -/
theorem source_eq (ht : t ≠ .tfHalfPixelForNn) (hx : x < a.outLen) :
    a.source t x = .ofNat .binary64 x := by
  have hmax := h.lt_maxLength hx
  -- where there is one output coordinate only, it is zero
  have hfirst (hone : a.outLen ≤ 1) : (.zero : Binary64) = .ofNat .binary64 x := by
    obtain rfl : x = 0 := by omega
    exact ofNat_zero.symm
  change t.source a.inLen a.outLen x a.scale = _
  rw [h.scale_eq]
  cases t with
  | halfPixel => exact ofNat_add_half_div_one_sub_half hmax
  | pytorchHalfPixel =>
    by_cases hone : 1 < a.outLen
    · exact (if_pos hone).trans (ofNat_add_half_div_one_sub_half hmax)
    · exact (if_neg hone).trans (hfirst (Nat.not_lt.1 hone))
  | alignCorners =>
    by_cases hone : a.outLen = 1
    · exact (if_pos hone).trans (hfirst hone.le)
    · have heq := h.outLen_eq
      have hpos := h.inLen_pos
      rw [heq] at hone hx ⊢
      exact (if_neg hone).trans (ofNat_mul_last_div_last hx (by omega) h.inLen_le)
  | asymmetric => exact ofNat_div_one hmax
  | tfHalfPixelForNn => exact absurd rfl ht

theorem clampedValue_source (ht : t ≠ .tfHalfPixelForNn) (hx : x < a.outLen) :
    clampedValue a.inLen (a.source t x) = x := by
  have hmax := h.lt_maxLength hx
  have hlast : (x : ℚ) ≤ (a.inLen - 1 : ℕ) := by
    have := h.outLen_eq
    exact Nat.cast_le.2 (by omega)
  rw [h.source_eq ht hx]
  change clampedValue a.inLen (number false (natMagnitude x)) = x
  rw [clampedValue_of_positive h.hasSamples.2, (natMagnitude_spec (by omega)).2, min_eq_left hlast]

/-- Every rounding takes the sample of the same coordinate. -/
theorem nearest_eq (ht : t ≠ .tfHalfPixelForNn) (m : NearestMode) (hx : x < a.outLen) :
    a.nearest t m x = x := by
  obtain ⟨hlow, hhigh⟩ := (m.rounds_index h.hasSamples.2 (a.source t x)).near
  rw [h.clampedValue_source ht hx] at hlow hhigh
  change m.index a.inLen (a.source t x) = x
  exact le_antisymm (le_of_cast_lt_add_one hlow) (le_of_cast_lt_add_one hhigh)

/-- The sample above has no weight. -/
theorem weight_eq_zero (ht : t ≠ .tfHalfPixelForNn) (hx : x < a.outLen) :
    a.weight t x = .zero := by
  rw [Axis.weight_eq h.hasSamples, fraction, h.clampedValue_source ht hx, Int.fract_natCast,
    Magnitude.ofRat_of_nonpos le_rfl]
  rfl

end Axis.KeepsLength

/-- The axes of a source that is resized to its own lengths, by scales of one. -/
theorem Axis.keepsLength_of_mem_ofLists {inLens : List ℕ}
    (h : ∀ len ∈ inLens, 0 < len ∧ len ≤ maxRoot) :
    ∀ a ∈ ofLists inLens inLens (List.replicate inLens.length .one), a.KeepsLength := by
  induction inLens with
  | nil => nofun
  | cons len inLens ih =>
    obtain ⟨⟨hpos, hmax⟩, hrest⟩ := List.forall_mem_cons.1 h
    exact List.forall_mem_cons.2 ⟨⟨hpos, hmax, rfl, rfl⟩, ih hrest⟩

/-! ## Tensors of unchanged lengths -/

theorem map_range_eq_self {f : ℕ → ℕ} {n : ℕ} (h : ∀ i < n, f i = i) :
    (List.range n).map f = List.range n := by
  conv_rhs => rw [← List.map_id (List.range n)]
  apply List.map_congr_left
  intro i hi
  exact h i (List.mem_range.1 hi)

/-- The remainders by `n` run through the numbers below `n`, over and over. -/
theorem map_mod_range (blocks n : ℕ) :
    (List.range (blocks * n)).map (· % n) =
      (List.replicate blocks (List.range n)).flatten := by
  induction blocks with
  | zero => rw [Nat.zero_mul]; rfl
  | succ blocks ih =>
    have hblock : (List.range n).map ((· % n) ∘ (blocks * n + ·)) = List.range n := by
      apply map_range_eq_self
      intro i hi
      simp [Nat.mod_eq_of_lt hi]
    rw [Nat.succ_mul, List.range_add, List.map_append, List.map_map, hblock, ih,
      List.replicate_succ', List.flatten_append, List.flatten_singleton]

theorem doubled_replicate {α : Type} (d n : ℕ) (x : α) :
    doubled d (List.replicate n x) = List.replicate (2 ^ d * n) x := by
  induction d generalizing n with
  | zero => rw [Nat.pow_zero, Nat.one_mul]; rfl
  | succ d ih =>
    rw [doubled, List.replicate_append_replicate, ih, Nat.pow_succ, Nat.mul_assoc, Nat.two_mul]

section Kept

variable {axes : List Axis} {t : CoordinateTransform} {m : NearestMode} {coords : List ℕ}
  (haxes : ∀ a ∈ axes, a.KeepsLength)
include haxes

theorem map_outLen_eq_map_inLen : axes.map Axis.outLen = axes.map Axis.inLen :=
  List.map_congr_left fun a ha => (haxes a ha).outLen_eq

variable (ht : t ≠ .tfHalfPixelForNn)
include ht

theorem nearest_getElem_eq_self (m : NearestMode) (hcoords : InRange (axes.map Axis.outLen) coords)
    {d : ℕ} (hd : d < axes.length) (hd' : d < coords.length) :
    axes[d].nearest t m coords[d] = coords[d] := by
  have hlt := hcoords.getD_lt (d := d) (by simpa using hd)
  rw [List.getD_eq_getElem _ _ hd', List.getElem_map] at hlt
  exact (haxes _ (List.getElem_mem hd)).nearest_eq ht m hlt

/-- The sample nearest to an element is the element itself. -/
theorem nearestCoordinates_eq_self (hcoords : InRange (axes.map Axis.outLen) coords) :
    nearestCoordinates t m axes coords = coords := by
  have hlength : coords.length = axes.length := hcoords.length_eq.trans (List.length_map _)
  apply List.ext_getElem
  · simp [nearestCoordinates, hlength]
  · intro d _ hd
    simpa [nearestCoordinates] using nearest_getElem_eq_self haxes ht m hcoords (hlength ▸ hd) hd

/-- So is every corner. -/
theorem cornerCoordinates_eq_self (corner : ℕ) (hcoords : InRange (axes.map Axis.outLen) coords) :
    cornerCoordinates t axes corner coords = coords := by
  have hlength : coords.length = axes.length := hcoords.length_eq.trans (List.length_map _)
  apply List.ext_getElem
  · simp [cornerCoordinates, hlength]
  · intro d _ hd
    simpa [cornerCoordinates] using nearest_getElem_eq_self haxes ht _ hcoords (hlength ▸ hd) hd

variable (hcount : count (axes.map Axis.inLen) < Word.modulus)
include hcount

/-- The positions that a nearest resize gathers are those of the source, in order. -/
theorem nearestOffsets_eq_range :
    nearestOffsets t m axes = List.range (count (axes.map Axis.inLen)) := by
  have hout := map_outLen_eq_map_inLen haxes
  rw [nearestOffsets_eq_map, hout, elements_eq_count hcount]
  apply map_range_eq_self
  intro flat hflat
  have hrange := inRange_coordinates hflat
  rw [nearestStored, hout, nearestCoordinates_eq_self haxes ht (hout ▸ hrange),
    offset_coordinates hcount hflat]

/-- So are those of every block of corners. -/
theorem map_stored_eq_flatten :
    (List.range (2 ^ axes.length * count (axes.map Axis.inLen))).map
        ((CornerTable.build t axes).stored (axes.map Axis.inLen)) =
      (List.replicate (2 ^ axes.length) (List.range (count (axes.map Axis.inLen)))).flatten := by
  have hout := map_outLen_eq_map_inLen haxes
  have helements : (CornerTable.build t axes).elements = count (axes.map Axis.inLen) := by
    rw [CornerTable.elements_build, hout, elements_eq_count hcount]
  rw [← map_mod_range]
  apply List.map_congr_left
  intro k hk
  have hflat : k % count (axes.map Axis.inLen) < count (axes.map Axis.inLen) := by
    apply Nat.mod_lt
    apply Nat.pos_of_ne_zero
    intro hzero
    rw [hzero, Nat.mul_zero] at hk
    cases hk
  have hrange := inRange_coordinates hflat
  rw [CornerTable.stored, helements, CornerTable.point_build _ (helements.symm ▸ hflat), hout,
    cornerCoordinates_eq_self haxes ht _ (hout ▸ hrange), offset_coordinates hcount hflat]

/-- No sample above has a weight. -/
theorem weight_eq_replicate {corners : AxisCorners}
    (hcorners : corners ∈ (CornerTable.build t axes).axes) :
    corners.weight = List.replicate (count (axes.map Axis.inLen)) .zero := by
  have hout := map_outLen_eq_map_inLen haxes
  have hlength := (CornerTable.length_of_mem_build hcorners).2.2
  rw [CornerTable.elements_build, hout, elements_eq_count hcount] at hlength
  rw [List.eq_replicate_iff]
  refine ⟨hlength, ?_⟩
  intro w hw
  simp only [CornerTable.build, List.mem_map] at hcorners
  obtain ⟨⟨a, d⟩, had, rfl⟩ := hcorners
  obtain ⟨hd, ha⟩ := List.mem_zipIdx' had
  have hkeeps := haxes a (ha ▸ List.getElem_mem hd)
  simp only [positions_eq_map, List.map_map, List.mem_map, hout, elements_eq_count hcount] at hw
  obtain ⟨flat, hflat, rfl⟩ := hw
  have hlt := (inRange_coordinates (List.mem_range.1 hflat)).getD_lt (d := d) (by simpa using hd)
  rw [List.getElem_map, ← ha, ← hkeeps.outLen_eq] at hlt
  exact hkeeps.weight_eq_zero ht hlt

end Kept

/-! ## Scales of one -/

/-- The node asks for the lengths of its source, by integers or by scales that are all one. Where
there are no dimensions, it cannot ask for anything else. -/
inductive KeepsLengths (m : AttributeMap) (args : List Argument) : List ℕ → Prop where
  | scalar : KeepsLengths m args []
  | ofAttribute {inLens : List ℕ}
      (hscales : m.get? "scales" = some (.floats (List.replicate inLens.length .one))) :
      KeepsLengths m args inLens
  | ofLens {a : Argument} {v : Literal} {inLens : List ℕ} (hscales : m.LacksScales)
      (ha : decidingArgument? args = some a) (htype : a.shape.elementType.isInteger)
      (hvalue : a.value = some v) (hlens : v.toLengths = inLens) : KeepsLengths m args inLens
  | ofScales {a : Argument} {v : Literal} {inLens : List ℕ} (hscales : m.LacksScales)
      (ha : decidingArgument? args = some a) (htype : a.shape.elementType.isInteger = false)
      (hleading : a.shape.dims.head? = some (.known inLens.length)) (hvalue : a.value = some v)
      (hvalues : v.toDoubles = List.replicate inLens.length .one) : KeepsLengths m args inLens

section Scales

variable {m : AttributeMap} {data : Argument} {rest : List Argument} {inLens outLens : List ℕ}
  {scales : List Binary64} {source : Option NodeId} {tag : String}
  (hlens : ∀ len ∈ inLens, 0 < len ∧ len ≤ maxRoot)
include hlens

/-- The scales between the same lengths are one. -/
theorem zipWith_scaleBetween_self :
    List.zipWith scaleBetween inLens inLens = List.replicate inLens.length .one := by
  rw [List.zipWith_self, List.map_eq_replicate_iff]
  intro len hlen
  obtain ⟨hpos, hmax⟩ := hlens len hlen
  have hlt : 1 * len < maxLength := by
    rw [Nat.one_mul]
    exact hmax.trans_lt (by decide)
  have hdiv := ofNat_mul_div_ofNat hpos (hmax.trans (by decide)) hlt
  rwa [Nat.one_mul] at hdiv

/-- A scale of one leaves a length as it is. -/
theorem Resolution.truncatedLens_one :
    truncatedLens inLens (List.replicate inLens.length .one) = inLens := by
  induction inLens with
  | nil => rfl
  | cons len inLens ih =>
    obtain ⟨⟨-, hmax⟩, hrest⟩ := List.forall_mem_cons.1 hlens
    have hlen : len ≤ maxLength := hmax.trans (by decide)
    have hproduct : (ofNat .binary64 len * .one : Binary64) = .ofNat .binary64 len := by
      rw [one, ofNat_mul_ofNat hlen (by decide), Nat.mul_one]
    have hfirst : (ofNat .binary64 len * .one : Binary64).toWord = len := by
      rw [hproduct, toWord_ofNat hlen]
    exact congrArg₂ List.cons hfirst (ih hrest)

theorem Resolution.ofGivenScales_one (source : Option NodeId) :
    ofGivenScales inLens (List.replicate inLens.length .one) source tag =
      .ok (.constant (List.replicate inLens.length .one) inLens source) := by
  rw [ofGivenScales, if_pos List.length_replicate, truncatedLens_one hlens]

namespace KeepsLengths

variable (h : KeepsLengths m (data :: rest) inLens)
include h

theorem resolve_eq (hrank : inLens ≠ []) :
    ∃ source, Resolution.resolve m (data :: rest) inLens tag =
      .ok (.constant (List.replicate inLens.length .one) inLens source) := by
  have hlength : inLens.length ≠ 0 := mt List.length_eq_zero_iff.1 hrank
  cases h with
  | scalar => exact absurd rfl hrank
  | ofAttribute hscales =>
    have hone : (one : Binary32).convert .binary64 = .one := by decide +kernel
    have hvalues : List.replicate inLens.length (one : Binary32) ≠ [] :=
      mt (List.replicate_eq_nil_iff _).1 hlength
    refine ⟨none, Resolution.resolve_eq_iff_otherNodes.2 ?_⟩
    rw [← Resolution.ofGivenScales_one hlens, ← hone, ← List.map_replicate]
    exact .attributeScales hscales hvalues
  | @ofLens a v _ hscales ha htype hvalue hsizes =>
    have hnumber : v.buffer.length = inLens.length := by
      rw [← hsizes]
      exact (Buffer.length_toLengths _).symm
    have hresolve := Resolution.resolve_of_lens hscales ha htype
      ⟨hvalue, hnumber.trans_ne hlength⟩ hnumber tag
    rw [hsizes, zipWith_scaleBetween_self hlens] at hresolve
    exact ⟨_, hresolve⟩
  | @ofScales a v _ hscales ha htype hleading hvalue hvalues =>
    have hnumber : v.buffer.length = inLens.length := by
      rw [← Buffer.length_toDoubles]
      exact (congrArg List.length hvalues).trans List.length_replicate
    refine ⟨some a.id, Resolution.resolve_eq_iff_otherNodes.2 ?_⟩
    rw [← Resolution.ofGivenScales_one hlens, ← hvalues]
    exact .scales (decides_of_decidingArgument? hscales ha) htype hleading
      ⟨hvalue, hnumber.trans_ne hlength⟩

/-- Where scales and lengths are known, they are these. -/
theorem eq_of_resolve
    (hresolution : Resolution.resolve m (data :: rest) inLens tag =
      .ok (.constant scales outLens source)) :
    scales = List.replicate inLens.length .one ∧ outLens = inLens := by
  by_cases hrank : inLens = []
  · obtain ⟨hscales, hout⟩ := Resolution.length_of_resolve hresolution
    subst hrank
    rw [List.eq_nil_of_length_eq_zero hscales, List.eq_nil_of_length_eq_zero hout]
    exact ⟨rfl, rfl⟩
  · obtain ⟨_, hresolve⟩ := h.resolve_eq hlens hrank
    rw [hresolve] at hresolution
    cases hresolution
    exact ⟨rfl, rfl⟩

end KeepsLengths

end Scales

/-! ## Plans of unchanged lengths -/

namespace ResizePlan

variable {axes : List Axis} {data : NodeId} {settings : ResizeSettings} {plan : ResizePlan}
  (haxes : ∀ a ∈ axes, a.KeepsLength) (ht : settings.transform ≠ .tfHalfPixelForNn)
  (hcount : count (axes.map Axis.inLen) < 2 ^ 60)
include haxes ht hcount

/-- A nearest resize gathers every element from its own place. -/
theorem forNearest_of_keepsLength :
    ∃ indices, forNearest data settings axes =
        .nearest data (count (axes.map Axis.inLen)) indices ∧
      indices.lens = axes.map Axis.inLen ∧
      indices.buffer.integers =
        (List.range (count (axes.map Axis.inLen))).map (Nat.cast : ℕ → ℤ) := by
  have hword : count (axes.map Axis.inLen) < Word.modulus := hcount.trans (by decide)
  rw [forNearest, elements_eq_count hword, map_outLen_eq_map_inLen haxes,
    nearestOffsets_eq_range haxes ht hword]
  refine ⟨_, rfl, lens_indexLiteral _ _ _, ?_⟩
  exact integers_indexLiteral _ (hcount.trans (by decide)) fun k => List.mem_range.1

/-- A linear resize gathers every element from its own place, once for every corner, and adds
nothing of the difference between two corners. -/
theorem forLinear_of_keepsLength {tag : String}
    (h : forLinear data settings axes tag = .ok plan) :
    ∃ indices blend, plan = .linear data (count (axes.map Axis.inLen)) indices blend ∧
      indices.buffer.integers = (List.replicate (2 ^ axes.length)
        (List.range (count (axes.map Axis.inLen)))).flatten.map (Nat.cast : ℕ → ℤ) ∧
      blend.length = axes.length ∧
      ∀ step ∈ blend, step.weights.buffer =
        .float32 (List.replicate (count step.weights.lens) .zero) := by
  have hword : count (axes.map Axis.inLen) < Word.modulus := hcount.trans (by decide)
  obtain ⟨-, -, -, rfl⟩ := forLinear_eq_ok.1 h
  rw [map_outLen_eq_map_inLen haxes, elements_eq_count hword,
    map_stored_eq_flatten haxes ht hword]
  refine ⟨_, _, rfl, ?_, ?_, ?_⟩
  · apply integers_indexLiteral _ (hcount.trans (by decide))
    intro k hk
    obtain ⟨block, hblock, hmem⟩ := List.mem_flatten.1 hk
    rw [List.eq_of_mem_replicate hblock] at hmem
    exact List.mem_range.1 hmem
  · simp [blendSteps, CornerTable.build]
  · intro step hstep
    simp only [blendSteps, List.mem_map, List.mem_reverse] at hstep
    obtain ⟨⟨corners, d⟩, hmem, rfl⟩ := hstep
    have hcorners := List.fst_mem_of_mem_zipIdx hmem
    have hrank : axes.map Axis.inLen ≠ [] := by
      rintro hnil
      rw [List.map_eq_nil_iff] at hnil
      subst hnil
      cases hcorners
    rw [weight_eq_replicate haxes ht hword hcorners, doubled_replicate, count_stackLens hrank]

end ResizePlan

section Node

variable {o : Operator} {data : Argument} {rest : List Argument} {settings : ResizeSettings}
  {inLens : List ℕ} (hstatic : data.shape.lens? = some inLens)
  (hlens : ∀ len ∈ inLens, 0 < len ∧ len ≤ maxRoot)
  (hsettings : ResizeSettings.resolve o = .ok settings)
  (hkeeps : KeepsLengths o.attributes (data :: rest) inLens)
include hstatic hlens hsettings hkeeps

/-- What a plan of known lengths is made of, if these are the lengths of the source. -/
theorem ResizePlan.Precomputed.eq_of_keepsLengths {settings' : ResizeSettings} {a : Argument}
    {inLens' outLens : List ℕ} {scales : List Binary64}
    (h : Precomputed o (data :: rest) settings' a inLens' outLens scales) :
    settings' = settings ∧ a = data ∧ inLens' = inLens ∧ outLens = inLens ∧
      scales = List.replicate inLens.length .one := by
  have ha : data = a := Option.some.inj h.data_eq
  subst ha
  have hin : inLens' = inLens := Option.some.inj (h.lens_eq.symm.trans hstatic)
  subst hin
  obtain ⟨origin, hresolution⟩ := h.resolution_eq
  obtain ⟨hscales, hout⟩ := hkeeps.eq_of_resolve hlens hresolution
  exact ⟨Except.ok.inj (h.settings_eq.symm.trans hsettings), rfl, rfl, hout, hscales⟩

/-- The output is not too large, so precomputed positions of a nearest resize are planned. -/
theorem ResizePlan.planResize_of_keepsLengths (hrank : inLens ≠ [])
    (hcount : count inLens < 2 ^ 60) (hnearest : settings.interpolation = .nearest) :
    planResize o (data :: rest) ⟨true⟩ = .ok (forNearest data.id settings
      (Axis.ofLists inLens inLens (List.replicate inLens.length .one))) := by
  have houtput : checkOutput inLens o.tag = .ok () := by
    rw [checkOutput_eq_ok]
    refine ⟨fun k _ => ?_, Nat.le_of_lt_succ hcount⟩
    exact (count_take_le (fun len hlen => (hlens len hlen).1) k).trans_lt
      (hcount.trans (by decide))
  obtain ⟨source, hresolution⟩ := hkeeps.resolve_eq hlens hrank
  rw [planResize_of_constant hsettings rfl hstatic hresolution, hnearest]
  simp only [houtput]
  rfl

end Node

/-- Resizing to the lengths of the source is the identity, with any rounding and in every coordinate
mode but the one with output centres over source edges. With precomputed positions a nearest resize
succeeds if there are dimensions, and whenever it does, it gathers the elements in order. A linear
resize gathers them in order for each of its corners, and all of its weights are zero. -/
theorem planResize_keepsLengths {o : Operator} {data : Argument} {rest : List Argument}
    {settings : ResizeSettings} {inLens : List ℕ} (hstatic : data.shape.lens? = some inLens)
    (hlens : ∀ len ∈ inLens, 0 < len ∧ len ≤ maxRoot) (hcount : count inLens < 2 ^ 60)
    (hsettings : ResizeSettings.resolve o = .ok settings)
    (ht : settings.transform ≠ .tfHalfPixelForNn)
    (hkeeps : KeepsLengths o.attributes (data :: rest) inLens) :
    (settings.interpolation = .nearest → inLens ≠ [] → ∃ node total indices,
      planResize o (data :: rest) ⟨true⟩ = .ok (.nearest node total indices)) ∧
    (∀ lowering node total indices,
      planResize o (data :: rest) lowering = .ok (.nearest node total indices) →
        total = count inLens ∧ indices.lens = inLens ∧
        indices.buffer.integers = (List.range (count inLens)).map (Nat.cast : ℕ → ℤ)) ∧
    (settings.interpolation = .linear → ∀ lowering plan,
      planResize o (data :: rest) lowering = .ok plan → ∃ indices blend,
        plan = .linear data.id (count inLens) indices blend ∧
        indices.buffer.integers = (List.replicate (2 ^ inLens.length)
          (List.range (count inLens))).flatten.map (Nat.cast : ℕ → ℤ) ∧
        blend.length = inLens.length ∧
        ∀ step ∈ blend, step.weights.buffer =
          .float32 (List.replicate (count step.weights.lens) .zero)) := by
  have haxes := Axis.keepsLength_of_mem_ofLists hlens
  have hmapIn : (Axis.ofLists inLens inLens (List.replicate inLens.length .one)).map Axis.inLen =
    inLens := Axis.map_inLen_ofLists _ rfl
  have hmapCount := hcount
  rw [← hmapIn] at hmapCount
  refine ⟨?_, ?_, ?_⟩
  · intro hnearest hrank
    exact ⟨_, _, _,
      ResizePlan.planResize_of_keepsLengths hstatic hlens hsettings hkeeps hrank hcount hnearest⟩
  · intro lowering node total indices hplan
    obtain ⟨settings', a, inLens', outLens, scales, hmade, hnearest⟩ := planResize_eq_nearest hplan
    obtain ⟨rfl, rfl, rfl, rfl, rfl⟩ :=
      hmade.eq_of_keepsLengths hstatic hlens hsettings hkeeps
    obtain ⟨indices', hplan', hindices⟩ :=
      @ResizePlan.forNearest_of_keepsLength _ node settings' haxes ht hmapCount
    rw [hplan', ResizePlan.nearest.injEq, hmapIn] at hnearest
    obtain ⟨-, rfl, rfl⟩ := hnearest
    rw [hmapIn] at hindices
    exact ⟨rfl, hindices⟩
  · intro hlinear lowering plan hplan
    obtain ⟨settings', _, _, hsettings', hnearest, -⟩ |
      ⟨settings', a, inLens', outLens, scales, hmade, h⟩ := ResizePlan.planResize_eq_ok hplan
    · rw [hsettings, Except.ok.injEq] at hsettings'
      rw [← hsettings', hlinear] at hnearest
      cases hnearest
    · obtain ⟨rfl, rfl, rfl, rfl, rfl⟩ :=
        hmade.eq_of_keepsLengths hstatic hlens hsettings hkeeps
      obtain ⟨hnearest, -⟩ | ⟨-, hforLinear⟩ := h
      · rw [hlinear] at hnearest
        cases hnearest
      · have hblocks := ResizePlan.forLinear_of_keepsLength haxes ht hmapCount hforLinear
        rwa [hmapIn, Axis.length_ofLists] at hblocks

/-- Two rows of three samples with their own lengths as sizes. -/
theorem planResize_keepsLengths_two_three :
    let args : List Argument := [.ofShape 0 (.ofLens .float32 [2, 3]) none,
      .ofShape 1 (.ofLens .int64 [2]) (some ⟨[2], .int64 [2, 3]⟩)]
    let corners : Operator := ⟨"Resize", .ofList [("mode", .string "linear"),
      ("coordinate_transformation_mode", .string "align_corners")]⟩
    (∃ node total indices, planResize ⟨"Resize", .empty⟩ args ⟨true⟩ =
        .ok (.nearest node total indices) ∧
      indices.lens = [2, 3] ∧ indices.buffer.integers = [0, 1, 2, 3, 4, 5]) ∧
    ∃ indices weights weights', planResize corners args ⟨false⟩ =
        .ok (.linear 0 6 indices [⟨4, weights⟩, ⟨2, weights'⟩]) ∧
      indices.buffer.integers = [0, 1, 2, 3, 4, 5, 0, 1, 2, 3, 4, 5, 0, 1, 2, 3, 4, 5, 0, 1, 2, 3,
        4, 5] ∧
      weights.buffer = .float32 (List.replicate 12 .zero) ∧
      weights'.buffer = .float32 (List.replicate 6 .zero) := by
  intro args corners
  have hlens : ∀ len ∈ [2, 3], 0 < len ∧ len ≤ maxRoot := by decide
  have hkeeps (m : AttributeMap) (hscales : m.LacksScales) : KeepsLengths m args [2, 3] :=
    @KeepsLengths.ofLens m args args[1] ⟨[2], .int64 [2, 3]⟩ [2, 3] hscales rfl rfl rfl rfl
  constructor
  · obtain ⟨hplanned, hplan, -⟩ := @planResize_keepsLengths ⟨"Resize", .empty⟩ args[0] args.tail
      ⟨.nearest, .halfPixel, .roundPreferFloor, false⟩ [2, 3] rfl hlens (by decide) rfl nofun
      (hkeeps _ (.inl rfl))
    obtain ⟨node, total, indices, hnearest⟩ := hplanned rfl (List.cons_ne_nil _ _)
    obtain ⟨-, hindices⟩ := hplan _ _ _ _ hnearest
    exact ⟨node, total, indices, hnearest, hindices⟩
  · have hplanned : planResize corners args ⟨false⟩ = .ok (.linear 0 6
        ⟨[8, 3], .int32 (List.replicate 4 [0, 1, 2, 3, 4, 5]).flatten⟩
        [⟨4, ⟨[4, 3], .float32 (List.replicate 12 .zero)⟩⟩,
          ⟨2, ⟨[2, 3], .float32 (List.replicate 6 .zero)⟩⟩]) := by decide +kernel
    obtain ⟨-, -, hplan⟩ := @planResize_keepsLengths corners args[0] args.tail
      ⟨.linear, .alignCorners, .roundPreferFloor, false⟩ [2, 3] rfl hlens (by decide)
      (by decide +kernel) nofun (hkeeps _ (.inl (by decide +kernel)))
    obtain ⟨indices, blend, hlinear, hindices, -, hweights⟩ := hplan rfl _ _ hplanned
    cases hlinear
    obtain ⟨hlast, hweights⟩ := List.forall_mem_cons.1 hweights
    obtain ⟨hfirst, -⟩ := List.forall_mem_cons.1 hweights
    exact ⟨_, _, _, hplanned, hindices, hlast, hfirst⟩

end TensorResize
