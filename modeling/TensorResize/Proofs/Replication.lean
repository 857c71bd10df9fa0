import TensorResize.Proofs.NearestResize

/-!
# Enlarging by a whole factor

An axis that is enlarged by a whole factor repeats each sample that many times, in order. This holds
of sample centres with halves rounded down, which are the defaults, and of left edges rounded down.
Of the steps to a source coordinate only the division can have an error. The exact quotient is
farther from the next sample than that error, and a quotient that is a sample itself has none.

## Main definitions

* `Axis.IsEnlarged` — the axes that are enlarged by a whole factor.
* `ResizeSettings.Replicates` — the settings that repeat samples.
-/

namespace TensorResize

open Binary RowMajor

/-! ## Quotients of lengths -/

/-- A whole or half number divided by a length is off by less than half of the part. -/
theorem quotient_error {p k : ℕ} (hp : p < 2 * maxLength) (hk : 0 < k) (hmax : k ≤ maxLength) :
    |(Magnitude.ofRat .binary64 (p / 2 / k)).toRat - p / 2 / k| < 1 / (2 * k) := by
  have hk' : (0 : ℚ) < k := by exact_mod_cast hk
  have hk1 : (1 : ℚ) ≤ k := by exact_mod_cast hk
  have hp' : (p : ℚ) / 2 < maxLength := by
    rw [div_lt_iff₀ two_pos, mul_comm]
    exact_mod_cast hp
  have hle : (p : ℚ) / 2 / k ≤ maxLength :=
    (div_le_self (by positivity) hk1).trans hp'.le
  have hcode : (Magnitude.ofRat .binary64 (p / 2 / k)).code < Format.binary64.infinityCode :=
    (Magnitude.ofRat_mono hle).trans_lt (natMagnitude_spec (by omega)).1
  rcases Nat.eq_zero_or_pos p with rfl | hpos
  · rw [Nat.cast_zero, zero_div, zero_div, Magnitude.ofRat_of_nonpos le_rfl, Magnitude.toRat_zero,
      sub_zero, abs_zero]
    positivity
  · have hnormal : Format.binary64.hiddenBit * Format.binary64.spacing 0 ≤ (p : ℚ) / 2 / k := by
      have hsmall : Format.binary64.hiddenBit * Format.binary64.spacing 0 ≤ 1 / 2 / maxLength := by
        decide +kernel
      have hp1 : (1 : ℚ) ≤ p := by exact_mod_cast hpos
      have hmax' : (k : ℚ) ≤ maxLength := by exact_mod_cast hmax
      refine hsmall.trans ?_
      gcongr
    have hbit : (Format.binary64.hiddenBit : ℚ) = maxLength := rfl
    calc |(Magnitude.ofRat .binary64 (p / 2 / k)).toRat - p / 2 / k|
        ≤ p / 2 / k / (2 * maxLength) := hbit ▸ Magnitude.abs_error_le_div hnormal hcode
      _ = p / 2 / maxLength * (1 / (2 * k)) := by field_simp
      _ < 1 / (2 * k) := by
        apply mul_lt_of_lt_one_left (by positivity)
        rwa [div_lt_one (by norm_num [maxLength])]

/-- A whole or half number divided by a length is the number nearest to the exact quotient. -/
theorem number_div_ofNat {p k : ℕ} {e : Magnitude .binary64} (he : e.toRat = p / 2)
    (hp : p < 2 * maxLength) (hk : 0 < k) (hmax : k ≤ maxLength) :
    (number false e / .ofNat .binary64 k : Binary64) =
      .number false (.ofRat .binary64 (p / 2 / k)) := by
  have hp' : e.toRat ≤ maxLength := by
    rw [he, div_le_iff₀ two_pos, mul_comm]
    exact_mod_cast hp.le
  obtain ⟨hfin, hval⟩ := natMagnitude_spec (n := k) (by omega)
  have hcode : (natMagnitude k).code ≠ 0 := by
    rw [Ne, ← Magnitude.toRat_eq_zero, hval]
    exact_mod_cast hk.ne'
  rw [← he, ← hval]
  exact number_div_eq (isInfinite_of_le (by omega) hp') (isInfinite_eq_false hfin) hcode

/-- The centre of an output coordinate is a double-precision number. -/
theorem exists_ofNat_add_half_eq {x : ℕ} (hx : x < maxLength) :
    ∃ e : Magnitude .binary64, (.ofNat .binary64 x + .half : Binary64) = .number false e ∧
      e.toRat = (2 * x + 1 : ℕ) / 2 := by
  obtain ⟨h, hhalf, hhalfFinite, hhalfValue⟩ := half_eq
  obtain ⟨hfin, hval⟩ := natMagnitude_spec (n := x) (by omega)
  obtain ⟨-, hcentre⟩ := Magnitude.code_ofRat_natCast_mul (f := .binary64) (n := 2 * x + 1)
    (z := -1) (show 2 * x + 1 ≤ 2 * maxLength by omega) (by decide) (by decide)
  rw [zpow_neg_one, ← div_eq_mul_inv] at hcentre
  refine ⟨_, ?_, hcentre⟩
  rw [hhalf]
  apply add_eq_of_toRat (isInfinite_eq_false hfin) hhalfFinite
  rw [hcentre, hval, hhalfValue]
  push_cast
  ring

/-- The centre of the part `x` of a sample is at least half of a part away from both ends. -/
theorem centre_mem {k : ℕ} (hk : 0 < k) (x : ℕ) :
    ((x / k : ℕ) : ℚ) + 1 / (2 * k) ≤ (2 * x + 1 : ℕ) / 2 / k ∧
      ((2 * x + 1 : ℕ) : ℚ) / 2 / k ≤ (x / k : ℕ) + 1 - 1 / (2 * k) := by
  have hk' : (0 : ℚ) < k := by exact_mod_cast hk
  have hlow : ((x / k : ℕ) : ℚ) * k ≤ x := by exact_mod_cast Nat.div_mul_le_self x k
  have hhigh : (x : ℚ) + 1 ≤ ((x / k : ℕ) + 1) * k := by
    exact_mod_cast Nat.lt_mul_of_div_lt (Nat.lt_succ_self _) hk
  push_cast
  constructor
  · rw [div_div, le_div_iff₀ (by positivity), add_mul, one_div_mul_cancel (by positivity)]
    linarith
  · rw [div_div, div_le_iff₀ (by positivity), sub_mul, one_div_mul_cancel (by positivity)]
    linarith

section Rounded

variable {k x : ℕ} (hk : 0 < k) (hmax : k ≤ maxLength) (hx : x < maxLength)
include hk hmax hx

/-- The error of the division does not take a centre out of the sample it is in. -/
theorem rounded_centre_mem :
    (x / k : ℕ) < (Magnitude.ofRat .binary64 ((2 * x + 1 : ℕ) / 2 / k)).toRat ∧
      (Magnitude.ofRat .binary64 ((2 * x + 1 : ℕ) / 2 / k)).toRat < (x / k : ℕ) + 1 := by
  obtain ⟨herror, herror'⟩ := abs_lt.1 (quotient_error (p := 2 * x + 1) (by omega) hk hmax)
  obtain ⟨hlow, hhigh⟩ := centre_mem hk x
  exact ⟨by linarith, by linarith⟩

/-- The error of the division does not take a left edge out of the sample it is in: where it is the
edge of that sample too, there is no error. -/
theorem rounded_edge_mem :
    (x / k : ℕ) ≤ (Magnitude.ofRat .binary64 ((2 * x : ℕ) / 2 / k)).toRat ∧
      (Magnitude.ofRat .binary64 ((2 * x : ℕ) / 2 / k)).toRat < (x / k : ℕ) + 1 := by
  obtain ⟨herror, herror'⟩ := abs_lt.1 (quotient_error (p := 2 * x) (by omega) hk hmax)
  obtain ⟨hlow, hhigh⟩ := centre_mem hk x
  have hcentre : ((2 * x : ℕ) : ℚ) / 2 / k + 1 / (2 * k) = (2 * x + 1 : ℕ) / 2 / k := by
    push_cast
    field_simp
  constructor
  · have hle : x / k ≤ x := Nat.div_le_self x k
    obtain ⟨-, hexact⟩ := natMagnitude_spec (n := x / k) (by omega)
    rw [← hexact, Magnitude.toRat_le_toRat_iff]
    exact Magnitude.ofRat_mono (by linarith)
  · linarith

end Rounded

/-! ## Enlarged axes -/

/-- The axis is enlarged by the factor `k`, which is its scale, and its output coordinates are
numbered in double precision. -/
structure Axis.IsEnlarged (a : Axis) (k : ℕ) : Prop where
  inLen_pos : 0 < a.inLen
  factor_pos : 0 < k
  outLen_eq : a.outLen = k * a.inLen
  outLen_le : a.outLen ≤ maxLength
  scale_eq : a.scale = .ofNat .binary64 k

namespace Axis.IsEnlarged

variable {a : Axis} {k x : ℕ}

theorem hasSamples (h : a.IsEnlarged k) : a.HasSamples := by
  refine ⟨h.inLen_pos, le_trans ?_ h.outLen_le⟩
  rw [h.outLen_eq]
  exact Nat.le_mul_of_pos_left _ h.factor_pos

theorem factor_le (h : a.IsEnlarged k) : k ≤ maxLength := by
  refine le_trans ?_ h.outLen_le
  rw [h.outLen_eq]
  exact Nat.le_mul_of_pos_right _ h.inLen_pos

theorem div_lt (h : a.IsEnlarged k) (hx : x < a.outLen) : x / k < a.inLen :=
  Nat.div_lt_of_lt_mul (h.outLen_eq ▸ hx)

/-- With sample centres, a coordinate is less than one half away from the sample it repeats. -/
theorem nearest_halfPixel (h : a.IsEnlarged k) (hx : x < a.outLen) :
    a.nearest .halfPixel .roundPreferFloor x = x / k := by
  have hlast := h.div_lt hx
  have hxmax : x < maxLength := hx.trans_le h.outLen_le
  obtain ⟨e, hcentre, he⟩ := exists_ofNat_add_half_eq hxmax
  have hsource : a.source .halfPixel x =
      .number false (.ofRat .binary64 ((2 * x + 1 : ℕ) / 2 / k)) - .half := by
    rw [← number_div_ofNat he (by omega) h.factor_pos h.factor_le, ← hcentre, ← h.scale_eq]
    rfl
  obtain ⟨hlow, hhigh⟩ := rounded_centre_mem h.factor_pos h.factor_le hxmax
  generalize Magnitude.ofRat .binary64 ((2 * x + 1 : ℕ) / 2 / k) = q at hsource hlow hhigh
  generalize x / k = n at hlast hlow hhigh ⊢
  have hnear : (n : ℚ) - 1 / 2 < clampedValue a.inLen (a.source .halfPixel x) ∧
      clampedValue a.inLen (a.source .halfPixel x) < n + 1 / 2 := by
    have hqmax : q.toRat < maxLength := by
      have hn1 : (n : ℚ) + 1 ≤ maxLength := by exact_mod_cast hlast.trans_le h.hasSamples.2
      linarith
    rw [hsource]
    rcases sub_half_cases hqmax with ⟨hlt, d, hd⟩ | ⟨d, hd, hexact⟩
    · -- a coordinate below the first sample is clamped to it
      rw [hd, clampedValue_of_negative]
      have hn0 : (n : ℚ) < 1 := by linarith
      obtain rfl : n = 0 := Nat.lt_one_iff.1 (by exact_mod_cast hn0)
      norm_num
    · have hn' : (n : ℚ) ≤ (a.inLen - 1 : ℕ) := Nat.cast_le.2 (by omega)
      rw [hd, clampedValue_of_positive h.hasSamples.2, hexact, lt_min_iff, min_lt_iff]
      exact ⟨⟨by linarith, by linarith⟩, .inl (by linarith)⟩
  obtain ⟨hround, hround'⟩ :=
    NearestMode.roundPreferFloor.rounds_index h.hasSamples.2 (a.source .halfPixel x)
  change NearestMode.roundPreferFloor.index a.inLen (a.source .halfPixel x) = n
  exact le_antisymm (le_of_cast_lt_add_one (by linarith)) (le_of_cast_lt_add_one (by linarith))

/-- With left edges, a coordinate is at or above the sample it repeats, and below the next one. -/
theorem nearest_asymmetric (h : a.IsEnlarged k) (hx : x < a.outLen) :
    a.nearest .asymmetric .floor x = x / k := by
  have hlast := h.div_lt hx
  have hxmax : x < maxLength := hx.trans_le h.outLen_le
  have he : (natMagnitude x).toRat = (2 * x : ℕ) / 2 := by
    rw [(natMagnitude_spec (by omega)).2]
    push_cast
    ring
  have hsource : a.source .asymmetric x =
      .number false (.ofRat .binary64 ((2 * x : ℕ) / 2 / k)) := by
    rw [← number_div_ofNat he (by omega) h.factor_pos h.factor_le, ← h.scale_eq]
    rfl
  obtain ⟨hlow, hhigh⟩ := rounded_edge_mem h.factor_pos h.factor_le hxmax
  generalize Magnitude.ofRat .binary64 ((2 * x : ℕ) / 2 / k) = q at hsource hlow hhigh
  generalize x / k = n at hlast hlow hhigh ⊢
  have hnear : (n : ℚ) ≤ clampedValue a.inLen (a.source .asymmetric x) ∧
      clampedValue a.inLen (a.source .asymmetric x) < n + 1 := by
    have hn' : (n : ℚ) ≤ (a.inLen - 1 : ℕ) := Nat.cast_le.2 (by omega)
    rw [hsource, clampedValue_of_positive h.hasSamples.2, le_min_iff, min_lt_iff]
    exact ⟨⟨hlow, hn'⟩, .inl hhigh⟩
  obtain ⟨hround, hround'⟩ := NearestMode.floor.rounds_index h.hasSamples.2 (a.source .asymmetric x)
  change NearestMode.floor.index a.inLen (a.source .asymmetric x) = n
  exact le_antisymm (le_of_cast_lt_add_one (by linarith)) (le_of_cast_lt_add_one (by linarith))

end Axis.IsEnlarged

/-- The settings that repeat the samples of an enlarged axis. The defaults are of the first kind. -/
def ResizeSettings.Replicates (settings : ResizeSettings) : Prop :=
  settings.transform = .halfPixel ∧ settings.nearestMode = .roundPreferFloor ∨
    settings.transform = .asymmetric ∧ settings.nearestMode = .floor

theorem ResizeSettings.replicates_empty (type : String) :
    ∃ settings, resolve ⟨type, .empty⟩ = .ok settings ∧ settings.Replicates :=
  ⟨_, rfl, .inl ⟨rfl, rfl⟩⟩

variable {settings : ResizeSettings} {axes : List Axis} {factors : List ℕ}

/-- Every coordinate along an enlarged axis takes the sample that it is a part of. -/
theorem Axis.IsEnlarged.nearest_eq_div {a : Axis} {k x : ℕ} (h : a.IsEnlarged k)
    (hmode : settings.Replicates) (hx : x < a.outLen) :
    a.nearest settings.transform settings.nearestMode x = x / k := by
  rcases hmode with ⟨ht, hm⟩ | ⟨ht, hm⟩
  · rw [ht, hm, h.nearest_halfPixel hx]
  · rw [ht, hm, h.nearest_asymmetric hx]

/-- Each number is repeated `k` times in the quotients by `k`, in order. -/
theorem map_div_range {k : ℕ} (hk : 0 < k) (n : ℕ) :
    (List.range (k * n)).map (· / k) = (List.range n).flatMap (List.replicate k) := by
  induction n with
  | zero => rfl
  | succ n ih =>
    have hblock : (List.range k).map ((· / k) ∘ (k * n + ·)) = List.replicate k n := by
      rw [List.eq_replicate_iff]
      constructor
      · simp
      · intro q hq
        obtain ⟨r, hr, rfl⟩ := List.mem_map.1 hq
        simp [Nat.mul_add_div hk, Nat.div_eq_of_lt (List.mem_range.1 hr)]
    rw [Nat.mul_succ, List.range_add, List.map_append, List.map_map, hblock, ih,
      List.range_succ, List.flatMap_append, List.flatMap_singleton]

/-- The samples taken along an enlarged axis are those of the source, each repeated in order. -/
theorem Axis.IsEnlarged.map_nearest {a : Axis} {k : ℕ} (h : a.IsEnlarged k)
    (hmode : settings.Replicates) :
    (List.range a.outLen).map (a.nearest settings.transform settings.nearestMode) =
      (List.range a.inLen).flatMap (List.replicate k) := by
  rw [← map_div_range h.factor_pos, ← h.outLen_eq]
  apply List.map_congr_left
  intro x hx
  exact h.nearest_eq_div hmode (List.mem_range.1 hx)

/-! ## Enlarged tensors -/

section Enlarged

variable (haxes : List.Forall₂ Axis.IsEnlarged axes factors)
include haxes

/-- Along enlarged axes, the nearest source coordinates are the quotients by the factors. -/
theorem nearestCoordinates_eq_div (hmode : settings.Replicates) {coords : List ℕ}
    (hcoords : InRange (axes.map Axis.outLen) coords) :
    nearestCoordinates settings.transform settings.nearestMode axes coords =
      List.zipWith (· / ·) coords factors := by
  induction haxes generalizing coords with
  | nil => simp [nearestCoordinates]
  | cons ha haxes ih =>
    cases coords with
    | nil => rfl
    | cons x coords =>
      exact congrArg₂ List.cons (ha.nearest_eq_div hmode hcoords.1) (ih hcoords.2)

theorem hasSamples_of_isEnlarged : ∀ a ∈ axes, a.HasSamples := by
  induction haxes with
  | nil => simp
  | cons ha haxes ih => exact List.forall_mem_cons.2 ⟨ha.hasSamples, ih⟩

theorem count_inLen_le_count_outLen :
    count (axes.map Axis.inLen) ≤ count (axes.map Axis.outLen) := by
  induction haxes with
  | nil => exact le_rfl
  | cons ha haxes ih =>
    apply Nat.mul_le_mul _ ih
    rw [ha.outLen_eq]
    exact Nat.le_mul_of_pos_left _ ha.factor_pos

end Enlarged

/-- A nearest resize by whole factors repeats samples. With the default settings, or with left edges
rounded down, every coordinate along an axis takes its quotient by the factor, so that the samples
are taken in order, each as often as the factor says. The planned gather takes the elements at these
coordinates. -/
theorem ResizePlan.forNearest_replicates (haxes : List.Forall₂ Axis.IsEnlarged axes factors)
    (hmode : settings.Replicates) :
    List.Forall₂ (fun a k =>
      (∀ x < a.outLen, a.nearest settings.transform settings.nearestMode x = x / k) ∧
      (List.range a.outLen).map (a.nearest settings.transform settings.nearestMode) =
        (List.range a.inLen).flatMap (List.replicate k)) axes factors ∧
    ∀ data, count (axes.map Axis.outLen) ≤ Word.maxEntries → ∃ total indices,
      forNearest data settings axes = .nearest data total indices ∧
      indices.lens = axes.map Axis.outLen ∧
      indices.toLengths = (List.range (count (axes.map Axis.outLen))).map fun flat =>
        position (axes.map Axis.inLen)
          (List.zipWith (· / ·) (coordinates (axes.map Axis.outLen) flat) factors) := by
  refine ⟨haxes.imp fun a k h => ⟨fun x => h.nearest_eq_div hmode, h.map_nearest hmode⟩, ?_⟩
  intro data hout
  have hin := (count_inLen_le_count_outLen haxes).trans hout
  obtain ⟨hlens, hindices⟩ := @indices_forNearest axes data settings _ _
    (hasSamples_of_isEnlarged haxes) (hin.trans_lt (by decide)) (hout.trans_lt (by decide)) rfl
  refine ⟨_, _, rfl, hlens, hindices.trans ?_⟩
  apply List.map_congr_left
  intro flat hflat
  rw [nearestCoordinates_eq_div haxes hmode (inRange_coordinates (List.mem_range.1 hflat))]

/-- Two rows of four samples, made twice as wide with the default settings. -/
theorem ResizePlan.forNearest_replicates_four_to_eight :
    let axes : List Axis := [⟨2, 2, .ofNat .binary64 1⟩, ⟨4, 8, .ofNat .binary64 2⟩]
    ∃ settings total indices, ResizeSettings.resolve ⟨"Resize", .empty⟩ = .ok settings ∧
      forNearest 0 settings axes = .nearest 0 total indices ∧
      indices.toLengths = [0, 0, 1, 1, 2, 2, 3, 3, 4, 4, 5, 5, 6, 6, 7, 7] := by
  intro axes
  have haxes : List.Forall₂ Axis.IsEnlarged axes [1, 2] :=
    .cons ⟨by decide, by decide, rfl, by decide, rfl⟩
      (.cons ⟨by decide, by decide, rfl, by decide, rfl⟩ .nil)
  obtain ⟨settings, hdefault, hmode⟩ := ResizeSettings.replicates_empty "Resize"
  obtain ⟨total, indices, hplan, -, hindices⟩ :=
    (forNearest_replicates haxes hmode).2 0 (by decide)
  exact ⟨settings, total, indices, hdefault, hplan, hindices.trans (by decide)⟩

end TensorResize
