import TensorResize.Proofs.ExactArithmetic
import TensorResize.Sampling.Axis

/-!
# Samples of a coordinate

A clamped coordinate is a number from zero to the last sample, whatever the coordinate was. Each
rounding takes it to the sample that its name says, without an error: the halves that two of them
add or take away are exact. The bound on the length keeps the last sample a number of the format;
beyond it the length itself is already rounded.

## Main definitions

* `Binary.maxLength` — the bound on the length.
* `clampedValue` — the exact clamped coordinate.
* `NearestMode.Rounds` — the sample that a rounding has to yield.
* `Axis.HasSamples` — the axes that every rounding stays in.
-/

namespace TensorResize

namespace Binary

variable {f : Format}

/-! ## Natural numbers and halves in double precision -/

/-- The greatest length for which a sample and its neighbours are double-precision numbers. -/
def maxLength : ℕ := 2 ^ 52

/-- The double-precision magnitude of a natural number. -/
def natMagnitude (n : ℕ) : Magnitude .binary64 := .ofRat .binary64 n

theorem natMagnitude_spec {n : ℕ} (hn : n ≤ 2 * maxLength) :
    (natMagnitude n).code < Format.binary64.infinityCode ∧ (natMagnitude n).toRat = n :=
  Magnitude.code_ofRat_natCast Format.holdsUnits_binary64 hn

/-- A magnitude not above a natural number is finite. -/
theorem isInfinite_of_le {m : Magnitude .binary64} {n : ℕ} (hn : n ≤ 2 * maxLength)
    (h : m.toRat ≤ n) : m.isInfinite = false := by
  obtain ⟨hfin, hval⟩ := natMagnitude_spec hn
  rw [← hval, Magnitude.toRat_le_toRat_iff] at h
  exact isInfinite_eq_false (h.trans_lt hfin)

theorem half_eq : ∃ h : Magnitude .binary64, (half : Binary64) = .number false h ∧
    h.isInfinite = false ∧ h.toRat = 1 / 2 := by
  obtain ⟨hfin, hval⟩ := Magnitude.code_ofRat_natCast_mul (f := .binary64) (n := 1) (z := -1)
    (by decide) (by decide) (by decide)
  have hexact : ((1 : ℕ) : ℚ) * 2 ^ (-1 : ℤ) = 1 / 2 := by norm_num
  have hhalf : mkRat 1 2 = (1 / 2 : ℚ) := by norm_num [Rat.mkRat_eq_div]
  rw [hexact] at hfin hval
  refine ⟨_, ?_, isInfinite_eq_false hfin, hval⟩
  rw [half, hhalf]
  nth_rewrite 1 [← hval]
  exact (ofRat_toRat _)

/-- Below the greatest length, a coordinate less one half is negative or exact. -/
theorem sub_half_cases {m : Magnitude .binary64} (hm : m.toRat < maxLength) :
    (m.toRat < 1 / 2 ∧ ∃ d, (number false m - .half : Binary64) = .number true d) ∨
      ∃ d, (number false m - .half : Binary64) = .number false d ∧ d.toRat = m.toRat - 1 / 2 := by
  have hfinite := isInfinite_of_le (by omega) hm.le
  obtain ⟨h, hhalf, hhalfFinite, hvalue⟩ := half_eq
  rw [hhalf]
  rcases lt_or_ge m.toRat (1 / 2) with hlt | hge
  · exact .inl ⟨hlt, exists_sub_eq_of_lt hfinite hhalfFinite (hvalue ▸ hlt)⟩
  · obtain ⟨d, -, hd⟩ := Magnitude.exists_toRat_eq_sub_half (p := 1) (by decide) hm
      (by rwa [Nat.cast_one])
    rw [Nat.cast_one] at hd
    exact .inr ⟨d, sub_eq_of_toRat hfinite hhalfFinite (hvalue ▸ hd), hd⟩

theorem maxNum_zero_of_positive (m : Magnitude f) :
    maxNum (.number false m) .zero = .number false m := by
  by_cases hcode : m.code = 0
  · obtain rfl : m = .zero := by
      cases m
      simpa [Magnitude.zero] using hcode
    simp [maxNum, zero]
  · have hplace : place false (.zero : Magnitude f) < place false m :=
      Int.ofNat_lt.2 (Nat.pos_of_ne_zero hcode)
    exact if_pos hplace

theorem maxNum_zero_of_negative (m : Magnitude f) : maxNum (.number true m) .zero = .zero := by
  have hplace : ¬place false (.zero : Magnitude f) < place true m := by
    simp [place, Magnitude.zero]
  exact if_neg hplace

theorem exists_minNum_eq (a b : Magnitude f) : ∃ m,
    minNum (.number false a) (.number false b) = .number false m ∧
      m.toRat = min a.toRat b.toRat := by
  have hle := Magnitude.toRat_le_toRat_iff (m := b) (n := a)
  rw [minNum]
  split
  · next hlt =>
    have hcode : a.code < b.code := Int.ofNat_lt.1 hlt
    exact ⟨a, rfl, (min_eq_left (le_of_not_ge (hle.not.2 (Nat.not_le.2 hcode)))).symm⟩
  · next hge =>
    have hcode : b.code ≤ a.code := Nat.not_lt.1 (fun hlt => hge (Int.ofNat_lt.2 hlt))
    exact ⟨b, rfl, (min_eq_right (hle.2 hcode)).symm⟩

/-- The length below is computed without rounding. -/
theorem ofNat_sub_one_of_pos {n : ℕ} (hpos : 0 < n) (hn : n ≤ maxLength) :
    (.ofNat .binary64 n - .one : Binary64) = .ofNat .binary64 (n - 1) := by
  obtain ⟨hfin, hval⟩ := natMagnitude_spec (n := n) (by omega)
  obtain ⟨hfin', hval'⟩ := natMagnitude_spec (n := 1) (by decide)
  obtain ⟨-, hpred⟩ := natMagnitude_spec (n := n - 1) (by omega)
  have hexact : (natMagnitude (n - 1)).toRat =
      (natMagnitude n).toRat - (natMagnitude 1).toRat := by
    rw [hval, hval', hpred, Nat.cast_sub hpos]
  exact sub_eq_of_toRat (isInfinite_eq_false hfin) (isInfinite_eq_false hfin') hexact

/-- The last sample of a dimension; an empty dimension is taken to have one. -/
theorem ofNat_sub_one {n : ℕ} (hn : n ≤ maxLength) :
    maxNum (.ofNat .binary64 n - .one) .zero = .number false (natMagnitude (n - 1)) := by
  rcases Nat.eq_zero_or_pos n with rfl | hpos
  · obtain ⟨hfin, hval⟩ := natMagnitude_spec (n := 0) (by decide)
    obtain ⟨hfin', hval'⟩ := natMagnitude_spec (n := 1) (by decide)
    have hlt : (natMagnitude 0).toRat < (natMagnitude 1).toRat := by
      rw [hval, hval']
      norm_num
    obtain ⟨d, hd⟩ := exists_sub_eq_of_lt (isInfinite_eq_false hfin) (isInfinite_eq_false hfin') hlt
    change maxNum (.number false (natMagnitude 0) - .number false (natMagnitude 1)) .zero = _
    rw [hd, maxNum_zero_of_negative, natMagnitude, Nat.cast_zero,
      Magnitude.ofRat_of_nonpos le_rfl]
    rfl
  · rw [ofNat_sub_one_of_pos hpos hn]
    exact maxNum_zero_of_positive _

end Binary

open Binary

variable {f : Format}

/-! ## Clamping -/

/-- The exact clamped coordinate: a NaN counts as zero, and an infinity lies beyond the samples on
its side. -/
def clampedValue (inLen : ℕ) : Binary64 → ℚ
  | .nan => 0
  | .number negative m =>
    if m.isInfinite then if negative then 0 else (inLen - 1 : ℕ)
    else max 0 (min (signedValue negative m) (inLen - 1 : ℕ))

theorem clampedValue_of_negative (inLen : ℕ) (m : Magnitude .binary64) :
    clampedValue inLen (.number true m) = 0 := by
  have hvalue : -m.toRat ≤ 0 := neg_nonpos.2 m.toRat_nonneg
  simp only [clampedValue, signedValue, if_true]
  split
  · rfl
  · exact max_eq_left ((min_le_left _ _).trans hvalue)

/-- Above zero only the last sample bounds a coordinate, which infinity is beyond. -/
theorem clampedValue_of_positive {inLen : ℕ} (h : inLen ≤ maxLength) (m : Magnitude .binary64) :
    clampedValue inLen (.number false m) = min m.toRat (inLen - 1 : ℕ) := by
  obtain ⟨hfin, hval⟩ := natMagnitude_spec (n := inLen - 1) (by omega)
  simp only [clampedValue, signedValue, Bool.false_eq_true, if_false]
  cases hinfinite : m.isInfinite with
  | true =>
    have hcode : m.code = Format.binary64.infinityCode := by
      simpa [Magnitude.isInfinite] using hinfinite
    rw [if_pos rfl, ← hval, min_eq_right (Magnitude.toRat_le_toRat_iff.2 (by omega))]
  | false =>
    rw [if_neg Bool.false_ne_true, max_eq_right]
    exact le_min m.toRat_nonneg (Nat.cast_nonneg _)

theorem clampedValue_mem (inLen : ℕ) (c : Binary64) :
    0 ≤ clampedValue inLen c ∧ clampedValue inLen c ≤ (inLen - 1 : ℕ) := by
  have hlast : (0 : ℚ) ≤ (inLen - 1 : ℕ) := Nat.cast_nonneg _
  cases c with
  | nan => exact ⟨le_rfl, hlast⟩
  | number s m =>
    simp only [clampedValue]
    split
    · split
      · exact ⟨le_rfl, hlast⟩
      · exact ⟨hlast, le_rfl⟩
    · exact ⟨le_max_left _ _, max_le hlast (min_le_right _ _)⟩

theorem clampedValue_lt {inLen : ℕ} (h : inLen ≤ maxLength) (c : Binary64) :
    clampedValue inLen c < maxLength := by
  have hpos : 0 < maxLength := by decide
  exact (clampedValue_mem inLen c).2.trans_lt (Nat.cast_lt.2 (by omega))

/-- A clamped coordinate is a finite number of the exact value. -/
theorem clampCoordinate_eq {inLen : ℕ} (h : inLen ≤ maxLength) (c : Binary64) :
    ∃ m, clampCoordinate inLen c = .number false m ∧ m.isInfinite = false ∧
      m.toRat = clampedValue inLen c := by
  obtain ⟨-, hval⟩ := natMagnitude_spec (n := inLen - 1) (by omega)
  have hfinite {m : Magnitude .binary64} (hm : m.toRat = clampedValue inLen c) :
      m.isInfinite = false :=
    isInfinite_of_le (n := inLen - 1) (by omega) (hm ▸ (clampedValue_mem inLen c).2)
  have hclamp {a : Magnitude .binary64} (ha : maxNum c .zero = .number false a)
      (hvalue : min a.toRat (inLen - 1 : ℕ) = clampedValue inLen c) :
      ∃ m, clampCoordinate inLen c = .number false m ∧ m.isInfinite = false ∧
        m.toRat = clampedValue inLen c := by
    rw [clampCoordinate, ofNat_sub_one h, ha]
    obtain ⟨m, hm, hmin⟩ := exists_minNum_eq a (natMagnitude (inLen - 1))
    rw [hval, hvalue] at hmin
    exact ⟨m, hm, hfinite hmin, hmin⟩
  have hzero : min (Magnitude.zero : Magnitude .binary64).toRat (inLen - 1 : ℕ) = 0 := by
    rw [Magnitude.toRat_zero]
    exact min_eq_left (Nat.cast_nonneg _)
  cases c with
  | nan => exact hclamp rfl hzero
  | number s m =>
    cases s with
    | true =>
      exact hclamp (maxNum_zero_of_negative m) (hzero.trans (clampedValue_of_negative inLen m).symm)
    | false => exact hclamp (maxNum_zero_of_positive m) (clampedValue_of_positive h m).symm

/-! ## Rounding to a sample -/

/-- A rounding to integers that leaves no interval from zero to a natural number. -/
def KeepsRange (rounding : ℚ → ℤ) : Prop :=
  ∀ {q : ℚ} {n : ℕ}, 0 ≤ q → q ≤ n → 0 ≤ rounding q ∧ rounding q ≤ n

theorem keepsRange_floor : KeepsRange Rat.floor := by
  intro q n h0 hn
  refine ⟨Rat.le_floor_iff.2 (by exact_mod_cast h0), ?_⟩
  have h : q.floor < (n : ℤ) + 1 := Rat.floor_lt_iff.2 (by push_cast; linarith)
  omega

theorem keepsRange_ceil : KeepsRange Rat.ceil := by
  intro q n h0 hn
  refine ⟨?_, Rat.ceil_le_iff.2 (by exact_mod_cast hn)⟩
  have h : (-1 : ℤ) < q.ceil := Rat.lt_ceil_iff.2 (by push_cast; linarith)
  omega

theorem keepsRange_roundHalfAway : KeepsRange roundHalfAway := by
  intro q n h0 hn
  have hhalf : mkRat 1 2 = (1 / 2 : ℚ) := by norm_num [Rat.mkRat_eq_div]
  rw [roundHalfAway, if_neg (not_lt.2 h0), hhalf]
  refine ⟨Rat.le_floor_iff.2 (by push_cast; linarith), ?_⟩
  have h : (q + 1 / 2).floor < (n : ℤ) + 1 := Rat.floor_lt_iff.2 (by push_cast; linarith)
  omega

/-- An integral rounding of a number up to a length is read as the rounded value. -/
theorem toWord_toIntegral {rounding : ℚ → ℤ} (hkeep : KeepsRange rounding)
    {m : Magnitude .binary64} {n : ℕ} (hn : n ≤ maxLength) (hle : m.toRat ≤ n) :
    ((toIntegral rounding (.number false m)).toWord : ℤ) = rounding m.toRat := by
  have hm := isInfinite_of_le (by omega) hle
  obtain ⟨hlow, hup⟩ := hkeep m.toRat_nonneg hle
  have habs : (rounding m.toRat).natAbs ≤ n := by omega
  obtain ⟨hfin, hval⟩ := natMagnitude_spec (n := (rounding m.toRat).natAbs) (by omega)
  rw [natMagnitude] at hfin hval
  simp only [toIntegral, hm, toWord, signedValue, Bool.false_eq_true, if_false,
    isInfinite_eq_false hfin, hval]
  rw [← Int.cast_natCast (R := ℚ), Rat.floor_intCast, Int.toNat_natCast, min_eq_left]
  · omega
  · exact habs.trans (hn.trans (by decide))

theorem toWord_toIntegral_of_negative (rounding : ℚ → ℤ) (m : Magnitude f) :
    (toIntegral rounding (.number true m)).toWord = 0 := by
  rw [toIntegral]
  split <;> rfl

/-- The sample that a rounding of the exact coordinate `c` has to yield. -/
def NearestMode.Rounds (mode : NearestMode) (c : ℚ) (n : ℕ) : Prop :=
  match mode with
  | .roundPreferFloor => c - 1 / 2 ≤ n ∧ n < c + 1 / 2
  | .roundPreferCeil => c - 1 / 2 < n ∧ n ≤ c + 1 / 2
  | .floor => n ≤ c ∧ c < n + 1
  | .ceil => n - 1 < c ∧ c ≤ n

theorem rounds_ceil {c : ℚ} {n : ℕ} (h : (n : ℤ) = c.ceil) : NearestMode.ceil.Rounds c n := by
  constructor
  · have hlt : (n : ℤ) - 1 < c.ceil := by omega
    exact_mod_cast Rat.lt_ceil_iff.1 hlt
  · exact_mod_cast Rat.ceil_le_iff.1 h.ge

theorem rounds_floor {c : ℚ} {n : ℕ} (h : (n : ℤ) = c.floor) : NearestMode.floor.Rounds c n := by
  constructor
  · exact_mod_cast Rat.le_floor_iff.1 h.le
  · have hlt : c.floor < (n : ℤ) + 1 := by omega
    exact_mod_cast Rat.floor_lt_iff.1 hlt

/-- Every rounding of a coordinate, whatever it is, yields the sample it has to. -/
theorem NearestMode.rounds_index {inLen : ℕ} (h : inLen ≤ maxLength) (mode : NearestMode)
    (c : Binary64) : mode.Rounds (clampedValue inLen c) (mode.index inLen c) := by
  obtain ⟨m, hc, -, hvalue⟩ := clampCoordinate_eq h c
  have hle : m.toRat ≤ (inLen - 1 : ℕ) := hvalue ▸ (clampedValue_mem inLen c).2
  have hn : inLen - 1 ≤ maxLength := by omega
  have hm := m.toRat_nonneg
  rw [index, hc, ← hvalue]
  cases mode with
  | roundPreferFloor =>
    rw [round]
    rcases sub_half_cases (hvalue ▸ clampedValue_lt h c) with ⟨hlt, d, hd⟩ | ⟨d, hd, hexact⟩
    · -- what lies below one half is rounded to zero
      rw [hd, Binary.ceil, toWord_toIntegral_of_negative]
      constructor
      · push_cast
        linarith
      · push_cast
        linarith
    · have hd' : d.toRat ≤ (inLen - 1 : ℕ) := by linarith
      obtain ⟨hlow, hhigh⟩ := rounds_ceil (toWord_toIntegral keepsRange_ceil hn hd')
      rw [hd, Binary.ceil]
      constructor
      · linarith
      · linarith
  | roundPreferCeil =>
    have hround : roundHalfAway m.toRat = (m.toRat + 1 / 2).floor := by
      rw [roundHalfAway, if_neg (not_lt.2 hm), Rat.mkRat_eq_div]
      norm_num
    have hindex := toWord_toIntegral keepsRange_roundHalfAway hn hle
    rw [hround] at hindex
    obtain ⟨hlow, hhigh⟩ := rounds_floor hindex
    rw [round, Binary.round]
    constructor
    · linarith
    · linarith
  | floor => exact rounds_floor (toWord_toIntegral keepsRange_floor hn hle)
  | ceil => exact rounds_ceil (toWord_toIntegral keepsRange_ceil hn hle)

/-- Every rounding yields a sample less than one away. -/
theorem NearestMode.Rounds.near {mode : NearestMode} {c : ℚ} {n : ℕ} (h : mode.Rounds c n) :
    (n : ℚ) < c + 1 ∧ c < n + 1 := by
  cases mode with
  | roundPreferFloor =>
    obtain ⟨hlow, hhigh⟩ := h
    exact ⟨by linarith, by linarith⟩
  | roundPreferCeil =>
    obtain ⟨hlow, hhigh⟩ := h
    exact ⟨by linarith, by linarith⟩
  | floor =>
    obtain ⟨hlow, hhigh⟩ := h
    exact ⟨by linarith, by linarith⟩
  | ceil =>
    obtain ⟨hlow, hhigh⟩ := h
    exact ⟨by linarith, by linarith⟩

theorem le_of_cast_lt_add_one {m n : ℕ} (h : (m : ℚ) < n + 1) : m ≤ n :=
  Nat.le_of_lt_succ (by exact_mod_cast h)

/-- Every rounding of a coordinate yields a sample of the dimension; for an empty dimension it
yields zero. -/
theorem NearestMode.index_le {inLen : ℕ} (h : inLen ≤ maxLength) (mode : NearestMode)
    (c : Binary64) : mode.index inLen c ≤ inLen - 1 := by
  have hnear := (mode.rounds_index h c).near.1
  have hlast := (clampedValue_mem inLen c).2
  exact le_of_cast_lt_add_one (by linarith)

theorem NearestMode.index_lt {inLen : ℕ} (h : inLen ≤ maxLength) (hpos : 0 < inLen)
    (mode : NearestMode) (c : Binary64) : mode.index inLen c < inLen := by
  have := mode.index_le h c
  omega

/-- There are samples along the axis, and coordinates in double precision number all of them. -/
def Axis.HasSamples (a : Axis) : Prop := 0 < a.inLen ∧ a.inLen ≤ maxLength

instance Axis.decidableHasSamples (a : Axis) : Decidable a.HasSamples :=
  inferInstanceAs (Decidable (_ ∧ _))

theorem Axis.nearest_lt {a : Axis} (h : a.HasSamples) (t : CoordinateTransform) (m : NearestMode)
    (x : ℕ) : a.nearest t m x < a.inLen := m.index_lt h.2 h.1 (a.source t x)

/-! ## The four roundings -/

/-- Every rounding takes a coordinate, clamped to the dimension, to the sample that its name says.
All samples lie between those at or below and at or above the coordinate, which are at most one
apart, and all are the coordinate itself if that is a sample. -/
theorem NearestMode.index_rounds {inLen : ℕ} (h : inLen ≤ maxLength) (c : Binary64) :
    (∀ mode : NearestMode, mode.index inLen c ≤ inLen - 1 ∧
      mode.Rounds (clampedValue inLen c) (mode.index inLen c) ∧
      floor.index inLen c ≤ mode.index inLen c ∧ mode.index inLen c ≤ ceil.index inLen c) ∧
    ceil.index inLen c ≤ floor.index inLen c + 1 ∧
    ∀ k : ℤ, clampedValue inLen c = k → ∀ mode : NearestMode, (mode.index inLen c : ℤ) = k := by
  obtain ⟨hfloor, hfloor'⟩ := floor.rounds_index h c
  obtain ⟨hceil, hceil'⟩ := ceil.rounds_index h c
  refine ⟨?_, ?_, ?_⟩
  · intro mode
    have hrounds := mode.rounds_index h c
    obtain ⟨hnear, hnear'⟩ := hrounds.near
    exact ⟨mode.index_le h c, hrounds, le_of_cast_lt_add_one (by linarith),
      le_of_cast_lt_add_one (by linarith)⟩
  · apply le_of_cast_lt_add_one
    push_cast
    linarith
  · intro k hk mode
    obtain ⟨hnear, hnear'⟩ := (mode.rounds_index h c).near
    rw [hk] at hnear hnear'
    have hlow : (mode.index inLen c : ℤ) < k + 1 := by exact_mod_cast hnear
    have hhigh : k < (mode.index inLen c : ℤ) + 1 := by exact_mod_cast hnear'
    omega

/-- A coordinate halfway between two samples, which the two nearest roundings take apart. -/
theorem NearestMode.index_rounds_five_halves :
    let c : Binary64 := .ofNat .binary64 2 + .half
    4 ≤ maxLength ∧ clampedValue 4 c = 5 / 2 ∧
      roundPreferFloor.index 4 c = 2 ∧ roundPreferCeil.index 4 c = 3 := by
  intro c
  have hlen : 4 ≤ maxLength := by decide
  have hvalue : clampedValue 4 c = 5 / 2 := by decide +kernel
  obtain ⟨hmodes, -, -⟩ := index_rounds hlen c
  obtain ⟨-, ⟨hlow, hhigh⟩, -⟩ := hmodes .roundPreferFloor
  obtain ⟨-, ⟨hlow', hhigh'⟩, -⟩ := hmodes .roundPreferCeil
  rw [hvalue] at hlow hhigh hlow' hhigh'
  norm_num at hlow hhigh hlow' hhigh'
  exact ⟨hlen, hvalue, by omega, by omega⟩

end TensorResize
