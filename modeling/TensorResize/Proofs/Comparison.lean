import Mathlib.Data.Int.ConditionallyCompleteOrder
import TensorResize.Proofs.ExactArithmetic

/-!
# The order of numbers

Numbers are compared by their place in the format. An operation on finite numbers yields the number
nearest to the exact result, so that it keeps the order wherever the exact operation does: rounding
is monotone. The same holds of clamping, of rounding to integers and of reading a length.

## Main definitions

* `Binary.Le`, `Binary.Lt` — comparison of two numbers, written `≤` and `<`.
* `Binary.IsFinite` — the numbers that have a value.
* `Binary.nearestPlace` — the place of the number nearest to a rational.
-/

namespace TensorResize

namespace Binary

variable {f : Format} {x y z : Binary f} {s t u : Bool} {a b c : Magnitude f} {q r : ℚ}

/-! ## Comparison -/

/-- The first number is not above the second. A NaN compares with nothing. -/
def Le : Binary f → Binary f → Prop
  | .number s a, .number t b => place s a ≤ place t b
  | _, _ => False

/-- The first number is below the second. Neither zero is below the other. -/
def Lt : Binary f → Binary f → Prop
  | .number s a, .number t b => place s a < place t b
  | _, _ => False

instance : LE (Binary f) := ⟨Le⟩
instance : LT (Binary f) := ⟨Lt⟩

instance decidableLe : (x y : Binary f) → Decidable (x ≤ y)
  | .number s a, .number t b => inferInstanceAs (Decidable (place s a ≤ place t b))
  | .nan, _ => isFalse id
  | .number .., .nan => isFalse id

instance decidableLt : (x y : Binary f) → Decidable (x < y)
  | .number s a, .number t b => inferInstanceAs (Decidable (place s a < place t b))
  | .nan, _ => isFalse id
  | .number .., .nan => isFalse id

@[simp] theorem number_le_number : number s a ≤ number t b ↔ place s a ≤ place t b := Iff.rfl

theorem number_ne_nan : number s a ≠ nan := nofun

theorem exists_of_le (h : x ≤ y) :
    ∃ s a t b, x = number s a ∧ y = number t b ∧ place s a ≤ place t b := by
  cases x with
  | nan => exact h.elim
  | number s a =>
    cases y with
    | nan => exact h.elim
    | number t b => exact ⟨s, a, t, b, rfl, rfl, h⟩

theorem ne_nan_of_le (h : x ≤ y) : x ≠ nan ∧ y ≠ nan := by
  obtain ⟨s, a, t, b, rfl, rfl, -⟩ := exists_of_le h
  exact ⟨number_ne_nan, number_ne_nan⟩

protected theorem le_trans (h : x ≤ y) (h' : y ≤ z) : x ≤ z := by
  obtain ⟨s, a, t, b, rfl, rfl, hab⟩ := exists_of_le h
  cases z with
  | nan => exact h'.elim
  | number u c => exact hab.trans h'

protected theorem lt_of_lt_of_le (h : x < y) (h' : y ≤ z) : x < z := by
  obtain ⟨t, b, u, c, rfl, rfl, hbc⟩ := exists_of_le h'
  cases x with
  | nan => exact h.elim
  | number s a => exact Int.lt_of_lt_of_le h hbc

theorem ofNat_le_ofNat {m n : ℕ} (h : m ≤ n) : ofNat f m ≤ ofNat f n :=
  Int.ofNat_le.2 (Magnitude.ofRat_mono (Nat.cast_le.2 h))

/-- Numbers are ordered as their values. -/
theorem place_le_place_iff : place s a ≤ place t b ↔ signedValue s a ≤ signedValue t b := by
  have ha := a.toRat_nonneg
  have hb := b.toRat_nonneg
  cases s with
  | false =>
    cases t with
    | false => exact Int.ofNat_le.trans Magnitude.toRat_le_toRat_iff.symm
    | true =>
      -- a positive number is not above a negative one unless both are zero
      have hzero : a.toRat = 0 ∧ b.toRat = 0 ↔ a.code = 0 ∧ b.code = 0 :=
        and_congr Magnitude.toRat_eq_zero Magnitude.toRat_eq_zero
      have hplace : (a.code : ℤ) ≤ -b.code ↔ a.code = 0 ∧ b.code = 0 := by omega
      change (a.code : ℤ) ≤ -b.code ↔ a.toRat ≤ -b.toRat
      rw [hplace, ← hzero]
      constructor
      · rintro ⟨ha0, hb0⟩
        rw [ha0, hb0, neg_zero]
      · intro h
        constructor <;> linarith
  | true =>
    cases t with
    | false =>
      change -(a.code : ℤ) ≤ b.code ↔ -a.toRat ≤ b.toRat
      apply iff_of_true
      · omega
      · linarith
    | true =>
      change -(a.code : ℤ) ≤ -b.code ↔ -a.toRat ≤ -b.toRat
      rw [neg_le_neg_iff, neg_le_neg_iff, Magnitude.toRat_le_toRat_iff, Int.ofNat_le]

/-! ## Nearest numbers -/

/-- The place of the number nearest to a rational. -/
def nearestPlace (f : Format) (q : ℚ) : ℤ := place (q < 0) (.ofRat f q.abs)

/-- A magnitude that is rounded from an exact one stands, with its sign, at the place nearest to the
exact number. -/
theorem place_ofRat (s : Bool) (hq : 0 ≤ q) :
    place s (.ofRat f q) = nearestPlace f (if s then -q else q) := by
  cases s with
  | false =>
    have hsign : decide (q < 0) = false := decide_eq_false (not_lt.2 hq)
    simp only [nearestPlace, Bool.false_eq_true, if_false, hsign, Rat.abs_of_nonneg hq]
  | true =>
    rcases hq.eq_or_lt with rfl | hpos
    · simp [nearestPlace, place, Magnitude.ofRat_of_nonpos, Magnitude.zero]
    · have hsign : decide (-q < 0) = true := decide_eq_true (neg_lt_zero.2 hpos)
      simp only [nearestPlace, if_true, hsign, Rat.abs_neg, Rat.abs_of_nonneg hq]

theorem place_eq_nearestPlace (s : Bool) (a : Magnitude f) :
    place s a = nearestPlace f (signedValue s a) := by
  nth_rewrite 1 [← a.ofRat_toRat]
  exact place_ofRat s a.toRat_nonneg

/-- Rounding is monotone, across zero too. -/
theorem nearestPlace_mono (h : q ≤ r) : nearestPlace f q ≤ nearestPlace f r := by
  rcases lt_or_ge q 0 with hq | hq
  · have hneg := place_ofRat (f := f) true (neg_nonneg.2 hq.le)
    rw [if_pos rfl, neg_neg] at hneg
    rcases lt_or_ge r 0 with hr | hr
    · have hneg' := place_ofRat (f := f) true (neg_nonneg.2 hr.le)
      rw [if_pos rfl, neg_neg] at hneg'
      rw [← hneg, ← hneg']
      exact neg_le_neg (Int.ofNat_le.2 (Magnitude.ofRat_mono (neg_le_neg h)))
    · have hpos := place_ofRat (f := f) false hr
      rw [if_neg Bool.false_ne_true] at hpos
      rw [← hneg, ← hpos]
      exact (neg_nonpos.2 (Int.natCast_nonneg _)).trans (Int.natCast_nonneg _)
  · have hpos := place_ofRat (f := f) false hq
    have hpos' := place_ofRat (f := f) false (hq.trans h)
    rw [if_neg Bool.false_ne_true] at hpos hpos'
    rw [← hpos, ← hpos']
    exact Int.ofNat_le.2 (Magnitude.ofRat_mono h)

/-! ## Arithmetic -/

/-- The number has a value: it is neither a NaN nor infinite. -/
def IsFinite : Binary f → Prop
  | .nan => False
  | .number _ m => m.isInfinite = false

instance decidableIsFinite : (x : Binary f) → Decidable x.IsFinite
  | .nan => isFalse id
  | .number _ m => inferInstanceAs (Decidable (m.isInfinite = false))

theorem signedValue_xor_mul (s t : Bool) (a b : Magnitude f) :
    signedValue s a * signedValue t b =
      if s != t then -(a.toRat * b.toRat) else a.toRat * b.toRat := by
  cases s <;> cases t <;> simp [signedValue]

theorem signedValue_xor_div (s t : Bool) (a b : Magnitude f) :
    signedValue s a / signedValue t b =
      if s != t then -(a.toRat / b.toRat) else a.toRat / b.toRat := by
  cases s <;> cases t <;> simp [signedValue, div_neg, neg_div]

section Finite

variable (ha : a.isInfinite = false) (hb : b.isInfinite = false)
include ha hb

/-- The sum of finite numbers is the number nearest to the exact sum. -/
theorem exists_add_eq : ∃ u c, number s a + number t b = number u c ∧
    place u c = nearestPlace f (signedValue s a + signedValue t b) := by
  change ∃ u c, add (number s a) (number t b) = number u c ∧ _
  simp only [add, ha, hb, Bool.false_eq_true, if_false]
  split
  · next hzero =>
    refine ⟨_, _, rfl, ?_⟩
    rw [Rat.num_eq_zero.1 hzero, place_eq_nearestPlace, signedValue, Magnitude.toRat_zero, neg_zero,
      ite_self]
  · exact ⟨_, _, rfl, rfl⟩

/-- The product of finite numbers is the number nearest to the exact product. -/
theorem exists_mul_eq : ∃ u c, number s a * number t b = number u c ∧
    place u c = nearestPlace f (signedValue s a * signedValue t b) := by
  refine ⟨s != t, .ofRat f (a.toRat * b.toRat), ?_, ?_⟩
  · change mul (number s a) (number t b) = _
    simp only [mul, ha, hb, Bool.or_self, Bool.false_eq_true, if_false]
  · rw [place_ofRat _ (mul_nonneg a.toRat_nonneg b.toRat_nonneg), signedValue_xor_mul]

/-- The quotient of finite numbers is the number nearest to the exact quotient, if that exists. -/
theorem exists_div_eq (hb0 : b.code ≠ 0) : ∃ u c, number s a / number t b = number u c ∧
    place u c = nearestPlace f (signedValue s a / signedValue t b) := by
  refine ⟨s != t, .ofRat f (a.toRat / b.toRat), number_div_eq ha hb hb0, ?_⟩
  rw [place_ofRat _ (div_nonneg a.toRat_nonneg b.toRat_nonneg), signedValue_xor_div]

end Finite

/-! ## Infinity -/

theorem infinity_le (h : x ≠ nan) : infinity true ≤ x := by
  cases x with
  | nan => exact (h rfl).elim
  | number s a =>
    have hcode : (a.code : ℤ) ≤ f.infinityCode := Int.ofNat_le.2 a.code_le
    change -(f.infinityCode : ℤ) ≤ place s a
    cases s <;> simp only [place, Bool.false_eq_true, if_false, if_true] <;> omega

theorem le_infinity (h : x ≠ nan) : x ≤ infinity false := by
  cases x with
  | nan => exact (h rfl).elim
  | number s a =>
    have hcode : (a.code : ℤ) ≤ f.infinityCode := Int.ofNat_le.2 a.code_le
    change place s a ≤ (f.infinityCode : ℤ)
    cases s <;> simp only [place, Bool.false_eq_true, if_false, if_true] <;> omega

/-- Two numbers in order are finite, unless the one is least or the other greatest. -/
theorem le_cases (hf : 0 < f.infinityCode) (h : x ≤ y) :
    x = infinity true ∨ y = infinity false ∨ x.IsFinite ∧ y.IsFinite := by
  obtain ⟨s, a, t, b, rfl, rfl, hab⟩ := exists_of_le h
  have ha := a.code_le
  have hb := b.code_le
  have heq {m : Magnitude f} : m = .infinity ↔ m.code = f.infinityCode := by
    cases m; simp [Magnitude.infinity]
  simp only [infinity, number.injEq, heq, IsFinite, Magnitude.isInfinite, beq_eq_false_iff_ne]
  cases s <;> cases t <;> simp [place] at hab ⊢ <;> omega

/-- A number between zero and a finite number is finite. -/
theorem isFinite_of_le (hf : 0 < f.infinityCode) (h0 : .zero ≤ x) (h : x ≤ y) (hy : y.IsFinite) :
    x.IsFinite := by
  obtain rfl | rfl | ⟨hx, -⟩ := le_cases hf h
  · have hplace : (0 : ℤ) ≤ -(f.infinityCode : ℤ) := h0
    omega
  · have hplace : (Magnitude.infinity : Magnitude f).isInfinite = false := hy
    simp [Magnitude.isInfinite, Magnitude.infinity] at hplace
  · exact hx

theorem add_infinity (hz : z.IsFinite) (s : Bool) : infinity s + z = infinity s := by
  cases z with
  | nan => exact hz.elim
  | number u c =>
    have hc : c.isInfinite = false := hz
    have hinfinite : (Magnitude.infinity : Magnitude f).isInfinite = true := by
      simp [Magnitude.isInfinite, Magnitude.infinity]
    change add (number s .infinity) (number u c) = _
    simp only [add, hinfinite, hc, if_true, Bool.false_and, Bool.false_eq_true, if_false]
    rfl

theorem add_ne_nan (hx : x ≠ nan) (hz : z.IsFinite) : x + z ≠ nan := by
  cases x with
  | nan => exact (hx rfl).elim
  | number s a =>
    cases z with
    | nan => exact hz.elim
    | number u c =>
      have hc : c.isInfinite = false := hz
      change add (number s a) (number u c) ≠ nan
      simp only [add, hc, Bool.false_and, Bool.false_eq_true, if_false]
      split
      · exact number_ne_nan
      · split
        · exact number_ne_nan
        · exact number_ne_nan

/-- A finite summand keeps the order. -/
protected theorem add_le_add_right (hf : 0 < f.infinityCode) (h : x ≤ y) (hz : z.IsFinite) :
    x + z ≤ y + z := by
  obtain ⟨hx, hy⟩ := ne_nan_of_le h
  obtain rfl | rfl | ⟨hfinite, hfinite'⟩ := le_cases hf h
  · rw [add_infinity hz]
    exact infinity_le (add_ne_nan hy hz)
  · rw [add_infinity hz]
    exact le_infinity (add_ne_nan hx hz)
  · obtain ⟨s, a, t, b, rfl, rfl, hab⟩ := exists_of_le h
    cases z with
    | nan => exact hz.elim
    | number u c =>
      obtain ⟨v, d, hsum, hplace⟩ := exists_add_eq (s := s) (t := u) hfinite hz
      obtain ⟨w, e, hsum', hplace'⟩ := exists_add_eq (s := t) (t := u) hfinite' hz
      rw [hsum, hsum', number_le_number, hplace, hplace']
      exact nearestPlace_mono (add_le_add (place_le_place_iff.1 hab) le_rfl)

theorem IsFinite.neg (h : x.IsFinite) : (-x).IsFinite := by
  cases x with
  | nan => exact h
  | number s a => exact h

protected theorem sub_le_sub_right (hf : 0 < f.infinityCode) (h : x ≤ y) (hz : z.IsFinite) :
    x - z ≤ y - z :=
  Binary.add_le_add_right hf h hz.neg

theorem signedValue_zero (s : Bool) : signedValue s (Magnitude.zero : Magnitude f) = 0 := by
  cases s <;> simp [signedValue]

protected theorem mul_comm (x y : Binary f) : x * y = y * x := by
  change mul x y = mul y x
  cases x with
  | nan => cases y <;> rfl
  | number s a =>
    cases y with
    | nan => rfl
    | number t b =>
      simp only [mul, Bool.or_comm a.isInfinite, Bool.or_comm (decide (a.code = 0)),
        bne_comm (a := s), mul_comm a.toRat]

/-- A finite factor that is not negative keeps the order of finite numbers. -/
protected theorem mul_le_mul_right (h : x ≤ y) (hx : x.IsFinite) (hy : y.IsFinite) (hz : z.IsFinite)
    (hz0 : .zero ≤ z) : x * z ≤ y * z := by
  obtain ⟨s, a, t, b, rfl, rfl, hab⟩ := exists_of_le h
  cases z with
  | nan => exact hz.elim
  | number u c =>
    have hc : 0 ≤ signedValue u c := by
      rw [← signedValue_zero false]
      exact place_le_place_iff.1 hz0
    obtain ⟨v, d, hmul, hplace⟩ := exists_mul_eq (s := s) (t := u) hx hz
    obtain ⟨w, e, hmul', hplace'⟩ := exists_mul_eq (s := t) (t := u) hy hz
    rw [hmul, hmul', number_le_number, hplace, hplace']
    exact nearestPlace_mono (mul_le_mul_of_nonneg_right (place_le_place_iff.1 hab) hc)

/-- Between zero and finite bounds, a product is not above the product of the bounds. -/
theorem mul_mem {v w : Binary f} (hf : 0 < f.infinityCode) (hx0 : .zero ≤ x) (hxv : x ≤ v)
    (hv : v.IsFinite) (hy0 : .zero ≤ y) (hyw : y ≤ w) (hw : w.IsFinite) :
    .zero ≤ x * y ∧ x * y ≤ v * w := by
  have hx := isFinite_of_le hf hx0 hxv hv
  have hy := isFinite_of_le hf hy0 hyw hw
  have hzero : (zero : Binary f).IsFinite := by
    simp only [IsFinite, zero, Magnitude.isInfinite, Magnitude.zero, beq_eq_false_iff_ne]
    omega
  constructor
  · have hmul := Binary.mul_le_mul_right hx0 hzero hx hy hy0
    cases y with
    | nan => exact hy.elim
    | number t b =>
      obtain ⟨u, c, hproduct, hplace⟩ := exists_mul_eq (s := false) (t := t) hzero hy
      have hle := place_eq_nearestPlace false (.zero : Magnitude f)
      rw [signedValue_zero] at hle hplace
      rw [zero_mul, ← hle] at hplace
      exact Binary.le_trans (hproduct ▸ hplace.ge) hmul
  · have hmul := Binary.mul_le_mul_right hxv hx hv hy hy0
    have hmul' := Binary.mul_le_mul_right hyw hy hw hv (Binary.le_trans hx0 hxv)
    rw [Binary.mul_comm y, Binary.mul_comm w] at hmul'
    exact Binary.le_trans hmul hmul'

/-- A finite number divided by infinity is zero. -/
theorem number_div_of_isInfinite (ha : a.isInfinite = false) (hb : b.isInfinite = true) :
    number s a / number t b = number (s != t) .zero := by
  change div (number s a) (number t b) = _
  simp only [div, ha, hb, if_true, Bool.false_eq_true, if_false]

/-- A positive divisor, infinity included, keeps the order of finite numbers. -/
protected theorem div_le_div_right (h : x ≤ y) (hx : x.IsFinite) (hy : y.IsFinite)
    (hz : .zero < z) : x / z ≤ y / z := by
  obtain ⟨s, a, t, b, rfl, rfl, hab⟩ := exists_of_le h
  cases z with
  | nan => exact hz.elim
  | number u c =>
    have hpos : 0 < place u c := hz
    cases hc : c.isInfinite with
    | true =>
      rw [number_div_of_isInfinite hx hc, number_div_of_isInfinite hy hc, number_le_number,
        place_le_place_iff, signedValue_zero, signedValue_zero]
    | false =>
      have hcode : c.code ≠ 0 := by
        intro h0
        cases u <;> simp [place, h0] at hpos
      have hvalue : 0 ≤ signedValue u c := by
        rw [← signedValue_zero false, ← place_le_place_iff]
        exact hpos.le
      obtain ⟨v, d, hdiv, hplace⟩ := exists_div_eq (s := s) (t := u) hx hc hcode
      obtain ⟨w, e, hdiv', hplace'⟩ := exists_div_eq (s := t) (t := u) hy hc hcode
      rw [hdiv, hdiv', number_le_number, hplace, hplace']
      exact nearestPlace_mono (div_le_div_of_nonneg_right (place_le_place_iff.1 hab) hvalue)

/-! ## Clamping and rounding to integers -/

theorem maxNum_le_maxNum (h : x ≤ y) (hz : z ≠ nan) : maxNum x z ≤ maxNum y z := by
  obtain ⟨s, a, t, b, rfl, rfl, hab⟩ := exists_of_le h
  cases z with
  | nan => exact (hz rfl).elim
  | number u c =>
    simp only [maxNum]
    split <;> split <;> rw [number_le_number] <;> omega

theorem maxNum_ne_nan (hz : z ≠ nan) : maxNum x z ≠ nan := by
  cases z with
  | nan => exact (hz rfl).elim
  | number u c =>
    cases x with
    | nan => exact number_ne_nan
    | number s a =>
      simp only [maxNum]
      split
      · exact number_ne_nan
      · exact number_ne_nan

theorem minNum_le_minNum (h : x ≤ y) (hz : z ≠ nan) : minNum x z ≤ minNum y z := by
  obtain ⟨s, a, t, b, rfl, rfl, hab⟩ := exists_of_le h
  cases z with
  | nan => exact (hz rfl).elim
  | number u c =>
    simp only [minNum]
    split <;> split <;> rw [number_le_number] <;> omega

theorem toIntegral_infinity (rounding : ℚ → ℤ) (s : Bool) :
    toIntegral rounding (infinity s : Binary f) = infinity s := by
  simp [toIntegral, infinity, Magnitude.isInfinite, Magnitude.infinity]

theorem toIntegral_ne_nan (rounding : ℚ → ℤ) (h : x ≠ nan) : toIntegral rounding x ≠ nan := by
  cases x with
  | nan => exact (h rfl).elim
  | number s a =>
    simp only [toIntegral]
    split
    · exact number_ne_nan
    · exact number_ne_nan

section Integral

variable {rounding : ℚ → ℤ} (hmono : Monotone rounding) (hzero : rounding 0 = 0)
include hmono hzero

/-- An integral rounding of a finite number is the number nearest to the integer. -/
theorem exists_toIntegral_eq (ha : a.isInfinite = false) :
    ∃ c, toIntegral rounding (number s a) = number s c ∧
      place s c = nearestPlace f (rounding (signedValue s a)) := by
  have ha0 := a.toRat_nonneg
  refine ⟨.ofRat f ((rounding (signedValue s a)).natAbs : ℕ), ?_, ?_⟩
  · simp only [toIntegral, ha, Bool.false_eq_true, if_false]
  · rw [place_ofRat s (Nat.cast_nonneg _)]
    congr 1
    cases s with
    | false =>
      have hsign : 0 ≤ rounding (signedValue false a) := by
        rw [← hzero]
        exact hmono ha0
      rw [if_neg Bool.false_ne_true, Nat.cast_natAbs, abs_of_nonneg hsign]
    | true =>
      have hsign : rounding (signedValue true a) ≤ 0 := by
        rw [← hzero]
        exact hmono (neg_nonpos.2 ha0)
      rw [if_pos rfl, Nat.cast_natAbs, abs_of_nonpos hsign, Int.cast_neg, neg_neg]

/-- A monotone rounding to integers keeps the order. -/
theorem toIntegral_le_toIntegral (hf : 0 < f.infinityCode) (h : x ≤ y) :
    toIntegral rounding x ≤ toIntegral rounding y := by
  obtain ⟨hx, hy⟩ := ne_nan_of_le h
  obtain rfl | rfl | ⟨hfinite, hfinite'⟩ := le_cases hf h
  · rw [toIntegral_infinity]
    exact infinity_le (toIntegral_ne_nan rounding hy)
  · rw [toIntegral_infinity]
    exact le_infinity (toIntegral_ne_nan rounding hx)
  · obtain ⟨s, a, t, b, rfl, rfl, hab⟩ := exists_of_le h
    obtain ⟨c, hc, hplace⟩ := exists_toIntegral_eq (s := s) hmono hzero hfinite
    obtain ⟨d, hd, hplace'⟩ := exists_toIntegral_eq (s := t) hmono hzero hfinite'
    rw [hc, hd, number_le_number, hplace, hplace']
    exact nearestPlace_mono (Int.cast_le.2 (hmono (place_le_place_iff.1 hab)))

end Integral

theorem toWord_le_greatest (x : Binary f) : x.toWord ≤ Word.greatest := by
  cases x with
  | nan => exact Nat.zero_le _
  | number s a =>
    cases s with
    | true => exact Nat.zero_le _
    | false =>
      rw [toWord]
      split
      · exact le_rfl
      · exact min_le_right _ _

/-- A larger number is read as a larger length. -/
theorem toWord_le_toWord (hf : 0 < f.infinityCode) (h : x ≤ y) : x.toWord ≤ y.toWord := by
  obtain rfl | rfl | ⟨hfinite, hfinite'⟩ := le_cases hf h
  · exact Nat.zero_le _
  · have hgreatest : (infinity false : Binary f).toWord = Word.greatest := by
      simp [toWord, infinity, Magnitude.isInfinite, Magnitude.infinity]
    rw [hgreatest]
    exact toWord_le_greatest x
  · obtain ⟨s, a, t, b, rfl, rfl, hab⟩ := exists_of_le h
    have ha : a.isInfinite = false := hfinite
    have hb : b.isInfinite = false := hfinite'
    have hvalue := place_le_place_iff.1 hab
    cases s with
    | true => exact Nat.zero_le _
    | false =>
      cases t with
      | true =>
        -- only zero is not above a negative number
        have hzero : a.toRat = 0 := by
          have ha0 := a.toRat_nonneg
          have hb0 := b.toRat_nonneg
          simp only [signedValue, Bool.false_eq_true, if_false, if_true] at hvalue
          linarith
        have hfloor : Rat.floor 0 = 0 := rfl
        simp [toWord, ha, hzero, hfloor]
      | false =>
        simp only [toWord, ha, hb, Bool.false_eq_true, if_false]
        exact min_le_min_right _ (Int.toNat_le_toNat (Rat.floor_monotone hvalue))

end Binary

end TensorResize
