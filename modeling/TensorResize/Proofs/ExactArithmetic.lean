import TensorResize.Binary.Basic
import TensorResize.Proofs.Rounding

/-!
# Exact arithmetic

A sum or a difference that is a number of the format is computed without rounding. So is every
difference to a smaller integer, or to half of one, of a number that still has a bit for one half:
all digits of the difference are digits of the number.

## Main statements

* `Binary.sub_eq_of_toRat`, `Binary.add_eq_of_toRat` — exact results.
* `Magnitude.exists_toRat_eq_sub_half` — the differences that are numbers of the format.
-/

namespace TensorResize

variable {f : Format} {a b d : Magnitude f}

namespace Binary

theorem isInfinite_eq_false (h : a.code < f.infinityCode) : a.isInfinite = false := by
  simpa [Magnitude.isInfinite] using h.ne

theorem code_lt_of_isInfinite (h : a.isInfinite = false) : a.code < f.infinityCode := by
  have hne : a.code ≠ f.infinityCode := by simpa [Magnitude.isInfinite] using h
  exact lt_of_le_of_ne a.code_le hne

theorem ofRat_toRat (d : Magnitude f) : ofRat f d.toRat = number false d := by
  have hsign : decide (d.toRat < 0) = false := decide_eq_false (not_lt.2 d.toRat_nonneg)
  rw [ofRat, hsign, Rat.abs_of_nonneg d.toRat_nonneg, d.ofRat_toRat]

section Finite

variable (ha : a.isInfinite = false) (hb : b.isInfinite = false)
include ha hb

/-- A sum of finite numbers that is a magnitude is that number. -/
theorem number_add_eq {s t : Bool} (hsigns : (s && t) = false)
    (h : d.toRat = signedValue s a + signedValue t b) :
    (number s a + number t b : Binary f) = number false d := by
  change add (number s a) (number t b) = _
  simp only [add, ha, hb, Bool.false_eq_true, if_false, hsigns, ← h]
  split
  · next hzero =>
    rw [← d.ofRat_toRat, Rat.num_eq_zero.1 hzero, Magnitude.ofRat_of_nonpos le_rfl]
  · exact ofRat_toRat d

theorem add_eq_of_toRat (h : d.toRat = a.toRat + b.toRat) :
    (number false a + number false b : Binary f) = number false d :=
  number_add_eq ha hb rfl h

theorem sub_eq_of_toRat (h : d.toRat = a.toRat - b.toRat) :
    (number false a - number false b : Binary f) = number false d :=
  number_add_eq ha hb (t := true) rfl (h.trans (sub_eq_add_neg _ _))

/-- The difference to a larger number has a sign. -/
theorem exists_sub_eq_of_lt (h : a.toRat < b.toRat) :
    ∃ d, (number false a - number false b : Binary f) = number true d := by
  have hneg : a.toRat + -b.toRat < 0 := by linarith
  change ∃ d, add (number false a) (number true b) = number true d
  simp only [add, ha, hb, Bool.false_eq_true, if_false, signedValue, if_true]
  rw [if_neg (fun h0 => hneg.ne (Rat.num_eq_zero.1 h0)), ofRat, decide_eq_true hneg]
  exact ⟨_, rfl⟩

/-- A quotient of finite numbers is rounded once. -/
theorem number_div_eq {s t : Bool} (hb0 : b.code ≠ 0) :
    (number s a / number t b : Binary f) =
      number (s != t) (.ofRat f (a.toRat / b.toRat)) := by
  change div (number s a) (number t b) = _
  simp only [div, ha, hb, hb0, Bool.false_eq_true, if_false]

end Finite

end Binary

/-- A number of the format that still has a bit for one half keeps all its bits when an integer or
half of one is taken away. -/
theorem Magnitude.exists_toRat_eq_sub_half {p : ℕ} (hf : f.minExponent < 0)
    (hlt : a.toRat < f.hiddenBit) (hp : (p : ℚ) / 2 ≤ a.toRat) :
    ∃ d : Magnitude f, d.code ≤ a.code ∧ d.toRat = a.toRat - p / 2 := by
  obtain ⟨k, n, hcode, hn, hk⟩ := a.exists_code
  have hvalue := toRat_of_code hcode hn.le hk
  have hspacing : 0 < f.spacing k := Format.spacing_pos k
  -- one half is a multiple of the spacing
  have hhalf : f.minExponent + k < 0 := by
    by_contra hge
    have hone : (1 : ℚ) ≤ f.spacing k := one_le_zpow₀ one_le_two (by omega)
    have hlow : (f.hiddenBit : ℚ) ≤ n := by
      exact_mod_cast hk.resolve_left (by omega)
    nlinarith
  obtain ⟨i, hi⟩ : ∃ i : ℕ, -1 = f.minExponent + k + i :=
    ⟨(-1 - (f.minExponent + k)).toNat, by omega⟩
  have hunits : (p : ℚ) / 2 = (p * 2 ^ i : ℕ) * f.spacing k := by
    rw [Format.spacing, div_eq_mul_inv, ← zpow_neg_one, hi, zpow_add₀ two_ne_zero, zpow_natCast]
    push_cast
    ring
  have hle : p * 2 ^ i ≤ n := by
    rw [hunits, hvalue] at hp
    exact_mod_cast le_of_mul_le_mul_right hp hspacing
  obtain ⟨d, hd, hdvalue⟩ := exists_toRat_eq (f := f) (k := k) (n := n - p * 2 ^ i) (by omega)
    (by have := a.code_le; omega)
  refine ⟨d, by omega, ?_⟩
  rw [hdvalue, hvalue, hunits, Nat.cast_sub hle, sub_mul]

end TensorResize
