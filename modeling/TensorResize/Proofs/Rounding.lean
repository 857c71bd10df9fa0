import Mathlib.Algebra.Order.Floor.Semifield
import Mathlib.Data.Int.Log
import Mathlib.Data.Rat.Floor
import Mathlib.Tactic.FieldSimp
import Mathlib.Tactic.Linarith
import Mathlib.Tactic.Positivity
import TensorResize.Binary.Format

/-!
# Rounding to a format

A finite magnitude is `n` units of the spacing `2 ^ (minExponent + k)`, where its code is
`k * hiddenBit + n`. Written this way, rounding an exact rational is monotone and leaves every
number of the format as it is. A number of few enough digits is a number of the format.

## Main definitions

* `Format.spacing` — the distance of neighbours in the `k`-th binade.
* `Format.InBinade` — the numbers of a binade, in units of its spacing.
-/

namespace TensorResize

/-! ## Nearest natural numbers -/

theorem roundHalfEven_eq (q : ℚ) (hq : 0 ≤ q) :
    (roundHalfEven q = ⌊q⌋₊ ∧ q - ⌊q⌋₊ ≤ 1 / 2) ∨
      (roundHalfEven q = ⌊q⌋₊ + 1 ∧ 1 / 2 ≤ q - ⌊q⌋₊) := by
  have hden : (0 : ℚ) < q.den := by exact_mod_cast q.den_pos
  have hnum : ((q.num.toNat : ℕ) : ℚ) = q.num := by
    exact_mod_cast Int.toNat_of_nonneg (Rat.num_nonneg.2 hq)
  have hq' : q = (q.num.toNat : ℚ) / q.den := by rw [hnum, Rat.num_div_den]
  have hfloor : ⌊q⌋₊ = q.num.toNat / q.den := by
    conv_lhs => rw [hq']
    exact Nat.floor_div_eq_div _ _
  have hsplit : q - ⌊q⌋₊ = (q.num.toNat % q.den : ℕ) / (q.den : ℚ) := by
    have h := Nat.div_add_mod q.num.toNat q.den
    have h' : (q.den : ℚ) * (q.num.toNat / q.den : ℕ) + (q.num.toNat % q.den : ℕ) =
        q.num.toNat := by exact_mod_cast h
    rw [hfloor, eq_div_iff hden.ne', sub_mul]
    nth_rewrite 1 [hq']
    rw [div_mul_cancel₀ _ hden.ne']
    linarith
  rw [roundHalfEven, hsplit, hfloor, div_le_iff₀ hden, le_div_iff₀ hden]
  by_cases hdown : 2 * (q.num.toNat % q.den) < q.den ∨
      2 * (q.num.toNat % q.den) = q.den ∧ q.num.toNat / q.den % 2 = 0
  · refine Or.inl ⟨if_pos hdown, ?_⟩
    have : 2 * (q.num.toNat % q.den) ≤ q.den := by omega
    have : (2 : ℚ) * (q.num.toNat % q.den : ℕ) ≤ q.den := by exact_mod_cast this
    linarith
  · refine Or.inr ⟨if_neg hdown, ?_⟩
    have : q.den ≤ 2 * (q.num.toNat % q.den) := by omega
    have : (q.den : ℚ) ≤ 2 * (q.num.toNat % q.den : ℕ) := by exact_mod_cast this
    linarith

theorem roundHalfEven_le (q : ℚ) (hq : 0 ≤ q) : (roundHalfEven q : ℚ) ≤ q + 1 / 2 := by
  have hfloor := Nat.floor_le hq
  rcases roundHalfEven_eq q hq with ⟨h, hd⟩ | ⟨h, hd⟩ <;> rw [h] <;> push_cast <;> linarith

theorem le_roundHalfEven (q : ℚ) (hq : 0 ≤ q) : q ≤ roundHalfEven q + 1 / 2 := by
  have hfloor := Nat.lt_floor_add_one q
  rcases roundHalfEven_eq q hq with ⟨h, hd⟩ | ⟨h, hd⟩ <;> rw [h] <;> push_cast <;> linarith

theorem roundHalfEven_mono {q r : ℚ} (hq : 0 ≤ q) (h : q ≤ r) :
    roundHalfEven q ≤ roundHalfEven r := by
  by_contra hlt
  have hstep : (roundHalfEven r : ℚ) + 1 ≤ roundHalfEven q := by exact_mod_cast not_le.1 hlt
  have hdown := roundHalfEven_le q hq
  have hup := le_roundHalfEven r (hq.trans h)
  -- the two errors of one half leave no room for different arguments
  have heq : q = r := by linarith
  exact hlt (by rw [heq])

@[simp] theorem roundHalfEven_natCast (n : ℕ) : roundHalfEven (n : ℚ) = n := by
  simp [roundHalfEven, Nat.mod_one]

/-! ## Powers of two -/

@[simp] theorem twoPow_eq (z : ℤ) : twoPow z = (2 : ℚ) ^ z := by
  cases z with
  | ofNat n => simp [twoPow, Nat.shiftLeft_eq]
  | negSucc n =>
    simp [twoPow, Nat.shiftLeft_eq, zpow_negSucc, Rat.mkRat_eq_div]

theorem binaryLog_eq_log {q : ℚ} (hq : 0 < q) : binaryLog q = Int.log 2 q := by
  have hnum : 0 < q.num := Rat.num_pos.2 hq
  have hq' : q = (q.num.toNat : ℚ) / q.den := by
    have : ((q.num.toNat : ℕ) : ℚ) = q.num := by exact_mod_cast Int.toNat_of_nonneg hnum.le
    rw [this, Rat.num_div_den]
  have hn : q.num.toNat ≠ 0 := by omega
  have hd : q.den ≠ 0 := q.den_nz
  generalize ha : q.num.toNat.log2 = a
  generalize hb : q.den.log2 = b
  have hnlo : (2 : ℚ) ^ a ≤ q.num.toNat := by exact_mod_cast ha ▸ Nat.log2_self_le hn
  have hnhi : (q.num.toNat : ℚ) < 2 ^ (a + 1) := by
    exact_mod_cast ha ▸ Nat.lt_log2_self (n := q.num.toNat)
  have hdlo : (2 : ℚ) ^ b ≤ q.den := by exact_mod_cast hb ▸ Nat.log2_self_le hd
  have hdhi : (q.den : ℚ) < 2 ^ (b + 1) := by
    exact_mod_cast hb ▸ Nat.lt_log2_self (n := q.den)
  have hdpos : (0 : ℚ) < q.den := by exact_mod_cast q.den_pos
  have hlo : (2 : ℚ) ^ ((a : ℤ) - b - 1) ≤ q := by
    rw [show (a : ℤ) - b - 1 = a - (b + 1 : ℕ) by push_cast; ring, zpow_sub₀ two_ne_zero,
      zpow_natCast, zpow_natCast, div_le_iff₀ (by positivity)]
    calc (2 : ℚ) ^ a ≤ q.num.toNat := hnlo
      _ = q * q.den := by nth_rewrite 2 [hq']; rw [div_mul_cancel₀ _ hdpos.ne']
      _ ≤ q * 2 ^ (b + 1) := mul_le_mul_of_nonneg_left hdhi.le hq.le
  have hhi : q < (2 : ℚ) ^ ((a : ℤ) - b + 1) := by
    rw [show (a : ℤ) - b + 1 = (a + 1 : ℕ) - b by push_cast; ring, zpow_sub₀ two_ne_zero,
      zpow_natCast, zpow_natCast, lt_div_iff₀ (by positivity)]
    calc q * 2 ^ b ≤ q * q.den := mul_le_mul_of_nonneg_left hdlo hq.le
      _ = q.num.toNat := by nth_rewrite 1 [hq']; rw [div_mul_cancel₀ _ hdpos.ne']
      _ < 2 ^ (a + 1) := hnhi
  have hle := (Int.zpow_le_iff_le_log one_lt_two hq).1 hlo
  have hlt := (Int.lt_zpow_iff_log_lt one_lt_two hq).1 hhi
  simp only [binaryLog, ha, hb, twoPow_eq]
  split
  · rename_i hsmall
    have := (Int.lt_zpow_iff_log_lt one_lt_two hq).1 hsmall
    omega
  · rename_i hlarge
    have := (Int.zpow_le_iff_le_log one_lt_two hq).1 (not_lt.1 hlarge)
    omega

namespace Format

variable (f : Format)

/-- The distance between neighbours in the `k`-th binade, counted from the lowest. -/
def spacing (k : ℕ) : ℚ := 2 ^ (f.minExponent + k)

/-- Numbers of the `k`-th binade in units of its spacing. The lowest binade reaches down to zero. -/
def InBinade (k : ℕ) (x : ℚ) : Prop := x < 2 * f.hiddenBit ∧ (k = 0 ∨ (f.hiddenBit : ℚ) ≤ x)

variable {f}

theorem hiddenBit_pos : 0 < f.hiddenBit := by
  rw [hiddenBit, Nat.one_shiftLeft]; exact Nat.two_pow_pos _

theorem spacing_pos (k : ℕ) : 0 < f.spacing k := zpow_pos two_pos _

theorem spacing_succ (k : ℕ) : f.spacing (k + 1) = 2 * f.spacing k := by
  rw [spacing, spacing, Nat.cast_succ, ← add_assoc, zpow_add_one₀ two_ne_zero, mul_comm]

theorem spacing_mono {k l : ℕ} (h : k ≤ l) : f.spacing k ≤ f.spacing l :=
  zpow_le_zpow_right₀ one_le_two (by omega)

/-- A larger number lies in no lower binade. -/
theorem InBinade.le {k l : ℕ} {q r : ℚ} (hq : f.InBinade k (q / f.spacing k))
    (hr : f.InBinade l (r / f.spacing l)) (h : q ≤ r) : k ≤ l := by
  by_contra hlt
  have hsucc : f.spacing (l + 1) ≤ f.spacing k := spacing_mono (by omega)
  have hlow : (f.hiddenBit : ℚ) * f.spacing k ≤ q :=
    (le_div_iff₀ (spacing_pos k)).1 (hq.2.resolve_left (by omega))
  have hhigh : r < 2 * f.hiddenBit * f.spacing l := (div_lt_iff₀ (spacing_pos l)).1 hr.1
  have hpos : (0 : ℚ) < f.hiddenBit := by exact_mod_cast hiddenBit_pos (f := f)
  rw [spacing_succ] at hsucc
  have := mul_le_mul_of_nonneg_left hsucc hpos.le
  linarith

variable (f) in
/-- The binades of the format reach from below one to beyond its integers without gaps. -/
def HoldsUnits : Prop :=
  f.minExponent + f.fractionBits ≤ 0 ∧ (3 - f.minExponent).toNat * f.hiddenBit ≤ f.infinityCode

theorem holdsUnits_binary64 : HoldsUnits binary64 := ⟨by decide, by decide⟩

end Format

namespace Magnitude

variable {f : Format}

open Format

/-! ## Codes and values -/

/-- A code of `k` hidden bits and `n` stands for `n` units of the spacing of the `k`-th binade. -/
theorem toRat_of_code {m : Magnitude f} {k n : ℕ} (hcode : m.code = k * f.hiddenBit + n)
    (hn : n ≤ 2 * f.hiddenBit) (hk : k = 0 ∨ f.hiddenBit ≤ n) : m.toRat = n * f.spacing k := by
  have hpos := hiddenBit_pos (f := f)
  have hdigits {j r : ℕ} (hr : r < f.hiddenBit) (h : m.code = f.hiddenBit * j + r) :
      m.code / f.hiddenBit = j ∧ m.code % f.hiddenBit = r := by
    rw [h, Nat.mul_add_div hpos, Nat.mul_add_mod, Nat.div_eq_of_lt hr, Nat.mod_eq_of_lt hr]
    exact ⟨Nat.add_zero j, rfl⟩
  rcases Nat.lt_or_ge n f.hiddenBit with hlow | hlow
  · obtain rfl : k = 0 := hk.resolve_right (by omega)
    obtain ⟨hexp, hfrac⟩ := hdigits (j := 0) hlow (by omega)
    simp [toRat, hexp, hfrac, spacing]
  rcases Nat.lt_or_ge n (2 * f.hiddenBit) with hhigh | hhigh
  · obtain ⟨hexp, hfrac⟩ := hdigits (j := k + 1) (r := n - f.hiddenBit) (by omega)
      (by rw [Nat.mul_succ, Nat.mul_comm]; omega)
    have hsum : f.hiddenBit + (n - f.hiddenBit) = n := by omega
    simp [toRat, hexp, hfrac, hsum, spacing]
  · -- twice the hidden bit carries into the exponent
    obtain rfl : n = 2 * f.hiddenBit := by omega
    obtain ⟨hexp, hfrac⟩ := hdigits (j := k + 2) (r := 0) hpos
      (by rw [Nat.mul_add, Nat.mul_comm]; omega)
    simp only [toRat, hexp, hfrac, twoPow_eq, Nat.add_zero]
    have := spacing_succ (f := f) k
    simp only [spacing] at this ⊢
    rw [if_neg (by omega), show k + 2 - 1 = k + 1 from rfl, this]
    push_cast
    ring

theorem exists_code (m : Magnitude f) : ∃ k n, m.code = k * f.hiddenBit + n ∧
    n < 2 * f.hiddenBit ∧ (k = 0 ∨ f.hiddenBit ≤ n) := by
  have hpos := hiddenBit_pos (f := f)
  have hmod := Nat.mod_lt m.code hpos
  have hsplit := Nat.div_add_mod' m.code f.hiddenBit
  rcases Nat.eq_zero_or_pos (m.code / f.hiddenBit) with h0 | h0
  · rw [h0] at hsplit
    exact ⟨0, m.code, by omega, by omega, Or.inl rfl⟩
  · obtain ⟨k, hk⟩ : ∃ k, m.code / f.hiddenBit = k + 1 := ⟨_, (Nat.succ_pred_eq_of_pos h0).symm⟩
    rw [hk, Nat.succ_mul] at hsplit
    exact ⟨k, f.hiddenBit + m.code % f.hiddenBit, by omega, by omega, Or.inr (by omega)⟩

theorem toRat_nonneg (m : Magnitude f) : 0 ≤ m.toRat := by
  obtain ⟨k, n, hcode, hn, hk⟩ := m.exists_code
  rw [toRat_of_code hcode hn.le hk]
  exact mul_nonneg n.cast_nonneg (spacing_pos k).le

@[simp] theorem toRat_zero : (zero : Magnitude f).toRat = 0 := by
  simpa using toRat_of_code (m := (zero : Magnitude f)) (k := 0) (n := 0) (by simp [zero])
    (by omega) (Or.inl rfl)

/-! ## Rounding -/

theorem ofRat_of_nonpos {q : ℚ} (hq : q ≤ 0) : ofRat f q = zero :=
  if_pos (Rat.num_nonpos.2 hq)

theorem code_ofRat {q : ℚ} (hq : 0 < q) : ∃ k, f.InBinade k (q / f.spacing k) ∧
    (ofRat f q).code =
      min (k * f.hiddenBit + roundHalfEven (q / f.spacing k)) f.infinityCode := by
  have hnum : ¬q.num ≤ 0 := not_le.2 (Rat.num_pos.2 hq)
  have hbit : (f.hiddenBit : ℚ) = 2 ^ (f.fractionBits : ℤ) := by
    rw [hiddenBit, Nat.one_shiftLeft]; push_cast; rw [zpow_natCast]
  have hlo : (2 : ℚ) ^ Int.log 2 q ≤ q := by
    exact_mod_cast Int.zpow_log_le_self (b := 2) one_lt_two hq
  have hhi : q < (2 : ℚ) ^ (Int.log 2 q + 1) := by
    exact_mod_cast Int.lt_zpow_succ_log_self (b := 2) one_lt_two q
  generalize he : max f.minExponent (Int.log 2 q - f.fractionBits) = e
  generalize hk : (e - f.minExponent).toNat = k
  have hspacing : f.spacing k = 2 ^ e := by rw [spacing]; congr 1; omega
  refine ⟨k, ⟨?_, ?_⟩, ?_⟩
  · rw [div_lt_iff₀ (spacing_pos k), hbit, hspacing, ← zpow_one_add₀ two_ne_zero,
      ← zpow_add₀ two_ne_zero]
    exact hhi.trans_le (zpow_le_zpow_right₀ one_le_two (by omega))
  · rcases Nat.eq_zero_or_pos k with h0 | h0
    · exact Or.inl h0
    · refine Or.inr ?_
      rw [le_div_iff₀ (spacing_pos k), hbit, hspacing, ← zpow_add₀ two_ne_zero]
      exact le_trans (zpow_le_zpow_right₀ one_le_two (by omega)) hlo
  · simp [ofRat, hnum, binaryLog_eq_log hq, he, hk, hspacing]

theorem roundHalfEven_le_of_inBinade {k : ℕ} {x : ℚ} (hx : 0 ≤ x) (h : f.InBinade k x) :
    roundHalfEven x ≤ 2 * f.hiddenBit ∧ (k = 0 ∨ f.hiddenBit ≤ roundHalfEven x) := by
  constructor
  · have hle : x ≤ (2 * f.hiddenBit : ℕ) := by push_cast; exact h.1.le
    exact (roundHalfEven_mono hx hle).trans_eq (roundHalfEven_natCast _)
  · apply h.2.imp_right
    intro hlow
    exact (roundHalfEven_natCast _).symm.trans_le
      (roundHalfEven_mono f.hiddenBit.cast_nonneg hlow)

/-- Rounding is monotone. -/
theorem ofRat_mono {q r : ℚ} (h : q ≤ r) : (ofRat f q).code ≤ (ofRat f r).code := by
  rcases le_or_gt q 0 with hq | hq
  · rw [ofRat_of_nonpos hq]; exact Nat.zero_le _
  obtain ⟨k, hbk, hcode⟩ := code_ofRat (f := f) hq
  obtain ⟨l, hbl, hcode'⟩ := code_ofRat (f := f) (hq.trans_le h)
  have hqk : 0 ≤ q / f.spacing k := (div_pos hq (spacing_pos k)).le
  have hrl : 0 ≤ r / f.spacing l := (div_pos (hq.trans_le h) (spacing_pos l)).le
  rw [hcode, hcode']
  refine min_le_min_right _ ?_
  rcases (hbk.le hbl h).eq_or_lt with rfl | hlt
  · exact Nat.add_le_add_left
      (roundHalfEven_mono hqk (div_le_div_of_nonneg_right h (spacing_pos k).le)) _
  · have hup := (roundHalfEven_le_of_inBinade hqk hbk).1
    have hlow := (roundHalfEven_le_of_inBinade hrl hbl).2.resolve_left (by omega)
    have hstep : (k + 1) * f.hiddenBit ≤ l * f.hiddenBit := Nat.mul_le_mul_right _ hlt
    rw [Nat.succ_mul] at hstep
    omega

/-- Rounding leaves the numbers of the format as they are. -/
theorem ofRat_toRat (m : Magnitude f) : ofRat f m.toRat = m := by
  obtain ⟨k, n, hcode, hn, hk⟩ := m.exists_code
  have hval := toRat_of_code hcode hn.le hk
  have hm : (ofRat f m.toRat).code = m.code := by
    rcases Nat.eq_zero_or_pos n with rfl | hpos
    · have h0 : k = 0 := hk.resolve_right (by have := hiddenBit_pos (f := f); omega)
      rw [hval, ofRat_of_nonpos (by simp), hcode, h0]; simp [zero]
    · have hq : 0 < m.toRat := by
        rw [hval]; exact mul_pos (by exact_mod_cast hpos) (spacing_pos k)
      have hunits : m.toRat / f.spacing k = n := by
        rw [hval, mul_div_cancel_right₀ _ (spacing_pos k).ne']
      have hbk : f.InBinade k (m.toRat / f.spacing k) := by
        rw [hunits]
        exact ⟨by exact_mod_cast hn, hk.imp_right fun h => by exact_mod_cast h⟩
      obtain ⟨l, hbl, hl⟩ := code_ofRat (f := f) hq
      obtain rfl : k = l := le_antisymm (hbk.le hbl le_rfl) (hbl.le hbk le_rfl)
      rw [hl, hunits, roundHalfEven_natCast, ← hcode, min_eq_left m.code_le]
  cases hr : ofRat f m.toRat
  cases m
  simp_all

theorem toRat_le_toRat_iff {m n : Magnitude f} : m.toRat ≤ n.toRat ↔ m.code ≤ n.code := by
  have hmono {a b : Magnitude f} (h : a.toRat ≤ b.toRat) : a.code ≤ b.code := by
    simpa [ofRat_toRat] using ofRat_mono (f := f) h
  constructor
  · exact hmono
  · intro h
    rcases le_total m.toRat n.toRat with hle | hle
    · exact hle
    · have heq : m = n := by
        cases m; cases n
        simp only [mk.injEq]
        exact le_antisymm h (hmono hle)
      rw [heq]

theorem toRat_eq_zero {m : Magnitude f} : m.toRat = 0 ↔ m.code = 0 := by
  have hle := toRat_le_toRat_iff (m := m) (n := .zero)
  rw [toRat_zero, zero, Nat.le_zero] at hle
  rw [← hle]
  exact ⟨le_of_eq, fun h => le_antisymm h m.toRat_nonneg⟩

/-- Rounding to a finite magnitude moves a number by at most half the spacing of its binade. -/
theorem exists_error_le {q : ℚ} (hq : 0 < q) (hfinite : (ofRat f q).code < f.infinityCode) :
    ∃ k, f.InBinade k (q / f.spacing k) ∧ |(ofRat f q).toRat - q| ≤ f.spacing k / 2 := by
  obtain ⟨k, hbinade, hcode⟩ := code_ofRat (f := f) hq
  refine ⟨k, hbinade, ?_⟩
  have hspacing : 0 < f.spacing k := spacing_pos k
  have hunits : 0 ≤ q / f.spacing k := (div_pos hq hspacing).le
  obtain ⟨hhigh, hlow⟩ := roundHalfEven_le_of_inBinade hunits hbinade
  rw [hcode] at hfinite
  have hexact : (ofRat f q).code = k * f.hiddenBit + roundHalfEven (q / f.spacing k) := by
    rw [hcode, min_eq_left (by omega)]
  rw [toRat_of_code hexact hhigh hlow]
  have hdown := roundHalfEven_le _ hunits
  have hup := le_roundHalfEven _ hunits
  have hscaled : q = q / f.spacing k * f.spacing k := (div_mul_cancel₀ _ hspacing.ne').symm
  rw [abs_le]
  constructor
  · nlinarith
  · nlinarith

/-- Above the lowest binade, rounding moves a number by at most half of its last digit. -/
theorem abs_error_le_div {q : ℚ} (hq : f.hiddenBit * f.spacing 0 ≤ q)
    (hfinite : (ofRat f q).code < f.infinityCode) :
    |(ofRat f q).toRat - q| ≤ q / (2 * f.hiddenBit) := by
  have hbit : (0 : ℚ) < f.hiddenBit := by exact_mod_cast hiddenBit_pos
  have hpos : 0 < q := (mul_pos hbit (spacing_pos 0)).trans_le hq
  obtain ⟨k, hbinade, herror⟩ := exists_error_le hpos hfinite
  have hlow : f.hiddenBit * f.spacing k ≤ q := by
    rcases hbinade.2 with rfl | hlow
    · exact hq
    · exact (le_div_iff₀ (spacing_pos k)).1 hlow
  rw [le_div_iff₀ (by positivity)]
  calc |(ofRat f q).toRat - q| * (2 * f.hiddenBit)
      ≤ f.spacing k / 2 * (2 * f.hiddenBit) := mul_le_mul_of_nonneg_right herror (by positivity)
    _ = f.hiddenBit * f.spacing k := by ring
    _ ≤ q := hlow

/-! ## Numbers of few digits -/

/-- Any number of units of a binade that is not beyond it is the value of a magnitude, also where it
lies in a lower binade. -/
theorem exists_toRat_eq {k n : ℕ} (hn : n ≤ 2 * f.hiddenBit)
    (hcode : k * f.hiddenBit + n ≤ f.infinityCode) :
    ∃ m : Magnitude f, m.code ≤ k * f.hiddenBit + n ∧ m.toRat = n * f.spacing k := by
  induction k generalizing n with
  | zero => exact ⟨⟨_, hcode⟩, le_rfl, toRat_of_code rfl hn (Or.inl rfl)⟩
  | succ k ih =>
    rcases Nat.lt_or_ge n f.hiddenBit with hlow | hlow
    · -- the same number in units of the binade below
      have hdouble : k * f.hiddenBit + 2 * n ≤ (k + 1) * f.hiddenBit + n := by
        rw [Nat.succ_mul k]; omega
      obtain ⟨m, hm, hvalue⟩ := ih (n := 2 * n) (by omega) (hdouble.trans hcode)
      refine ⟨m, hm.trans hdouble, ?_⟩
      rw [hvalue, spacing_succ]
      push_cast
      ring
    · exact ⟨⟨_, hcode⟩, le_rfl, toRat_of_code rfl hn (Or.inr hlow)⟩

/-- A number with no more digits than the format has is a number of the format, if it is neither too
small nor too large. -/
theorem code_ofRat_natCast_mul {n : ℕ} {z : ℤ} (hn : n ≤ 2 * f.hiddenBit)
    (hsmall : f.minExponent ≤ z)
    (hlarge : (z + 3 - f.minExponent).toNat * f.hiddenBit ≤ f.infinityCode) :
    (ofRat f (n * 2 ^ z)).code < f.infinityCode ∧ (ofRat f (n * 2 ^ z)).toRat = n * 2 ^ z := by
  obtain ⟨k, hk⟩ : ∃ k : ℕ, z = f.minExponent + k := ⟨(z - f.minExponent).toNat, by omega⟩
  have hpos := hiddenBit_pos (f := f)
  have hroom : (k + 3) * f.hiddenBit ≤ f.infinityCode :=
    (Nat.mul_le_mul_right _ (by omega)).trans hlarge
  rw [Nat.add_mul] at hroom
  obtain ⟨m, hm, hvalue⟩ := exists_toRat_eq (f := f) (k := k) hn (by omega)
  have hspacing : (n : ℚ) * 2 ^ z = m.toRat := by rw [hvalue, spacing, hk]
  rw [hspacing, ofRat_toRat]
  exact ⟨by omega, rfl⟩

theorem code_ofRat_natCast (hf : HoldsUnits f) {n : ℕ} (hn : n ≤ 2 * f.hiddenBit) :
    (ofRat f n).code < f.infinityCode ∧ (ofRat f n).toRat = n := by
  have hunits := code_ofRat_natCast_mul (z := 0) hn (by have := hf.1; omega) (by simpa using hf.2)
  rwa [zpow_zero, mul_one] at hunits

end Magnitude

end TensorResize
