import TensorResize.Proofs.SampleRange

/-!
# Wider formats

Every number of a format is a number of a wider one. A conversion to the wider format is exact and
the conversion back yields the number again, with its sign if it is zero.

## Main definitions

* `Format.Widens` — another format holds the numbers of this one.
-/

namespace TensorResize

variable {f g : Format}

/-- The numbers of the format `f` are numbers of the format `g`: it has as many digits, and its
binades reach from below the lowest of `f` to beyond the highest. -/
structure Format.Widens (f g : Format) : Prop where
  digits : f.hiddenBit ≤ g.hiddenBit
  lowest : g.minExponent + g.fractionBits ≤ f.minExponent
  highest : (f.minExponent + (f.infinityCode / f.hiddenBit : ℕ) + 3 - g.minExponent).toNat *
    g.hiddenBit ≤ g.infinityCode

theorem Format.widens_binary64 : Widens binary32 binary64 := ⟨by decide, by decide, by decide⟩

namespace Magnitude

theorem eq_infinity {m : Magnitude f} (h : m.isInfinite = true) : m = infinity := by
  obtain ⟨code, hcode⟩ := m
  obtain rfl : code = f.infinityCode := by simpa [isInfinite] using h
  rfl

/-- The value of a magnitude is that of a finite one of a wider format. -/
theorem ofRat_toRat_of_widens (h : f.Widens g) (m : Magnitude f) :
    (ofRat g m.toRat).isInfinite = false ∧ (ofRat g m.toRat).toRat = m.toRat := by
  obtain ⟨k, n, hcode, hn, hk⟩ := m.exists_code
  have hbinade : k ≤ f.infinityCode / f.hiddenBit := by
    rw [Nat.le_div_iff_mul_le Format.hiddenBit_pos]
    have := m.code_le
    omega
  have hvalue : m.toRat = n * 2 ^ (f.minExponent + k) := toRat_of_code hcode hn.le hk
  have hlowest := h.lowest
  have hdigits := h.digits
  have hlarge : (f.minExponent + k + 3 - g.minExponent).toNat * g.hiddenBit ≤ g.infinityCode :=
    (Nat.mul_le_mul_right _ (by omega)).trans h.highest
  obtain ⟨hcode', hvalue'⟩ := @code_ofRat_natCast_mul g n (f.minExponent + k)
    (by omega) (by omega) hlarge
  rw [hvalue]
  exact ⟨Binary.isInfinite_eq_false hcode', hvalue'⟩

end Magnitude

/-- A number is converted to a wider format and back without a change. -/
theorem Binary.convert_convert (h : f.Widens g) (x : Binary f) : convert f (convert g x) = x := by
  cases x with
  | nan => rfl
  | number negative m =>
    rw [convert]
    cases hinfinite : m.isInfinite with
    | true =>
      rw [Magnitude.eq_infinity hinfinite]
      simp [convert, Magnitude.isInfinite, Magnitude.infinity]
    | false =>
      obtain ⟨hfinite, hvalue⟩ := m.ofRat_toRat_of_widens h
      simp [convert, hfinite, hvalue, Magnitude.ofRat_toRat]

end TensorResize
