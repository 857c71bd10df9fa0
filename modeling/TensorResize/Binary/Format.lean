/-!
# Binary floating-point formats

A format is given by the widths of its fraction and exponent fields. A magnitude is the bit pattern
of a non-negative number that is no NaN; read as a natural number it is called the code. Codes are
ordered as the numbers they stand for, and the greatest code is infinity.

`Magnitude.ofRat` rounds an exact rational to the nearest magnitude, ties to the even code. It is
the only rounding in the library: every operation on `Binary` computes an exact rational first and
rounds once.

## Main definitions

* `Format.binary32`, `Format.binary64` — the two formats in use.
* `Magnitude.toRat` — the value of a finite magnitude.
* `Magnitude.ofRat` — the nearest magnitude to a rational.
-/

namespace TensorResize

/-- A binary interchange format: the widths of its two fields. -/
structure Format where
  fractionBits : Nat
  exponentBits : Nat
  deriving DecidableEq

namespace Format

/-- Single precision. -/
def binary32 : Format := ⟨23, 8⟩

/-- Double precision. -/
def binary64 : Format := ⟨52, 11⟩

variable (f : Format)

/-- The weight of the leading bit that a normal number does not store. -/
def hiddenBit : Nat := 1 <<< f.fractionBits

/-- The code of infinity: a full exponent field over an empty fraction. -/
def infinityCode : Nat := (1 <<< f.exponentBits - 1) * f.hiddenBit

/-- The weight of a sign bit, just above the exponent field. -/
def signBit : Nat := 1 <<< (f.fractionBits + f.exponentBits)

/-- The exponent of the least positive magnitude, `-1074` for double precision. -/
def minExponent : Int := 2 - (1 <<< (f.exponentBits - 1) : Nat) - f.fractionBits

end Format

/-- Two to an integer power. -/
def twoPow : Int → Rat
  | .ofNat n => ((1 <<< n : Nat) : Rat)
  | .negSucc n => mkRat 1 (1 <<< (n + 1))

/-- The `k` with `2 ^ k ≤ q < 2 ^ (k + 1)`, for a positive `q`. The bit lengths of numerator and
denominator leave two candidates. -/
def binaryLog (q : Rat) : Int :=
  let k : Int := (q.num.toNat.log2 : Int) - (q.den.log2 : Int)
  if q < twoPow k then k - 1 else k

/-- The natural number nearest to a non-negative rational; a tie goes to the even neighbour. -/
def roundHalfEven (q : Rat) : Nat :=
  let n := q.num.toNat / q.den
  let r := q.num.toNat % q.den
  if 2 * r < q.den ∨ 2 * r = q.den ∧ n % 2 = 0 then n else n + 1

/-- The bit pattern, without its sign, of a number that is no NaN. -/
structure Magnitude (f : Format) where
  code : Nat
  code_le : code ≤ f.infinityCode
  deriving DecidableEq

namespace Magnitude

variable {f : Format}

def zero : Magnitude f := ⟨0, Nat.zero_le _⟩

def infinity : Magnitude f := ⟨f.infinityCode, Nat.le_refl _⟩

def isInfinite (m : Magnitude f) : Bool := m.code == f.infinityCode

/-- The value of a finite magnitude. With an empty exponent field the fraction counts units of the
least positive magnitude; otherwise the hidden bit joins it and the exponent field scales it. -/
def toRat (m : Magnitude f) : Rat :=
  let exponent := m.code / f.hiddenBit
  let fraction := m.code % f.hiddenBit
  if exponent = 0 then (fraction : Rat) * twoPow f.minExponent
  else ((f.hiddenBit + fraction : Nat) : Rat) * twoPow (f.minExponent + (exponent - 1 : Nat))

/-- The magnitude nearest to a rational, ties to the even code; what is not positive gives zero.

The spacing `2 ^ e` is that of the numbers around `q`, but never below the least positive magnitude.
Adding the rounded multiple `m` of it to the exponent field carries into the next exponent by
itself, and a sum past infinity is infinity. -/
def ofRat (f : Format) (q : Rat) : Magnitude f :=
  if q.num ≤ 0 then zero
  else
    let e := max f.minExponent (binaryLog q - f.fractionBits)
    let m := roundHalfEven (q / twoPow e)
    ⟨min ((e - f.minExponent).toNat * f.hiddenBit + m) f.infinityCode, Nat.min_le_right _ _⟩

end Magnitude

end TensorResize
