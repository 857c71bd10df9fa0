import TensorResize.Binary.Format
import TensorResize.Word

/-!
# Binary floating-point numbers

A number of a binary format is a NaN, whose payload is not kept, or a sign with a magnitude; zero
and infinity have both signs. Each operation computes its exact rational result and rounds it once,
to nearest with ties to even. What is left to say case by case is the sign of a zero and the
operations on infinities and NaN.

## Main definitions

* `Binary f` — the numbers of the format `f`, with `+`, `-`, `*` and `/`.
* `Binary.maxNum`, `Binary.minNum` — the larger and the smaller operand; a NaN gives way.
* `Binary.floor`, `Binary.ceil`, `Binary.round` — the integral numbers around a number.
* `Binary.toWord` — truncation to a 64-bit length, saturating at both ends.
* `Binary.convert` — the same number in another format.
-/

namespace TensorResize

/-- A number of the format `f`. -/
inductive Binary (f : Format) where
  | nan
  | number (negative : Bool) (magnitude : Magnitude f)
  deriving DecidableEq

/-- Single-precision numbers. -/
abbrev Binary32 := Binary .binary32

/-- Double-precision numbers. -/
abbrev Binary64 := Binary .binary64

namespace Binary

variable {f g : Format}

/-! ## Numbers from exact values -/

/-- The number nearest to a rational; zero is positive. -/
def ofRat (f : Format) (q : Rat) : Binary f := .number (q < 0) (.ofRat f q.abs)

/-- The number nearest to a natural number. -/
def ofNat (f : Format) (n : Nat) : Binary f := .number false (.ofRat f n)

/-- The number nearest to an integer. -/
def ofInt (f : Format) (n : Int) : Binary f := ofRat f n

def zero : Binary f := .number false .zero

def one : Binary f := ofNat f 1

def half : Binary f := ofRat f (mkRat 1 2)

/-- Infinity with the given sign. -/
def infinity (negative : Bool) : Binary f := .number negative .infinity

/-- The exact value of a finite number with this sign and magnitude. -/
def signedValue (negative : Bool) (m : Magnitude f) : Rat :=
  if negative then -m.toRat else m.toRat

/-- The exact value of a finite number, and zero for NaN and the infinities. -/
def toRat : Binary f → Rat
  | .nan => 0
  | .number s m => if m.isInfinite then 0 else signedValue s m

/-- The bit pattern. A NaN has none, since it has many. -/
def bits? : Binary f → Option Nat
  | .nan => none
  | .number s m => some (if s then f.signBit + m.code else m.code)

/-! ## Arithmetic -/

/-- The number with the opposite sign. -/
def neg : Binary f → Binary f
  | .nan => .nan
  | .number s m => .number (!s) m

/-- The sum. Opposite infinities have none, and an exact zero is negative only if both operands
are. -/
def add : Binary f → Binary f → Binary f
  | .nan, _ => .nan
  | _, .nan => .nan
  | .number s a, .number t b =>
    if a.isInfinite then
      if b.isInfinite && s != t then .nan else .number s a
    else if b.isInfinite then .number t b
    else
      let sum := signedValue s a + signedValue t b
      if sum.num = 0 then .number (s && t) .zero else ofRat f sum

/-- The difference, which is the sum with the opposite number. -/
def sub (x y : Binary f) : Binary f := add x (neg y)

/-- The product. Zero times infinity has none, and the sign is that of the factors' signs, zero and
infinity included. -/
def mul : Binary f → Binary f → Binary f
  | .nan, _ => .nan
  | _, .nan => .nan
  | .number s a, .number t b =>
    if a.isInfinite || b.isInfinite then
      if a.code = 0 || b.code = 0 then .nan else infinity (s != t)
    else .number (s != t) (.ofRat f (a.toRat * b.toRat))

/-- The quotient. Zero by zero and infinity by infinity have none; anything else by zero is
infinite, and a finite number by infinity is zero. -/
def div : Binary f → Binary f → Binary f
  | .nan, _ => .nan
  | _, .nan => .nan
  | .number s a, .number t b =>
    if a.isInfinite then
      if b.isInfinite then .nan else infinity (s != t)
    else if b.isInfinite then .number (s != t) .zero
    else if b.code = 0 then
      if a.code = 0 then .nan else infinity (s != t)
    else .number (s != t) (.ofRat f (a.toRat / b.toRat))

instance : Neg (Binary f) := ⟨neg⟩
instance : Add (Binary f) := ⟨add⟩
instance : Sub (Binary f) := ⟨sub⟩
instance : Mul (Binary f) := ⟨mul⟩
instance : Div (Binary f) := ⟨div⟩

/-! ## Order -/

/-- The place of a number among the numbers of its format, infinities included. Both zeros have
place zero. -/
def place (negative : Bool) (m : Magnitude f) : Int :=
  if negative then -(m.code : Int) else m.code

/-- The larger operand, and the other one if one is a NaN. Of two zeros it is the second. -/
def maxNum : Binary f → Binary f → Binary f
  | .nan, y => y
  | x, .nan => x
  | .number s a, .number t b => if place t b < place s a then .number s a else .number t b

/-- The smaller operand, and the other one if one is a NaN. Of two zeros it is the second. -/
def minNum : Binary f → Binary f → Binary f
  | .nan, y => y
  | x, .nan => x
  | .number s a, .number t b => if place s a < place t b then .number s a else .number t b

/-! ## Integral numbers and conversions -/

/-- The integer nearest to a rational; a tie goes away from zero. -/
def roundHalfAway (q : Rat) : Int :=
  if q < 0 then -(-q + mkRat 1 2).floor else (q + mkRat 1 2).floor

/-- Applies a rounding to integers. The result keeps the operand's sign, so that `-0.3` rounds up
to negative zero; NaN and infinities stay. -/
def toIntegral (rounding : Rat → Int) : Binary f → Binary f
  | .nan => .nan
  | .number s m =>
    if m.isInfinite then .number s m
    else .number s (.ofRat f ((rounding (signedValue s m)).natAbs : Nat))

/-- The greatest integral number that is not above a number. -/
def floor (x : Binary f) : Binary f := x.toIntegral Rat.floor

/-- The least integral number that is not below a number. -/
def ceil (x : Binary f) : Binary f := x.toIntegral Rat.ceil

/-- The nearest integral number; a tie goes away from zero. -/
def round (x : Binary f) : Binary f := x.toIntegral roundHalfAway

/-- Truncation to a length: a NaN or a negative number gives zero, and what no word can hold gives
the greatest word. -/
def toWord : Binary f → Nat
  | .nan => 0
  | .number true _ => 0
  | .number false m =>
    if m.isInfinite then Word.greatest else min m.toRat.floor.toNat Word.greatest

/-- The number of the format `g` nearest to a number of the format `f`. -/
def convert (g : Format) : Binary f → Binary g
  | .nan => .nan
  | .number s m => .number s (if m.isInfinite then .infinity else .ofRat g m.toRat)

end Binary

end TensorResize
