import TensorResize.Binary.Basic
import TensorResize.Tensor.Shape

/-!
# Constant tensors

A literal is a buffer of elements of one type with the lengths it is laid out by. The element type
of a literal is that of its buffer. A buffer is expected to hold as many elements as the lengths
say; nothing here depends on it.

## Main definitions

* `Buffer`, `Literal`.
* `Literal.toDoubles` — the elements as double-precision numbers.
* `Literal.toLengths` — the elements as lengths, nothing below zero.
-/

namespace TensorResize

/-- The elements of a constant tensor, in storage order. -/
inductive Buffer where
  | float32 (values : List Binary32)
  | float64 (values : List Binary64)
  | int32 (values : List Int32)
  | int64 (values : List Int64)
  deriving DecidableEq

namespace Buffer

def length : Buffer → Nat
  | float32 vs => vs.length
  | float64 vs => vs.length
  | int32 vs => vs.length
  | int64 vs => vs.length

def isEmpty (b : Buffer) : Bool := b.length == 0

def elementType : Buffer → ElementType
  | float32 _ => .float32
  | float64 _ => .float64
  | int32 _ => .int32
  | int64 _ => .int64

/-- The elements as double-precision numbers, rounded where a 64-bit integer has too many digits. -/
def toDoubles : Buffer → List Binary64
  | float32 vs => vs.map (Binary.convert .binary64)
  | float64 vs => vs
  | int32 vs => vs.map fun v => Binary.ofInt .binary64 v.toInt
  | int64 vs => vs.map fun v => Binary.ofInt .binary64 v.toInt

/-- The elements as lengths: integers below zero become zero, and floats are truncated. -/
def toLengths : Buffer → List Nat
  | float32 vs => vs.map Binary.toWord
  | float64 vs => vs.map Binary.toWord
  | int32 vs => vs.map fun v => v.toInt.toNat
  | int64 vs => vs.map fun v => v.toInt.toNat

@[simp] theorem length_toDoubles (b : Buffer) : b.toDoubles.length = b.length := by
  cases b <;> simp [toDoubles, length]

@[simp] theorem length_toLengths (b : Buffer) : b.toLengths.length = b.length := by
  cases b <;> simp [toLengths, length]

end Buffer

/-- A constant tensor. -/
structure Literal where
  lens : List Nat
  buffer : Buffer
  deriving DecidableEq

namespace Literal

def shape (l : Literal) : Shape := .ofLens l.buffer.elementType l.lens

def isEmpty (l : Literal) : Bool := l.buffer.isEmpty

def toDoubles (l : Literal) : List Binary64 := l.buffer.toDoubles

def toLengths (l : Literal) : List Nat := l.buffer.toLengths

/-- The same elements laid out by other lengths. -/
def withLens (l : Literal) (lens : List Nat) : Literal := ⟨lens, l.buffer⟩

end Literal

end TensorResize
