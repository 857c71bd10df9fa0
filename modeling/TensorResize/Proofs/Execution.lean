import Mathlib.Algebra.Ring.Defs
import TensorResize.Proofs.Tensor
import TensorResize.Resize.Lowering

/-!
# Running a program

A program runs on the values of the nodes that exist before it. A value is a tensor of elements or a
tensor of integers; elements are of any type that comes with an arithmetic, integers are what a
gather is indexed by. A call has no value if its operands do not fit it, and neither has the resize
that is left to the running graph.

## Main definitions

* `Arithmetic`, `Value`.
* `Instruction.eval`, `Program.run` — the values of an instruction and of a program.
-/

namespace TensorResize

open RowMajor

variable {α : Type}

/-- How elements are read off constants and combined. -/
structure Arithmetic (α : Type) where
  single : Binary32 → α
  double : Binary64 → α
  add : α → α → α
  sub : α → α → α
  mul : α → α → α

/-- The arithmetic of a ring, for some reading of the constants. -/
def Arithmetic.ofRing {R : Type} [CommRing R] (single : Binary32 → R) (double : Binary64 → R) :
    Arithmetic R where
  single := single
  double := double
  add := (· + ·)
  sub := (· - ·)
  mul := (· * ·)

/-- The value of a node. -/
inductive Value (α : Type) where
  | elements (tensor : Tensor α)
  | integers (tensor : Tensor ℤ)

/-- The integers of a buffer that holds integers. -/
def Buffer.integers : Buffer → List ℤ
  | int32 vs => vs.map Int32.toInt
  | int64 vs => vs.map Int64.toInt
  | float32 _ | float64 _ => []

/-- Integers are read as lengths with what is below zero at zero. -/
theorem Buffer.toLengths_eq_map {b : Buffer} (h : b.elementType.isInteger) :
    b.toLengths = b.integers.map Int.toNat := by
  cases b with
  | int32 vs => simp [toLengths, integers]
  | int64 vs => simp [toLengths, integers]
  | float32 vs => cases h
  | float64 vs => cases h

namespace Value

/-- The value of a constant. -/
def ofLiteral (A : Arithmetic α) (l : Literal) : Option (Value α) :=
  match l.buffer with
  | .float32 vs => (Tensor.ofList? l.lens (vs.map A.single)).map elements
  | .float64 vs => (Tensor.ofList? l.lens (vs.map A.double)).map elements
  | .int32 _ | .int64 _ => (Tensor.ofList? l.lens l.buffer.integers).map integers

/-- A movement of elements, which does not look at them. -/
def move (f : {β : Type} → Tensor β → Option (Tensor β)) : Value α → Option (Value α)
  | elements t => (f t).map elements
  | integers t => (f t).map integers

/-- An operation on the elements of two values. -/
def combine (op : α → α → α) : Value α → Value α → Option (Value α)
  | elements s, elements t => (Tensor.zipWith op s t).map elements
  | _, _ => none

end Value

/-- The value of an instruction. -/
def Instruction.eval (A : Arithmetic α) : Instruction → List (Value α) → Option (Value α)
  | reshape dims, [v] => v.move (Tensor.reshape (dims.map fun d => d.toInt.toNat))
  | gather axis, [v, .integers indices] => v.move fun t => t.gather axis indices
  | slice axes starts ends, [v] => v.move fun t => t.slice axes starts ends
  | add, [v, w] => v.combine A.add w
  | sub, [v, w] => v.combine A.sub w
  | mul, [v, w] => v.combine A.mul w
  | _, _ => none

/-- The value of an operand, where `env` gives the values of the nodes that exist and `results`
those of the calls so far. -/
def Operand.value (env : NodeId → Option (Value α)) (results : List (Value α)) :
    Operand → Option (Value α)
  | node id => env id
  | result call => results[call]?

/-- The value of the node that a call adds. -/
def Call.eval (A : Arithmetic α) (env : NodeId → Option (Value α)) (results : List (Value α)) :
    Call Operand → Option (Value α)
  | literal l => Value.ofLiteral A l
  | instruction operation inputs => do
    operation.eval A (← inputs.mapM (Operand.value env results))

/-- The values of calls made one after the other, behind those of earlier calls. -/
def runCalls (A : Arithmetic α) (env : NodeId → Option (Value α)) :
    List (Value α) → List (Call Operand) → Option (List (Value α))
  | results, [] => some results
  | results, call :: calls => do
    let value ← call.eval A env results
    runCalls A env (results ++ [value]) calls

/-- The value that a program computes, which is that of its last call. -/
def Program.run (A : Arithmetic α) (env : NodeId → Option (Value α)) (p : Program) :
    Option (Value α) := do
  (← runCalls A env [] p.calls).getLast?

variable {A : Arithmetic α} {env : NodeId → Option (Value α)} {lens : List ℕ}

theorem runCalls_append (results : List (Value α)) (xs ys : List (Call Operand)) :
    runCalls A env results (xs ++ ys) =
      (runCalls A env results xs).bind fun results => runCalls A env results ys := by
  induction xs generalizing results with
  | nil => rfl
  | cons x xs ih =>
    simp only [List.cons_append, runCalls, Option.bind_eq_bind, Option.bind_assoc, ih]

/-! ## Index constants -/

theorem lens_indexLiteral (lens offsets : List ℕ) (total : ℕ) :
    (indexLiteral lens offsets total).lens = lens := by
  rw [indexLiteral]
  split
  · rfl
  · rfl

theorem isInteger_indexLiteral (lens offsets : List ℕ) (total : ℕ) :
    (indexLiteral lens offsets total).buffer.elementType.isInteger := by
  rw [indexLiteral]
  split
  · rfl
  · rfl

theorem elementType_indexLiteral (lens offsets : List ℕ) (total : ℕ) :
    (indexLiteral lens offsets total).buffer.elementType =
      if total ≤ 2147483647 then .int32 else .int64 := by
  rw [indexLiteral]
  split
  · rfl
  · rfl

/-- What an offset becomes in an index constant for a source of `total` elements. Bits that the
element type has no room for are dropped. -/
def writtenIndex (total offset : ℕ) : ℤ :=
  if total ≤ 2147483647 then (Int32.ofNat offset).toInt else (Int64.ofNat offset).toInt

theorem integers_indexLiteral_eq_map (lens offsets : List ℕ) (total : ℕ) :
    (indexLiteral lens offsets total).buffer.integers = offsets.map (writtenIndex total) := by
  unfold indexLiteral writtenIndex
  split
  · exact List.map_map
  · exact List.map_map

theorem length_integers_indexLiteral (lens offsets : List ℕ) (total : ℕ) :
    (indexLiteral lens offsets total).buffer.integers.length = offsets.length := by
  rw [integers_indexLiteral_eq_map, List.length_map]

/-- The first offset that the element type of an index constant has no room for. -/
def indexLimit (total : ℕ) : ℕ := if total ≤ 2147483647 then 2 ^ 31 else 2 ^ 63

theorem writtenIndex_eq_self {total k : ℕ} (h : k < indexLimit total) :
    writtenIndex total k = k := by
  rw [indexLimit] at h
  rw [writtenIndex]
  split
  · next hnarrow =>
    rw [if_pos hnarrow] at h
    exact Int32.toInt_ofNat_of_lt h
  · next hwide =>
    rw [if_neg hwide] at h
    exact Int64.toInt_ofNat_of_lt h

/-- There is room for every position in a source whose elements a signed word can count. -/
theorem lt_indexLimit {total k : ℕ} (htotal : total < 2 ^ 63) (h : k < total) :
    k < indexLimit total := by
  rw [indexLimit]
  split
  · omega
  · omega

/-- The integers of an index constant are the offsets, if these are positions in the source. -/
theorem integers_indexLiteral (lens : List ℕ) {offsets : List ℕ} {total : ℕ}
    (htotal : total < 2 ^ 63) (h : ∀ k ∈ offsets, k < total) :
    (indexLiteral lens offsets total).buffer.integers = offsets.map (Nat.cast : ℕ → ℤ) := by
  rw [integers_indexLiteral_eq_map]
  apply List.map_congr_left
  intro k hk
  exact writtenIndex_eq_self (lt_indexLimit htotal (h k hk))

/-- An index constant reads back as the offsets that it was made of. -/
theorem toLengths_indexLiteral (lens : List ℕ) {offsets : List ℕ} {total : ℕ}
    (htotal : total < 2 ^ 63) (h : ∀ k ∈ offsets, k < total) :
    (indexLiteral lens offsets total).toLengths = offsets := by
  have hread : (indexLiteral lens offsets total).toLengths =
      (indexLiteral lens offsets total).buffer.integers.map Int.toNat :=
    Buffer.toLengths_eq_map (isInteger_indexLiteral lens offsets total)
  rw [hread, integers_indexLiteral lens htotal h, List.map_map]
  exact List.map_id'' (fun k => Int.toNat_natCast k) offsets

theorem ofLiteral_indexLiteral {total : ℕ} {offsets : ℕ → ℕ} (htotal : total < 2 ^ 63)
    (h : ∀ k < count lens, offsets k < total) :
    Value.ofLiteral A (indexLiteral lens ((List.range (count lens)).map offsets) total) =
      some (.integers (Tensor.tabulate lens fun k => (offsets k : ℤ))) := by
  have hbounded : ∀ k ∈ (List.range (count lens)).map offsets, k < total := by simpa using h
  have hvalue : Value.ofLiteral A
      (indexLiteral lens ((List.range (count lens)).map offsets) total) =
      (Tensor.ofList? lens (indexLiteral lens ((List.range (count lens)).map offsets)
        total).buffer.integers).map Value.integers := by
    unfold indexLiteral
    split <;> rfl
  rw [hvalue, integers_indexLiteral lens htotal hbounded, List.map_map]
  exact congrArg (Option.map Value.integers) (Tensor.ofList?_map_range rfl _)

/-! ## The gather -/

/-- Flattening the source and gathering from it reads it at the offsets. -/
theorem runCalls_gatherCalls {data : NodeId} {source : Tensor α} {offsets : ℕ → ℕ} (default : α)
    (henv : env data = some (.elements source)) (htotal : count source.lens < 2 ^ 63)
    (h : ∀ k < count lens, offsets k < count source.lens) :
    ∃ flat indices, runCalls A env []
      (ResizePlan.gatherCalls data (count source.lens)
        (indexLiteral lens ((List.range (count lens)).map offsets) (count source.lens))) =
      some [flat, indices,
        .elements (Tensor.tabulate lens fun k => source.values.getD (offsets k) default)] := by
  have hflat : source.reshape [count source.lens] =
      some (Tensor.tabulate [count source.lens] fun k => source.values.getD k default) := by
    conv_lhs => rw [source.eq_tabulate default]
    exact Tensor.reshape_tabulate (by simp) _
  have hgather := Tensor.gather_flat
    (fun k => source.values.getD k default) h
  have hdim : (Int64.ofNat (count source.lens)).toInt.toNat = count source.lens := by
    rw [Int64.toInt_ofNat_of_lt htotal, Int.toNat_natCast]
  refine ⟨.elements (Tensor.tabulate [count source.lens] fun k => source.values.getD k default),
    .integers (Tensor.tabulate lens fun k => (offsets k : ℤ)), ?_⟩
  simp only [ResizePlan.gatherCalls, runCalls, Call.eval, List.mapM_cons, List.mapM_nil,
    Operand.value, Instruction.eval, Value.move, List.map_cons, List.map_nil, List.nil_append,
    List.cons_append, List.getElem?_cons_zero, List.getElem?_cons_succ, Option.bind_eq_bind,
    Option.bind_some, Option.pure_def, Option.map_some, henv, hdim, hflat, hgather,
    ofLiteral_indexLiteral htotal h]

end TensorResize
