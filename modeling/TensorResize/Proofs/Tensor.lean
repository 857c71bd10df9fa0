import Mathlib.Data.List.GetD
import TensorResize.Graph.Basic
import TensorResize.Proofs.Layout
import TensorResize.Proofs.Sequencing

/-!
# Tensors

A tensor is a list of elements in row-major order together with the lengths of its axes. The
movement of elements is defined coordinate by coordinate and fails where it would read an element
that is not there: a gather with an index outside its axis has no result.

Every tensor is tabulated by a function of the stored position. The theorems below say what each
movement does to that function.

## Main definitions

* `Tensor` — elements under lengths.
* `Tensor.at?` — the element at some coordinates.
* `Tensor.reshape`, `Tensor.gather`, `Tensor.slice`, `Tensor.zipWith` — the operations on tensors.
* `Tensor.tabulate` — the tensor of a function of the position.
-/

namespace TensorResize

open RowMajor

/-- The elements of a tensor in row-major order, as many as its lengths say. -/
@[ext]
structure Tensor (α : Type) where
  lens : List ℕ
  values : List α
  length_values : values.length = count lens

namespace Tensor

variable {α β γ : Type} {lens : List ℕ}

/-! ## Operations -/

/-- The tensor of a list of elements, if there are as many as the lengths say. -/
def ofList? (lens : List ℕ) (values : List α) : Option (Tensor α) :=
  if h : values.length = count lens then some ⟨lens, values, h⟩ else none

/-- The element at `coords`, if they are in range. -/
def at? (t : Tensor α) (coords : List ℕ) : Option α :=
  if InRange t.lens coords then t.values[position t.lens coords]? else none

/-- The tensor whose element at `coords` is `f coords`, if each of them is there. -/
def ofCoordinates? (lens : List ℕ) (f : List ℕ → Option α) : Option (Tensor α) := do
  let values ← (List.range (count lens)).mapM fun flat => f (coordinates lens flat)
  ofList? lens values

/-- The same elements in the same order under other lengths. -/
def reshape (lens : List ℕ) (t : Tensor α) : Option (Tensor α) := ofList? lens t.values

/-- The slices of `t` along `axis` that `indices` selects. The axes of `indices` stand in the place
of that axis. -/
def gather (axis : ℕ) (t : Tensor α) (indices : Tensor ℤ) : Option (Tensor α) :=
  let rank := indices.lens.length
  ofCoordinates? (t.lens.take axis ++ indices.lens ++ t.lens.drop (axis + 1)) fun coords => do
    let index ← indices.at? ((coords.drop axis).take rank)
    let index ← index.toNat?
    t.at? (coords.take axis ++ index :: coords.drop (axis + rank))

/-- The elements of `t` between two bounds along `axis`, which are clamped to the axis. -/
def sliceAxis (t : Tensor α) (axis : ℕ) (start stop : Int64) : Option (Tensor α) := do
  let len ← t.lens[axis]?
  ofCoordinates? (t.lens.set axis (keptLength len start stop)) fun coords =>
    t.at? (coords.modify axis (· + min start.toInt.toNat len))

/-- The elements between bounds along several axes, one after the other. -/
def slice (t : Tensor α) (axes : List ℕ) (starts ends : List Int64) : Option (Tensor α) :=
  (axes.zip (starts.zip ends)).foldlM (fun t cut => t.sliceAxis cut.1 cut.2.1 cut.2.2) t

/-- Two tensors of the same lengths combined element by element. -/
def zipWith (f : α → β → γ) (s : Tensor α) (t : Tensor β) : Option (Tensor γ) :=
  if s.lens = t.lens then ofList? s.lens (List.zipWith f s.values t.values) else none

/-! ## Tabulated tensors -/

/-- The tensor with `f k` at position `k`. -/
def tabulate (lens : List ℕ) (f : ℕ → α) : Tensor α :=
  ⟨lens, (List.range (count lens)).map f, by simp⟩

@[simp] theorem lens_tabulate (f : ℕ → α) : (tabulate lens f).lens = lens := rfl

@[simp] theorem values_tabulate (f : ℕ → α) :
    (tabulate lens f).values = (List.range (count lens)).map f := rfl

theorem eq_tabulate (t : Tensor α) (default : α) :
    t = tabulate t.lens fun k => t.values.getD k default := by
  ext1
  · rfl
  · apply List.ext_getElem (by simp [t.length_values])
    intro k hk _
    simp [hk]

theorem ofList?_map_range {n : ℕ} (hn : n = count lens) (f : ℕ → α) :
    ofList? lens ((List.range n).map f) = some (tabulate lens f) := by
  subst hn
  exact dif_pos _

theorem ofCoordinates?_eq_some {f : List ℕ → Option α} {g : ℕ → α}
    (h : ∀ k < count lens, f (coordinates lens k) = some (g k)) :
    ofCoordinates? lens f = some (tabulate lens g) := by
  have hvalues : (List.range (count lens)).mapM (fun k => f (coordinates lens k)) =
      some ((List.range (count lens)).map g) :=
    mapM_eq_pure_map fun k hk => h k (List.mem_range.1 hk)
  rw [ofCoordinates?, hvalues]
  exact ofList?_map_range rfl g

theorem at?_tabulate {coords : List ℕ} (h : InRange lens coords) (f : ℕ → α) :
    (tabulate lens f).at? coords = some (f (position lens coords)) := by
  rw [at?, lens_tabulate, if_pos h, values_tabulate, List.getElem?_map,
    List.getElem?_range (position_lt h)]
  rfl

theorem reshape_tabulate {lens' : List ℕ} (h : count lens = count lens') (f : ℕ → α) :
    (tabulate lens f).reshape lens' = some (tabulate lens' f) := ofList?_map_range h f

theorem zipWith_tabulate (op : α → β → γ) (f : ℕ → α) (g : ℕ → β) :
    zipWith op (tabulate lens f) (tabulate lens g) =
      some (tabulate lens fun k => op (f k) (g k)) := by
  simp only [zipWith, lens_tabulate, values_tabulate, if_true, List.zipWith_map, List.zipWith_self]
  exact ofList?_map_range rfl _

/-- A gather from a flat tensor reads it position by position, if every index is in range. -/
theorem gather_flat {n : ℕ} (f : ℕ → α) {indices : ℕ → ℕ}
    (h : ∀ k < count lens, indices k < n) :
    gather 0 (tabulate [n] f) (tabulate lens fun k => (indices k : ℤ)) =
      some (tabulate lens fun k => f (indices k)) := by
  have hlens : [n].take 0 ++ lens ++ [n].drop 1 = lens := by simp
  rw [gather]
  simp only [lens_tabulate, hlens]
  apply ofCoordinates?_eq_some
  intro k hk
  have hlength : (coordinates lens k).length = lens.length := length_coordinates lens k
  have hread : InRange [n] [indices k] := by simpa using h k hk
  rw [List.drop_zero, Nat.zero_add, ← hlength, List.take_length, List.drop_length,
    at?_tabulate (inRange_coordinates hk), position_coordinates hk]
  simp only [Option.bind_eq_bind, Option.bind_some, Int.toNat?, List.take_zero, List.nil_append,
    at?_tabulate hread]
  simp [position]

/-- A slice along the leading axis reads on from the first row that it keeps. -/
theorem sliceAxis_rows {len first last : ℕ} {start stop : Int64} (f : ℕ → α)
    (hstart : start.toInt = first) (hstop : stop.toInt = last) (hle : first ≤ last)
    (hlen : last ≤ len) :
    (tabulate (len :: lens) f).sliceAxis 0 start stop =
      some (tabulate ((last - first) :: lens) fun k => f (first * count lens + k)) := by
  have hkept : keptLength len start stop = last - first := by
    rw [keptLength]; omega
  have hfirst : min start.toInt.toNat len = first := by omega
  rw [sliceAxis, lens_tabulate]
  simp only [List.getElem?_cons_zero, Option.bind_eq_bind, Option.bind_some, List.set_cons_zero,
    hkept, hfirst]
  apply ofCoordinates?_eq_some
  intro k hk
  have hin := inRange_coordinates hk
  have hpos := position_coordinates hk
  rw [coordinates_cons] at hin hpos ⊢
  have hread : InRange (len :: lens)
      ((k / count lens + first) :: coordinates lens (k % count lens)) :=
    ⟨by have := hin.1; omega, hin.2⟩
  rw [List.modify_zero_cons, at?_tabulate hread, position_cons, Nat.add_mul]
  rw [position_cons] at hpos
  congr 2
  omega

end Tensor

end TensorResize
