import TensorResize.Word

/-!
# Row-major layout

A tensor with lengths `lens` is stored with its last axis fastest. Element counts, strides and
offsets are held in words: they are the exact numbers reduced modulo `2 ^ 64`, and agree with them
whenever the exact numbers fit.

## Main definitions

* `RowMajor.elements` — how many elements there are.
* `RowMajor.strides` — how far apart neighbours along each axis are stored.
* `RowMajor.offset` — where the element at some coordinates is stored.
* `RowMajor.advance` — the coordinates of the next element.
* `RowMajor.positions` — all positions in order, each with its coordinates.
-/

namespace TensorResize.RowMajor

/-- The exact product of the lengths. -/
def count : List Nat → Nat
  | [] => 1
  | len :: rest => len * count rest

/-- The number of elements, in a word. -/
def elements (lens : List Nat) : Nat := Word.wrap (count lens)

/-- The stride of each axis, in a word: the product of the lengths after it. -/
def strides : List Nat → List Nat
  | [] => []
  | _ :: rest => Word.wrap (count rest) :: strides rest

/-- The sum of the products of corresponding entries. -/
def dot : List Nat → List Nat → Nat
  | a :: as, b :: bs => a * b + dot as bs
  | _, _ => 0

/-- The position of the element at `coords`, in a word. -/
def offset (lens coords : List Nat) : Nat := Word.wrap (dot coords (strides lens))

/-- One turn of the odometer: the coordinates after `coords`, and whether every axis went back to
zero. The last axis turns first, and an axis that comes to its length carries into the one before. -/
def advance : List Nat → List Nat → List Nat × Bool
  | len :: lens, c :: cs =>
    match advance lens cs with
    | (cs, false) => (c :: cs, false)
    | (cs, true) => if c + 1 < len then ((c + 1) :: cs, false) else (0 :: cs, true)
  | _, _ => ([], true)

/-- The next `n` positions from `flat` on, each after its coordinates. -/
def walk (lens : List Nat) : Nat → List Nat → Nat → List (List Nat × Nat)
  | 0, _, _ => []
  | n + 1, coords, flat => (coords, flat) :: walk lens n (advance lens coords).1 (flat + 1)

/-- Every stored position in order, after its coordinates. -/
def positions (lens : List Nat) : List (List Nat × Nat) :=
  walk lens (elements lens) (List.replicate lens.length 0) 0

@[simp] theorem count_nil : count [] = 1 := rfl

@[simp] theorem count_cons (len : Nat) (rest : List Nat) :
    count (len :: rest) = len * count rest := rfl

@[simp] theorem length_strides (lens : List Nat) : (strides lens).length = lens.length := by
  induction lens with
  | nil => rfl
  | cons len rest ih => simp [strides, ih]

@[simp] theorem length_walk (lens : List Nat) (n : Nat) (coords : List Nat) (flat : Nat) :
    (walk lens n coords flat).length = n := by
  induction n generalizing coords flat with
  | zero => rfl
  | succ n ih => simp [walk, ih]

@[simp] theorem length_positions (lens : List Nat) :
    (positions lens).length = elements lens := by simp [positions]

theorem elements_eq_count {lens : List Nat} (h : count lens < Word.modulus) :
    elements lens = count lens := Word.wrap_eq_self h

end TensorResize.RowMajor
