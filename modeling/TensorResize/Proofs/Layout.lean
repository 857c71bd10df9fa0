import Mathlib.Data.Nat.Notation
import Mathlib.Tactic.Ring
import TensorResize.Tensor.RowMajor

/-!
# Row-major positions

The odometer of `RowMajor.positions` counts: after `flat` turns it shows the digits of `flat` in the
mixed radix of the lengths. Positions and coordinates in range are inverse to each other, and the
word arithmetic of strides and offsets is exact as soon as the number of elements fits a word.

## Main definitions

* `RowMajor.InRange` — one coordinate per axis, below its length.
* `RowMajor.position` — the exact position of an element.
* `RowMajor.coordinates` — the coordinates of a position.
-/

namespace TensorResize.RowMajor

variable {lens coords : List ℕ} {flat : ℕ}

/-- There is one coordinate for each axis, and it is below the length. -/
def InRange : List ℕ → List ℕ → Prop
  | [], [] => True
  | len :: lens, c :: cs => c < len ∧ InRange lens cs
  | _, _ => False

instance decidableInRange : (lens coords : List ℕ) → Decidable (InRange lens coords)
  | [], [] => isTrue trivial
  | _ :: lens, _ :: cs => have := decidableInRange lens cs; instDecidableAnd
  | [], _ :: _ => isFalse id
  | _ :: _, [] => isFalse id

/-- The position of the element at `coords`, not reduced to a word. -/
def position : List ℕ → List ℕ → ℕ
  | _ :: lens, c :: cs => c * count lens + position lens cs
  | _, _ => 0

/-- The coordinates of the element stored at `flat`. -/
def coordinates : List ℕ → ℕ → List ℕ
  | [], _ => []
  | _ :: lens, flat => flat / count lens :: coordinates lens (flat % count lens)

@[simp] theorem inRange_nil : InRange [] [] := trivial

@[simp] theorem inRange_cons {len c : ℕ} {cs : List ℕ} :
    InRange (len :: lens) (c :: cs) ↔ c < len ∧ InRange lens cs := Iff.rfl

@[simp] theorem position_cons (len c : ℕ) (cs : List ℕ) :
    position (len :: lens) (c :: cs) = c * count lens + position lens cs := rfl

@[simp] theorem coordinates_cons (len flat : ℕ) :
    coordinates (len :: lens) flat = flat / count lens :: coordinates lens (flat % count lens) :=
  rfl

@[simp] theorem length_coordinates (lens : List ℕ) (flat : ℕ) :
    (coordinates lens flat).length = lens.length := by
  induction lens generalizing flat with
  | nil => rfl
  | cons len lens ih => simp [ih]

theorem InRange.length_eq (h : InRange lens coords) : coords.length = lens.length := by
  induction lens generalizing coords with
  | nil => cases coords with
    | nil => rfl
    | cons c cs => exact h.elim
  | cons len lens ih => cases coords with
    | nil => exact h.elim
    | cons c cs => simp [ih h.2]

theorem InRange.getD_lt {d : ℕ} (h : InRange lens coords) (hd : d < lens.length) :
    coords.getD d 0 < lens[d] := by
  induction lens generalizing coords d with
  | nil => cases hd
  | cons len lens ih =>
    cases coords with
    | nil => cases h
    | cons c coords =>
      cases d with
      | zero => exact h.1
      | succ d => exact ih h.2 (Nat.lt_of_succ_lt_succ hd)

/-! ## Positions and coordinates -/

theorem count_pos_of_cons {len : ℕ} (h : flat < count (len :: lens)) : 0 < count lens :=
  Nat.pos_of_ne_zero fun h0 => by simp [h0] at h

theorem count_eq_zero : count lens = 0 ↔ 0 ∈ lens := by
  induction lens with
  | nil => simp
  | cons len lens ih => rw [count_cons, Nat.mul_eq_zero, ih, List.mem_cons, eq_comm]

theorem count_pos (h : 0 ∉ lens) : 0 < count lens :=
  Nat.pos_of_ne_zero (mt count_eq_zero.1 h)

theorem count_append (lens more : List ℕ) : count (lens ++ more) = count lens * count more := by
  induction lens with
  | nil => simp
  | cons len lens ih => rw [List.cons_append, count_cons, count_cons, ih, Nat.mul_assoc]

/-- Without empty dimensions, no partial product is greater than the number of elements. -/
theorem count_take_le (h : ∀ len ∈ lens, 0 < len) (k : ℕ) :
    count (lens.take k) ≤ count lens := by
  have hrest : 0 < count (lens.drop k) := by
    apply count_pos
    intro hzero
    exact absurd (h 0 (List.mem_of_mem_drop hzero)) (Nat.lt_irrefl 0)
  calc count (lens.take k) ≤ count (lens.take k) * count (lens.drop k) :=
        Nat.le_mul_of_pos_right _ hrest
    _ = count lens := by rw [← count_append, List.take_append_drop]

theorem position_lt (h : InRange lens coords) : position lens coords < count lens := by
  induction lens generalizing coords with
  | nil => simp [position]
  | cons len lens ih => cases coords with
    | nil => exact h.elim
    | cons c cs =>
      have hrest := ih h.2
      calc c * count lens + position lens cs
          < (c + 1) * count lens := by rw [Nat.succ_mul]; omega
        _ ≤ len * count lens := Nat.mul_le_mul_right _ h.1

theorem inRange_coordinates (h : flat < count lens) : InRange lens (coordinates lens flat) := by
  induction lens generalizing flat with
  | nil => trivial
  | cons len lens ih =>
    have hpos := count_pos_of_cons h
    exact ⟨(Nat.div_lt_iff_lt_mul hpos).2 h, ih (Nat.mod_lt _ hpos)⟩

@[simp] theorem position_coordinates (h : flat < count lens) :
    position lens (coordinates lens flat) = flat := by
  induction lens generalizing flat with
  | nil => simpa [position] using (Nat.lt_one_iff.1 h).symm
  | cons len lens ih =>
    rw [coordinates_cons, position_cons, ih (Nat.mod_lt _ (count_pos_of_cons h))]
    exact Nat.div_add_mod' flat (count lens)

@[simp] theorem coordinates_position (h : InRange lens coords) :
    coordinates lens (position lens coords) = coords := by
  induction lens generalizing coords with
  | nil => cases coords with
    | nil => rfl
    | cons c cs => exact h.elim
  | cons len lens ih => cases coords with
    | nil => exact h.elim
    | cons c cs =>
      have hlt := position_lt h.2
      rw [position_cons, coordinates_cons, Nat.mul_comm c, Nat.mul_add_div (by omega),
        Nat.mul_add_mod, Nat.div_eq_of_lt hlt, Nat.mod_eq_of_lt hlt, ih h.2, Nat.add_zero]

@[simp] theorem coordinates_zero (lens : List ℕ) :
    coordinates lens 0 = List.replicate lens.length 0 := by
  induction lens with
  | nil => rfl
  | cons len lens ih => simp [ih, List.replicate_succ]

/-! ## The odometer -/

/-- A turn of the odometer adds one to the position, until every axis is at its last element. -/
theorem advance_coordinates (h : flat < count lens) :
    advance lens (coordinates lens flat) =
      if flat + 1 < count lens then (coordinates lens (flat + 1), false)
      else (coordinates lens 0, true) := by
  induction lens generalizing flat with
  | nil => simp [advance, coordinates]
  | cons len lens ih =>
    have hpos := count_pos_of_cons h
    have hmod := Nat.mod_lt flat hpos
    have hsplit := Nat.div_add_mod' flat (count lens)
    simp only [coordinates_cons, advance, ih hmod]
    by_cases hcarry : flat % count lens + 1 < count lens
    · -- no carry: the leading coordinate stays
      have hstep : flat + 1 = count lens * (flat / count lens) + (flat % count lens + 1) := by
        rw [Nat.mul_comm]; omega
      have hdiv : (flat + 1) / count lens = flat / count lens := by
        rw [hstep, Nat.mul_add_div hpos, Nat.div_eq_of_lt hcarry, Nat.add_zero]
      have hrest : (flat + 1) % count lens = flat % count lens + 1 := by
        rw [hstep, Nat.mul_add_mod, Nat.mod_eq_of_lt hcarry]
      have hlt : flat + 1 < count (len :: lens) := by
        rw [count_cons, ← Nat.div_lt_iff_lt_mul hpos, hdiv]
        exact (Nat.div_lt_iff_lt_mul hpos).2 h
      simp only [hcarry, hlt, hdiv, hrest, if_true]
    · -- a carry: the axes behind are back at zero
      have hstep : flat + 1 = count lens * (flat / count lens + 1) := by
        rw [Nat.mul_add, Nat.mul_comm]; omega
      have hdiv : (flat + 1) / count lens = flat / count lens + 1 := by
        rw [hstep, Nat.mul_div_cancel_left _ hpos]
      have hrest : (flat + 1) % count lens = 0 := by rw [hstep, Nat.mul_mod_right]
      have hiff : flat + 1 < count (len :: lens) ↔ flat / count lens + 1 < len := by
        rw [count_cons, ← Nat.div_lt_iff_lt_mul hpos, hdiv]
      simp only [hcarry, if_false, hiff, hdiv, hrest, Nat.zero_div, Nat.zero_mod]

theorem walk_coordinates (n : ℕ) (h : flat + n ≤ count lens) :
    walk lens n (coordinates lens flat) flat =
      (List.range n).map fun i => (coordinates lens (flat + i), flat + i) := by
  induction n generalizing flat with
  | zero => rfl
  | succ n ih =>
    have hnext : walk lens n (advance lens (coordinates lens flat)).1 (flat + 1) =
        walk lens n (coordinates lens (flat + 1)) (flat + 1) := by
      cases n with
      | zero => rfl
      | succ n => rw [advance_coordinates (by omega), if_pos (by omega)]
    rw [walk, hnext, ih (by omega), List.range_succ_eq_map]
    simp [Function.comp_def, Nat.add_assoc, Nat.add_comm 1]

theorem elements_le_count (lens : List ℕ) : elements lens ≤ count lens := Nat.mod_le _ _

/-- The odometer visits the positions in order, each under its own coordinates. -/
theorem positions_eq_map (lens : List ℕ) :
    positions lens =
      (List.range (elements lens)).map fun flat => (coordinates lens flat, flat) := by
  rw [positions, ← coordinates_zero, walk_coordinates _ (by simpa using elements_le_count lens)]
  simp

/-! ## Offsets in words -/

theorem dot_strides (h : InRange lens coords) (hcount : count lens < Word.modulus) :
    dot coords (strides lens) = position lens coords := by
  induction lens generalizing coords with
  | nil => cases coords with
    | nil => rfl
    | cons c cs => exact h.elim
  | cons len lens ih => cases coords with
    | nil => exact h.elim
    | cons c cs =>
      have hle : count lens ≤ count (len :: lens) :=
        Nat.le_mul_of_pos_left _ (Nat.zero_lt_of_lt h.1)
      rw [strides, dot, Word.wrap_eq_self (by omega), ih h.2 (by omega), position_cons]

/-- Offsets in words are exact if the elements can be counted in a word. -/
theorem offset_eq_position (h : InRange lens coords) (hcount : count lens < Word.modulus) :
    offset lens coords = position lens coords := by
  have hlt := position_lt h
  rw [offset, dot_strides h hcount, Word.wrap_eq_self (by omega)]

theorem dot_strides_le (h : InRange lens coords) :
    dot coords (strides lens) ≤ position lens coords := by
  induction lens generalizing coords with
  | nil => cases coords with
    | nil => exact Nat.le_refl 0
    | cons c cs => exact h.elim
  | cons len lens ih => cases coords with
    | nil => exact h.elim
    | cons c cs =>
      rw [strides, dot, position_cons]
      exact Nat.add_le_add (Nat.mul_le_mul_left c (Nat.mod_le _ _)) (ih h.2)

/-- Reduction to words only lowers an offset, so it is below the number of elements even where that
number leaves the word. -/
theorem offset_lt_count (h : InRange lens coords) : offset lens coords < count lens :=
  calc offset lens coords ≤ dot coords (strides lens) := Nat.mod_le _ _
    _ ≤ position lens coords := dot_strides_le h
    _ < count lens := position_lt h

end TensorResize.RowMajor
