import Mathlib.Data.Set.Function
import TensorResize.Proofs.Layout

/-!
# The enumeration of a shape

The odometer and the strides are two computations over the same lengths, and neither calls the
other. The odometer turns the last axis first and carries to the left; the strides are products
taken from the right. They agree on one order, the lexicographic order of the coordinates: the
odometer visits the coordinates in range along it, and the offset of each is the number of
coordinates visited before it.

## Main definitions

* `RowMajor.Enumerates` — what a list of visits has to be for a shape.

## Main results

* `RowMajor.coordinates_lex` — a later position has lexicographically larger coordinates.
* `RowMajor.getLast?_strides`, `RowMajor.strides_of_succ` — the strides, from the last axis to the
  first.
* `RowMajor.positions_enumerates` — the odometer enumerates the shape, and offsets invert it.
-/

namespace TensorResize.RowMajor

variable {lens : List ℕ}

/-- Of two positions the later one has the larger coordinates, with the first axis compared
first. -/
theorem coordinates_lex {i j : ℕ} (hij : i < j) (hj : j < count lens) :
    List.Lex (· < ·) (coordinates lens i) (coordinates lens j) := by
  induction lens generalizing i j with
  | nil => rw [count_nil] at hj; omega
  | cons len lens ih =>
    have hpos := count_pos_of_cons hj
    rw [coordinates_cons, coordinates_cons]
    obtain hlead | hlead := Nat.lt_or_eq_of_le (Nat.div_le_div_right (c := count lens) hij.le)
    · exact .rel hlead
    · -- the leading coordinates agree, so the remainders are in the order of the positions
      have hrest : i % count lens < j % count lens := by
        have hi := Nat.div_add_mod' i (count lens)
        have hj := Nat.div_add_mod' j (count lens)
        rw [← hlead] at hj
        omega
      rw [hlead]
      exact .cons (ih hrest (Nat.mod_lt _ hpos))

/-! ## Strides from right to left -/

/-- Neighbours along the last axis are stored side by side. -/
theorem getLast?_strides (hrank : lens ≠ []) : (strides lens).getLast? = some 1 := by
  induction lens with
  | nil => exact absurd rfl hrank
  | cons len lens ih =>
    cases lens with
    | nil => rfl
    | cons next lens =>
      rw [strides, strides, List.getLast?_cons_cons, ← strides]
      exact ih (by simp)

/-- The stride of an axis is the product, in a word, of the stride and the length of the next. -/
theorem strides_of_succ {axis stride len : ℕ} (hstride : (strides lens)[axis + 1]? = some stride)
    (hlen : lens[axis + 1]? = some len) :
    (strides lens)[axis]? = some (Word.wrap (stride * len)) := by
  induction lens generalizing axis with
  | nil => simp at hlen
  | cons first lens ih =>
    rw [strides, List.getElem?_cons_succ] at hstride
    rw [List.getElem?_cons_succ] at hlen
    cases axis with
    | succ axis => exact ih hstride hlen
    | zero =>
      cases lens with
      | nil => simp at hlen
      | cons next lens =>
        obtain rfl : next = len := by simpa using hlen
        obtain rfl : Word.wrap (count lens) = stride := by simpa [strides] using hstride
        simp [strides, Word.wrap, Nat.mul_comm next]

/-! ## The visits -/

/-- The list `visits` of coordinates, each with a position, enumerates the shape `lens`. -/
structure Enumerates (lens : List ℕ) (visits : List (List ℕ × ℕ)) : Prop where
  /-- There is one visit for each element. -/
  length_eq : visits.length = elements lens
  /-- The positions are handed out in order from zero. -/
  positions_eq : visits.map Prod.snd = List.range (elements lens)
  /-- The coordinates visited are the coordinates in range. -/
  mem_iff (coords : List ℕ) : coords ∈ visits.map Prod.fst ↔ InRange lens coords
  /-- No coordinates are visited twice. -/
  nodup : (visits.map Prod.fst).Nodup
  /-- The visits follow the lexicographic order, so the last axis changes fastest. -/
  lex : (visits.map Prod.fst).Pairwise (List.Lex (· < ·))
  /-- The offset of the coordinates is the position they are visited with. -/
  offset_eq : ∀ visit ∈ visits, offset lens visit.1 = visit.2

theorem map_fst_positions (lens : List ℕ) :
    (positions lens).map Prod.fst = (List.range (elements lens)).map (coordinates lens) := by
  simp [positions_eq_map, Function.comp_def]

theorem map_snd_positions (lens : List ℕ) :
    (positions lens).map Prod.snd = List.range (elements lens) := by
  simp [positions_eq_map, Function.comp_def]

theorem pairwise_lex_positions (lens : List ℕ) :
    ((positions lens).map Prod.fst).Pairwise (List.Lex (· < ·)) := by
  rw [map_fst_positions, List.pairwise_map]
  refine List.pairwise_lt_range.imp_of_mem fun {i j} _ hj hij => ?_
  exact coordinates_lex hij ((List.mem_range.1 hj).trans_le (elements_le_count lens))

/-- Coordinates in range are visited at their position. -/
theorem mem_fst_positions (hcount : count lens < Word.modulus) (coords : List ℕ) :
    coords ∈ (positions lens).map Prod.fst ↔ InRange lens coords := by
  rw [map_fst_positions, elements_eq_count hcount, List.mem_map]
  constructor
  · rintro ⟨flat, hflat, rfl⟩
    exact inRange_coordinates (List.mem_range.1 hflat)
  · intro h
    exact ⟨position lens coords, List.mem_range.2 (position_lt h), coordinates_position h⟩

theorem offset_coordinates (hcount : count lens < Word.modulus) {flat : ℕ}
    (hflat : flat < count lens) : offset lens (coordinates lens flat) = flat := by
  rw [offset_eq_position (inRange_coordinates hflat) hcount, position_coordinates hflat]

/-- If the elements can be counted in a word, the odometer enumerates the shape: every element once,
in lexicographic order, at its own offset. So offsets are a bijection from the coordinates in range
to the positions below the number of elements. -/
theorem positions_enumerates (lens : List ℕ) (hcount : count lens < Word.modulus) :
    Enumerates lens (positions lens) ∧
      Set.BijOn (offset lens) {coords | InRange lens coords} {flat | flat < elements lens} := by
  have hlex := pairwise_lex_positions lens
  have hoffset : ∀ visit ∈ positions lens, offset lens visit.1 = visit.2 := by
    intro visit hvisit
    rw [positions_eq_map, List.mem_map] at hvisit
    obtain ⟨flat, hflat, rfl⟩ := hvisit
    exact offset_coordinates hcount ((List.mem_range.1 hflat).trans_le (elements_le_count lens))
  refine ⟨⟨length_positions lens, map_snd_positions lens, mem_fst_positions hcount,
    hlex.imp fun h => ?_, hlex, hoffset⟩, ?_, ?_, ?_⟩
  · exact fun heq => List.lex_irrefl Nat.lt_irrefl _ (heq ▸ h)
  · intro coords h
    simpa [offset_eq_position h hcount, elements_eq_count hcount] using position_lt h
  · intro coords h coords' h' heq
    rw [offset_eq_position h hcount, offset_eq_position h' hcount] at heq
    rw [← coordinates_position h, heq, coordinates_position h']
  · intro flat hflat
    have hlt : flat < count lens := elements_eq_count hcount ▸ hflat
    exact ⟨coordinates lens flat, inRange_coordinates hlt, offset_coordinates hcount hlt⟩

/-- The statement at two rows of three elements. -/
theorem positions_enumerates_two_three :
    count [2, 3] < Word.modulus ∧ Enumerates [2, 3] (positions [2, 3]) ∧
      Set.BijOn (offset [2, 3]) {coords | InRange [2, 3] coords}
        {flat | flat < elements [2, 3]} :=
  ⟨by decide, positions_enumerates [2, 3] (by decide)⟩

example : positions [2, 3] =
    [([0, 0], 0), ([0, 1], 1), ([0, 2], 2), ([1, 0], 3), ([1, 1], 4), ([1, 2], 5)] := by decide

example : positions [2, 0] = [] ∧ positions [] = [([], 0)] := by decide

end TensorResize.RowMajor
