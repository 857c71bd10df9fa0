/-!
# Machine words

Lengths, offsets and element counts are natural numbers here, but a program holds them in words of
64 bits. `wrap` is the reduction such a program performs after an unchecked product or sum;
`product?` is the checked product, which refuses a running product that leaves the word.

## Main definitions

* `Word.wrap n` — the word that holds `n`, that is `n` modulo `2 ^ 64`.
* `Word.product? lens` — the product of `lens`, if no partial product overflows.
* `Word.maxEntries` — how many eight-byte entries one allocation can hold.
-/

namespace TensorResize.Word

/-- The number of values of a 64-bit word. -/
def modulus : Nat := 18446744073709551616

/-- The greatest word. -/
def greatest : Nat := 18446744073709551615

/-- The word that holds `n` when the bits above the sixty-fourth are dropped. -/
def wrap (n : Nat) : Nat := n % modulus

/-- The largest number of eight-byte entries in an allocation of less than `2 ^ 63` bytes. -/
def maxEntries : Nat := 1152921504606846975

/-- The product of `a` and `b`, if it fits in a word. -/
def times? (a b : Nat) : Option Nat :=
  if a * b < modulus then some (a * b) else none

/-- The product of the lengths, taken from the left. A partial product outside the word gives
`none`, also when a later length is zero. -/
def product? (lens : List Nat) : Option Nat := lens.foldlM times? 1

theorem wrap_lt (n : Nat) : wrap n < modulus := Nat.mod_lt n (by decide)

theorem wrap_eq_self {n : Nat} (h : n < modulus) : wrap n = n := Nat.mod_eq_of_lt h

end TensorResize.Word
