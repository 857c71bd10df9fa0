import TensorResize.Text.CaseTable

/-!
# Upper case

The upper case of a text by the full mappings of Unicode, where one character may become several:
the sharp s gives two letters. No mapping to upper case looks at the neighbours of a character.
-/

namespace TensorResize

/-- The code points of the upper case of a character; a character without one maps to itself. -/
def uppercaseCodes (code : Nat) : List Nat :=
  match caseExpansions.lookup code with
  | some codes => codes
  | none => [(caseRuns.findSome? (·.map? code)).getD code]

/-- The upper case of a character. -/
def uppercaseChar (c : Char) : List Char := (uppercaseCodes c.toNat).map Char.ofNat

/-- The upper case of a text, character by character. -/
def uppercase (s : String) : String := String.ofList (s.toList.flatMap uppercaseChar)

end TensorResize
