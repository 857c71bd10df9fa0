import TensorResize.Binary.Basic

/-!
# Attributes

The decoded attributes of an operator node: a finite map from names to values of five kinds.

## Main definitions

* `AttributeValue` — a value, with one accessor per kind.
* `AttributeMap` — values by name; each name occurs once.
* `AttributeMap.insert`, `AttributeMap.get?` — a later value replaces an earlier one.
-/

namespace TensorResize

/-- The value of an attribute. -/
inductive AttributeValue where
  | int (value : Int64)
  | float (value : Binary32)
  | string (value : String)
  | ints (values : List Int64)
  | floats (values : List Binary32)
  deriving DecidableEq

namespace AttributeValue

def int? : AttributeValue → Option Int64
  | int v => some v
  | _ => none

def float? : AttributeValue → Option Binary32
  | float v => some v
  | _ => none

def string? : AttributeValue → Option String
  | string v => some v
  | _ => none

def ints? : AttributeValue → Option (List Int64)
  | ints vs => some vs
  | _ => none

def floats? : AttributeValue → Option (List Binary32)
  | floats vs => some vs
  | _ => none

/-- The kind of value, in words. -/
def kind : AttributeValue → String
  | int _ => "an integer"
  | float _ => "a float"
  | string _ => "a string"
  | ints _ => "a list of integers"
  | floats _ => "a list of floats"

end AttributeValue

/-- Attribute values by name. -/
structure AttributeMap where
  entries : List (String × AttributeValue)
  nodup : (entries.map Prod.fst).Nodup

namespace AttributeMap

/-- The map without attributes. -/
def empty : AttributeMap := ⟨[], List.nodup_nil⟩

def get? (m : AttributeMap) (name : String) : Option AttributeValue := m.entries.lookup name

def contains (m : AttributeMap) (name : String) : Bool := (m.get? name).isSome

/-- The number of names. -/
def size (m : AttributeMap) : Nat := m.entries.length

def isEmpty (m : AttributeMap) : Bool := m.size == 0

/-- Gives `name` the value `value`, in place of any value it had. -/
def insert (m : AttributeMap) (name : String) (value : AttributeValue) : AttributeMap where
  entries := (name, value) :: m.entries.filter (·.1 != name)
  nodup := by
    simp only [List.map_cons, List.nodup_cons]
    refine ⟨?_, m.nodup.sublist (List.filter_sublist.map _)⟩
    simp

/-- The map of a list of pairs, where a later pair replaces an earlier one of the same name. -/
def ofList (pairs : List (String × AttributeValue)) : AttributeMap :=
  pairs.foldl (fun m p => m.insert p.1 p.2) empty

@[simp] theorem get?_empty (name : String) : empty.get? name = none := rfl

@[simp] theorem get?_insert_self (m : AttributeMap) (name : String) (value : AttributeValue) :
    (m.insert name value).get? name = some value := by simp [insert, get?]

theorem get?_insert_of_ne (m : AttributeMap) {name other : String} (value : AttributeValue)
    (h : other ≠ name) : (m.insert name value).get? other = m.get? other := by
  simp only [insert, get?, List.lookup_cons, beq_eq_false_iff_ne.2 h]
  induction m.entries with
  | nil => rfl
  | cons p ps ih =>
    obtain ⟨key, held⟩ := p
    by_cases hk : key = name
    · subst hk
      simpa [List.lookup_cons, beq_eq_false_iff_ne.2 h] using ih
    · simp only [List.filter_cons, bne_iff_ne, ne_eq, hk, not_false_eq_true, if_true,
        List.lookup_cons]
      rw [ih]

end AttributeMap

end TensorResize
