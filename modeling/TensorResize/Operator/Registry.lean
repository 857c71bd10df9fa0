import TensorResize.Error
import TensorResize.Operator.Argument
import TensorResize.Operator.Basic

/-!
# Parsers and their registry

A parser lowers the operator types it lists: from a node, its arguments and the lowering settings to
a program. A registry keeps its parsers in slots and finds the slot for an operator type; a later
registration for the same type replaces an earlier one.

## Main definitions

* `LoweringSettings` — what steers every lowering.
* `Parser`, `Registry`.
* `Registry.register`, `Registry.slot?`, `Registry.find?`, `Registry.lower`.
* `Graph.lower` — lowers a node onto a graph.
-/

namespace TensorResize

/-- Settings of a lowering. -/
structure LoweringSettings where
  /-- Precompute the indices of a nearest resize whose shapes are known, rather than resize when the
  graph runs. A linear resize is always precomputed. -/
  preferGather : Bool
  deriving DecidableEq

namespace LoweringSettings

/-- Indices are precomputed where they can be. -/
def standard : LoweringSettings := ⟨true⟩

/-- The settings under an environment variable that switches precomputed indices off. Any value at
all, an empty one too, switches them off. -/
def ofEnvironment (noGather : Option String) : LoweringSettings := ⟨noGather.isNone⟩

end LoweringSettings

/-- A lowering for some operator types. -/
structure Parser where
  operators : List String
  lower : Operator → List Argument → LoweringSettings → Except LoweringError Program

/-- Parsers in the order in which they were registered, and the slots in this order that operator
types are bound to, the latest binding first. -/
structure Registry where
  parsers : List Parser
  slots : List (String × Nat)
  /-- There is a parser in every slot. -/
  slot_lt : ∀ b ∈ slots, b.2 < parsers.length

namespace Registry

/-- The registry without parsers. -/
def empty : Registry := ⟨[], [], nofun⟩

/-- Puts a parser into the next slot, and binds all of its operator types to it. -/
def register (r : Registry) (p : Parser) : Registry where
  parsers := r.parsers ++ [p]
  slots := p.operators.map (·, r.parsers.length) ++ r.slots
  slot_lt := by
    intro b hb
    rw [List.length_append, List.length_singleton]
    rcases List.mem_append.1 hb with hb | hb
    · obtain ⟨type, -, rfl⟩ := List.mem_map.1 hb
      exact Nat.lt_succ_self _
    · exact Nat.lt_succ_of_lt (r.slot_lt b hb)

/-- The slot that an operator type was bound to last. -/
def slot? (r : Registry) (type : String) : Option Nat := r.slots.lookup type

theorem slot?_lt {r : Registry} {type : String} {slot : Nat} (h : r.slot? type = some slot) :
    slot < r.parsers.length := by
  obtain ⟨before, after, hslots, -⟩ := List.lookup_eq_some_iff.1 h
  apply r.slot_lt (type, slot)
  rw [hslots]
  exact List.mem_append_right _ (List.mem_cons_self ..)

/-- The parser bound last to an operator type. -/
def find? (r : Registry) (type : String) : Option Parser :=
  match h : r.slot? type with
  | some slot => some (r.parsers.get ⟨slot, slot?_lt h⟩)
  | none => none

def supports (r : Registry) (type : String) : Bool := (r.slot? type).isSome

/-- Lowers a node with the parser for its type. -/
def lower (r : Registry) (o : Operator) (args : List Argument) (settings : LoweringSettings) :
    Except LoweringError Program :=
  match r.find? o.type with
  | some p => p.lower o args settings
  | none => .error (.unsupportedOperator o.type)

theorem find?_eq_some_iff {r : Registry} {type : String} {p : Parser} :
    r.find? type = some p ↔ ∃ slot, r.slot? type = some slot ∧ r.parsers[slot]? = some p := by
  rw [find?]
  split
  · next slot h => simp [h, slot?_lt h]
  · next h => simp [h]

/-- A parser is found for the operator types that are supported. -/
@[simp] theorem isSome_find? (r : Registry) (type : String) :
    (r.find? type).isSome = r.supports type := by
  rw [find?, supports]
  split
  · next slot h => simp [h]
  · next h => simp [h]

end Registry

/-- Lowers a node whose arguments are nodes of the graph, and appends the program. Either the
arguments are missing, or the lowering answers: with an error, or with the grown graph and the id of
the result. -/
def Graph.lower (g : Graph) (ids : List NodeId)
    (lowering : List Argument → Except LoweringError Program) :
    Except GraphFault (Except LoweringError (Graph × NodeId)) := do
  match lowering (← g.arguments ids) with
  | .error e => return .error e
  | .ok p => return .ok (← g.append p)

end TensorResize
