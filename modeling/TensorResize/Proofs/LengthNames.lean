import Mathlib.Data.Set.Function
import TensorResize.Proofs.Additions
import TensorResize.Proofs.DotStatements
import TensorResize.Proofs.Relocation

/-!
# Names of run-time lengths

A resize that runs with the graph has only symbolic lengths. Each is named by two numbers, the id of
the resize and the axis, and both can be read from the name: the first number ends at the separator.
The id in the name is the one that the resize is stored under, since it is the size of the graph at
the time when the shape is inferred. So no two lengths get the same name, in whatever way a graph is
built from nothing.

This is about names that resizes give. The dimensions of a run-time input have the names that the
client gives them, and these can be any.

## Main definitions

* `Graph.runtimeAxes` — the axes of the resizes that run with the graph.
* `Graph.lengthName?` — the name of the length of an axis.
-/

namespace TensorResize

/-! ## Two numbers in a name -/

theorem toList_runtimeLengthName (id : NodeId) (axis : ℕ) :
    (runtimeLengthName id axis).toList =
      "resize".toList ++ ((toString id).toList ++ '_' :: (toString axis).toList) := by
  simp only [runtimeLengthName, String.toList_append, List.append_assoc]
  rfl

/-- Digits tell the number. -/
theorem eq_of_toList_toString {m n : ℕ} (h : (toString m).toList = (toString n).toList) : m = n := by
  rw [Dot.toList_toString, Dot.toList_toString] at h
  calc
    m = Nat.ofDigitChars 10 (Nat.toDigits 10 m) 0 := Nat.ofDigitChars_ten_toDigits.symm
    _ = Nat.ofDigitChars 10 (Nat.toDigits 10 n) 0 := by rw [h]
    _ = n := Nat.ofDigitChars_ten_toDigits

/-- A name of a length tells the node and the axis. -/
theorem runtimeLengthName_inj {id id' : NodeId} {axis axis' : ℕ} :
    runtimeLengthName id axis = runtimeLengthName id' axis' ↔ id = id' ∧ axis = axis' := by
  constructor
  · intro h
    have hnumbers := congrArg String.toList h
    rw [toList_runtimeLengthName, toList_runtimeLengthName, List.append_right_inj] at hnumbers
    -- the separator is no digit, so the same id is read from both
    have hread := congrArg Dot.number? hnumbers
    rw [Dot.number?_append id rfl, Dot.number?_append id' rfl] at hread
    simp only [Option.some.injEq, Prod.mk.injEq, List.cons.injEq] at hread
    obtain ⟨hid, -, haxis⟩ := hread
    exact ⟨hid, eq_of_toList_toString haxis⟩
  · rintro ⟨rfl, rfl⟩
    rfl

/-! ## Axes of resizes -/

theorem NodeKind.exists_modes_of_isResize {k : NodeKind} (h : k.isResize) :
    ∃ nearestMode coordinateMode, k = .instruction (.resize nearestMode coordinateMode) := by
  cases k with
  | input | undefined | literal value => cases h
  | instruction operation =>
    cases operation with
    | resize nearestMode coordinateMode => exact ⟨nearestMode, coordinateMode, rfl⟩
    | _ => cases h

namespace Graph

variable {g : Graph} {n : Node} {id : NodeId} {p : NodeId × ℕ}

/-- The pairs of a resize that runs with the graph and one of its axes. -/
def runtimeAxes (g : Graph) : Set (NodeId × ℕ) :=
  {p | ∃ n, g.nodes[p.1]? = some n ∧ n.kind.isResize ∧ p.2 < n.shape.rank}

/-- The name of the length of an axis of a node, if it has one. -/
def lengthName? (g : Graph) (p : NodeId × ℕ) : Option String := do
  let n ← g.nodes[p.1]?
  let .symbolic name ← n.shape.dims[p.2]? | none
  return name

namespace IsBuilt

variable (hg : g.IsBuilt)
include hg

/-- A resize that runs with the graph has the element type and the rank of its first source, which
is an earlier node. Its lengths are named by its own id. -/
theorem exists_source_of_resize (hn : g.nodes[id]? = some n) (hkind : n.kind.isResize) :
    ∃ source rest m, n.sources = source :: rest ∧ source < id ∧ g.nodes[source]? = some m ∧
      n.shape = ⟨m.shape.elementType,
        (List.range m.shape.rank).map fun axis => .symbolic (runtimeLengthName id axis)⟩ := by
  obtain ⟨nearestMode, coordinateMode, hoperation⟩ := n.kind.exists_modes_of_isResize hkind
  obtain ⟨source, rest, m, hsources, hlt, hm, before, rfl, hbefore, hshape⟩ :=
    hg.exists_source_of_instruction hn hoperation
  rw [inferShape_resize nearestMode coordinateMode rest hbefore] at hshape
  exact ⟨source, rest, m, hsources, hlt, hm, (Except.ok.inj hshape).symm⟩

/-- Every axis of a resize that runs with the graph is named by the id of the resize. -/
theorem lengthName?_eq (hp : p ∈ g.runtimeAxes) :
    g.lengthName? p = some (runtimeLengthName p.1 p.2) := by
  obtain ⟨n, hn, hkind, haxis⟩ := hp
  obtain ⟨-, -, m, -, -, -, hshape⟩ := hg.exists_source_of_resize hn hkind
  have hrank : p.2 < m.shape.rank := by simpa [hshape, Shape.rank] using haxis
  have hdim : n.shape.dims[p.2]? = some (.symbolic (runtimeLengthName p.1 p.2)) := by
    rw [hshape, List.getElem?_map, List.getElem?_range hrank]
    rfl
  simp only [lengthName?, hn, hdim, bind, Option.bind]
  rfl

end IsBuilt

/-- In a graph that was built from nothing, the length of every axis of every resize that runs with
the graph has a name, and no two of these axes, of one resize or of two, share it. -/
theorem run_lengthNames_distinct (steps : List Step) :
    let g := Graph.empty.run steps
    (∀ p ∈ g.runtimeAxes, ∃ name, g.lengthName? p = some name) ∧
      Set.InjOn g.lengthName? g.runtimeAxes := by
  intro g
  have hg : g.IsBuilt := isBuilt_run steps
  constructor
  · intro p hp
    exact ⟨_, hg.lengthName?_eq hp⟩
  · intro p hp q hq h
    rw [hg.lengthName?_eq hp, hg.lengthName?_eq hq, Option.some.injEq, runtimeLengthName_inj] at h
    exact Prod.ext h.1 h.2

/-- Two resizes of one input, nodes 1 and 11: the digits of their names are the same. -/
theorem run_lengthNames_one_eleven :
    let data : Shape := ⟨.float32, List.replicate 12 (.symbolic "n")⟩
    let resize : Step := .call (.instruction (.resize "floor" "asymmetric") [0, 0])
    let g := Graph.empty.run (.input data :: resize :: List.replicate 9 .undefined ++ [resize])
    (1, 11) ∈ g.runtimeAxes ∧ (11, 1) ∈ g.runtimeAxes ∧
      g.lengthName? (1, 11) = some "resize1_11" ∧ g.lengthName? (11, 1) = some "resize11_1" ∧
      g.lengthName? (1, 11) ≠ g.lengthName? (11, 1) := by
  intro data resize g
  let resized (id : NodeId) : Node := ⟨.instruction (.resize "floor" "asymmetric"), [0, 0],
    ⟨.float32, (List.range 12).map fun axis => .symbolic (runtimeLengthName id axis)⟩⟩
  have hone : g.nodes[1]? = some (resized 1) := by decide +kernel
  have heleven : g.nodes[11]? = some (resized 11) := by decide +kernel
  have hfirst : (1, 11) ∈ g.runtimeAxes := ⟨_, hone, rfl, by decide⟩
  have hsecond : (11, 1) ∈ g.runtimeAxes := ⟨_, heleven, rfl, by decide⟩
  obtain ⟨-, hinj⟩ := run_lengthNames_distinct
    (.input data :: resize :: List.replicate 9 .undefined ++ [resize])
  exact ⟨hfirst, hsecond, by decide +kernel, by decide +kernel,
    hinj.ne hfirst hsecond (by decide)⟩

end Graph

end TensorResize
