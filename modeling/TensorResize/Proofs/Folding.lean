import Mathlib.Logic.Relation
import TensorResize.Proofs.Additions

/-!
# Folding

A node is folded by going from reshape to reshape, to the first source of each, until a node is
reached that is none. Nothing in this recursion says that it ends, and nothing in it compares the
lengths of a value with those of the node. In a graph that was built from nothing it does end, since
the source of a reshape was added before it; and the value of a node has the shape of the node,
since that was inferred from the shape of the source.

## Main definitions

* `Graph.evaluateWithin` — the recursion, with a bound on its depth.
* `Graph.Reshapes`, `Graph.HoldsLiteral` — the nodes that it goes through.
* `Graph.KeepsCounts` — no reshape of a constant changes the number of elements.
* `Graph.Folds` — what a node folds to, without a look at where sources are.
-/

namespace TensorResize

open RowMajor

/-- What stops the folding of a node. -/
inductive FoldFault where
  /-- The bound on the depth was reached. -/
  | tooDeep
  | unknownNode (id : NodeId)
  /-- A reshape without a source. -/
  | missingSource (id : NodeId)
  /-- A buffer of `length` elements under lengths that say another number. -/
  | elementCount (lens : List ℕ) (length : ℕ)

/-- The buffer laid out by lengths that have to say how many elements it holds. -/
def Literal.layOut (l : Literal) (lens : List ℕ) : Except FoldFault Literal :=
  if count lens = l.buffer.length then .ok (l.withLens lens)
  else .error (.elementCount lens l.buffer.length)

theorem Literal.layOut_of_count {l : Literal} {lens : List ℕ} (h : count lens = l.buffer.length) :
    l.layOut lens = .ok (l.withLens lens) := if_pos h

namespace Graph

/-- The constant a node folds to, found by a recursion of this depth at most. It goes from a reshape
to its first source wherever that is. -/
def evaluateWithin (g : Graph) : ℕ → NodeId → Except FoldFault (Option Literal)
  | 0, _ => .error .tooDeep
  | depth + 1, id =>
    match g.nodes[id]? with
    | none => .error (.unknownNode id)
    | some ⟨.literal value, _, _⟩ => .ok (some value)
    | some ⟨.instruction (.reshape _), [], _⟩ => .error (.missingSource id)
    | some ⟨.instruction (.reshape _), source :: _, shape⟩ => do
      let some value ← g.evaluateWithin depth source | return none
      let some lens := shape.lens? | return none
      return some (← value.layOut lens)
    | some _ => .ok none

/-- Node `id` is a reshape of which `source` is the first source. -/
def Reshapes (g : Graph) (id source : NodeId) : Prop :=
  ∃ dims rest shape, g.nodes[id]? = some ⟨.instruction (.reshape dims), source :: rest, shape⟩

/-- Node `id` is the constant `value`. -/
def HoldsLiteral (g : Graph) (id : NodeId) (value : Literal) : Prop :=
  ∃ sources shape, g.nodes[id]? = some ⟨.literal value, sources, shape⟩

/-- Node `id` folds to a value: it is that constant, or a reshape of a node that folds to it under
other lengths. -/
inductive Folds (g : Graph) : NodeId → Literal → Prop where
  | literal {id : NodeId} {value : Literal} (h : g.HoldsLiteral id value) : Folds g id value
  | reshape {id source : NodeId} {value : Literal} {n m : Node} {lens : List ℕ}
      (h : g.Reshapes id source) (hn : g.nodes[id]? = some n) (hm : g.nodes[source]? = some m)
      (hshape : n.shape = .ofLens m.shape.elementType lens) (hsource : Folds g source value) :
      Folds g id (value.withLens lens)

/-- The number of elements of a node, if all of its lengths are known. -/
def elementCount? (g : Graph) (id : NodeId) : Option ℕ := do
  let n ← g.nodes[id]?
  return count (← n.shape.lens?)

/-- Constants have as many elements as their lengths say, and reshapes of nodes that fold keep the
number of elements. -/
structure KeepsCounts (g : Graph) : Prop where
  literal {id : NodeId} {value : Literal} (h : g.HoldsLiteral id value) :
    count value.lens = value.buffer.length
  reshape {id source : NodeId} {value : Literal} (h : g.Reshapes id source)
    (hsource : g.Folds source value) : g.elementCount? id = g.elementCount? source

variable {g : Graph} {id source origin : NodeId} {n : Node} {l value : Literal} {lens : List ℕ}

theorem elementCount?_eq {t : ElementType} (hn : g.nodes[id]? = some n)
    (hshape : n.shape = .ofLens t lens) : g.elementCount? id = some (count lens) := by
  simp [elementCount?, hn, hshape, Shape.lens?_ofLens]

theorem HoldsLiteral.constant?_eq (h : g.HoldsLiteral id value) : g.constant? id = some value := by
  obtain ⟨sources, shape, hn⟩ := h
  rw [constant?, hn]

namespace IsBuilt

variable (hg : g.IsBuilt)
include hg

/-- A reshape has known lengths and the element type of its source, which is an earlier node. -/
theorem exists_of_reshapes (h : g.Reshapes id source) :
    source < id ∧ ∃ n m lens, g.nodes[id]? = some n ∧ g.nodes[source]? = some m ∧
      n.shape = .ofLens m.shape.elementType lens := by
  obtain ⟨dims, rest, shape, hn⟩ := h
  obtain ⟨_, _, m, hsources, hlt, hm, hshape⟩ := hg.exists_source_of_reshape hn rfl
  cases hsources
  exact ⟨hlt, _, m, _, hn, hm, hshape⟩

/-- A reshape is folded through its source. -/
theorem constant?_of_reshapes {t : ElementType} (h : g.Reshapes id source)
    (hn : g.nodes[id]? = some n) (hshape : n.shape = .ofLens t lens) :
    g.constant? id = (g.constant? source).map (·.withLens lens) := by
  obtain ⟨dims, rest, shape, hreshape⟩ := h
  obtain rfl : ⟨_, _, _⟩ = n := Option.some.inj (hreshape.symm.trans hn)
  have hlens : shape.lens? = some lens := (congrArg Shape.lens? hshape).trans
    (Shape.lens?_ofLens t lens)
  rw [hg.infersEarlier.constant?_reshape hreshape, hlens]
  cases g.constant? source with
  | none => rfl
  | some value => rfl

theorem constant?_eq_some_iff : g.constant? id = some l ↔ g.Folds id l := by
  constructor
  · induction id using Nat.strong_induction_on generalizing l with
    | _ id ih =>
      intro h
      have hunfolded := h
      rw [constant?] at hunfolded
      split at hunfolded
      · next value sources shape hn =>
        cases hunfolded
        exact .literal ⟨sources, shape, hn⟩
      · next dims source rest shape hn =>
        have hreshapes : g.Reshapes id source := ⟨dims, rest, shape, hn⟩
        obtain ⟨hlt, n, m, lens, hn, hm, hshape⟩ := hg.exists_of_reshapes hreshapes
        rw [hg.constant?_of_reshapes hreshapes hn hshape] at h
        obtain ⟨value, hvalue, rfl⟩ := Option.map_eq_some_iff.1 h
        exact .reshape hreshapes hn hm hshape (ih source hlt hvalue)
      · cases hunfolded
  · intro h
    induction h with
    | literal h => exact h.constant?_eq
    | reshape h hn hm hshape hsource ih =>
      rw [hg.constant?_of_reshapes h hn hshape, ih]
      rfl

end IsBuilt

namespace Folds

/-- The shape of a node that folds is that of its value. -/
theorem shape_eq (hg : g.IsBuilt) (h : g.Folds id l) (hn : g.nodes[id]? = some n) :
    n.shape = l.shape := by
  induction h generalizing n with
  | literal h =>
    obtain ⟨sources, shape, hliteral⟩ := h
    obtain rfl : ⟨_, _, _⟩ = n := Option.some.inj (hliteral.symm.trans hn)
    exact hg.shape_of_literal hn rfl
  | @reshape id source value n' m lens h hn' hm hshape hsource ih =>
    obtain rfl : n' = n := Option.some.inj (hn'.symm.trans hn)
    rw [hshape, ih hm]
    rfl

/-- A value has as many elements as its lengths say. -/
theorem count_eq (hg : g.IsBuilt) (hcounts : g.KeepsCounts) (h : g.Folds id l) :
    count l.lens = l.buffer.length := by
  induction h with
  | literal h => exact hcounts.literal h
  | @reshape id source value n m lens h hn hm hshape hsource ih =>
    have hcount := hcounts.reshape h hsource
    rw [elementCount?_eq hn hshape, elementCount?_eq hm (hsource.shape_eq hg hm),
      Option.some.injEq] at hcount
    exact hcount.trans ih

/-- A value is that of a constant that reshapes lead to, under other lengths. -/
theorem exists_origin (h : g.Folds id l) :
    ∃ origin value, Relation.ReflTransGen g.Reshapes id origin ∧ g.HoldsLiteral origin value ∧
      l.buffer = value.buffer := by
  induction h with
  | literal h => exact ⟨_, _, .refl, h, rfl⟩
  | reshape h hn hm hshape hsource ih =>
    obtain ⟨origin, value, hchain, horigin, hbuffer⟩ := ih
    exact ⟨origin, value, .head h hchain, horigin, hbuffer⟩

/-- A node folds if reshapes lead from it to a constant. -/
theorem of_reflTransGen (hg : g.IsBuilt) (h : Relation.ReflTransGen g.Reshapes id origin)
    (horigin : g.HoldsLiteral origin value) : ∃ lens, g.Folds id (value.withLens lens) := by
  induction h using Relation.ReflTransGen.head_induction_on with
  | refl => exact ⟨value.lens, .literal horigin⟩
  | head hreshapes hchain ih =>
    obtain ⟨lens, hsource⟩ := ih
    obtain ⟨-, n, m, lens', hn, hm, hshape⟩ := hg.exists_of_reshapes hreshapes
    have hfolds := Folds.reshape hreshapes hn hm hshape hsource
    exact ⟨lens', hfolds⟩

end Folds

/-- One turn of the recursion at a reshape, if its lengths say how many elements there are. -/
theorem evaluateWithin_of_reshape {t : ElementType} {dims : List Int64} {rest : List NodeId}
    {depth : ℕ} {folded : Option Literal}
    (hn : g.nodes[id]? = some ⟨.instruction (.reshape dims), source :: rest, .ofLens t lens⟩)
    (hsource : g.evaluateWithin depth source = .ok folded)
    (hcount : ∀ value, folded = some value → count lens = value.buffer.length) :
    g.evaluateWithin (depth + 1) id = .ok (folded.map (·.withLens lens)) := by
  rw [evaluateWithin, hn]
  simp only [hsource, Shape.lens?_ofLens]
  cases folded with
  | none => rfl
  | some value =>
    simp only [bind, Except.bind, Literal.layOut_of_count (hcount value rfl)]
    rfl

/-- The recursion ends at a depth that is greater than the id, with the value of the node. -/
theorem evaluateWithin_eq (hg : g.IsBuilt) (hcounts : g.KeepsCounts) (hid : id < g.size)
    {depth : ℕ} (hdepth : id < depth) : g.evaluateWithin depth id = .ok (g.constant? id) := by
  induction id using Nat.strong_induction_on generalizing depth with
  | _ id ih =>
    cases depth with
    | zero => cases hdepth
    | succ depth =>
      obtain ⟨⟨kind, sources, shape⟩, hn⟩ := exists_getElem? hid
      cases kind with
      | input | undefined | literal value => simp only [evaluateWithin, constant?, hn]
      | instruction operation =>
        cases operation with
        | reshape dims =>
          -- the source was added earlier, so less depth is enough for it
          obtain ⟨source, rest, m, rfl, hlt, hm, rfl⟩ := hg.exists_source_of_reshape hn rfl
          have hsource := ih source hlt (hlt.trans hid) (hlt.trans_le (Nat.le_of_lt_succ hdepth))
          have hreshapes : g.Reshapes id source := ⟨dims, rest, _, hn⟩
          rw [hg.constant?_of_reshapes hreshapes hn rfl]
          apply evaluateWithin_of_reshape hn hsource
          intro value hvalue
          have hfolds := Folds.reshape hreshapes hn hm rfl (hg.constant?_eq_some_iff.1 hvalue)
          exact hfolds.count_eq hg hcounts
        | _ => simp only [evaluateWithin, constant?, hn]

/-- Folding ends and agrees with the inferred shapes. In a graph that was built from nothing, in
which reshapes of nodes that fold keep the number of elements, every node is folded without a fault,
by a recursion as deep as its id at most. It folds to a value exactly if its reshapes lead to a
constant; the value is the buffer of that constant, and its lengths and its element type are those
of the node's shape. So no snapshot holds a value of another shape than its own. -/
theorem evaluate_run {steps : List Step} (hcounts : (Graph.empty.run steps).KeepsCounts) :
    let g := Graph.empty.run steps
    ∀ id < g.size, ∃ folded, g.evaluate id = .ok folded ∧
      (∀ depth, id < depth → g.evaluateWithin depth id = .ok folded) ∧
      (folded.isSome ↔ ∃ origin value,
        Relation.ReflTransGen g.Reshapes id origin ∧ g.HoldsLiteral origin value) ∧
      (∀ l, folded = some l → g.shape id = .ok l.shape ∧ ∀ origin value,
        Relation.ReflTransGen g.Reshapes id origin → g.HoldsLiteral origin value →
          l.buffer = value.buffer) ∧
      ∃ a, g.argument id = .ok a ∧ a.value = folded ∧
        ∀ l, a.value = some l → l.shape = a.shape := by
  intro g id hid
  have hg : g.IsBuilt := isBuilt_run steps
  obtain ⟨n, hn⟩ := exists_getElem? hid
  have hevaluate : g.evaluate id = .ok (g.constant? id) := by
    rw [evaluate, node_eq_ok.2 hn]
    rfl
  have hshape {l : Literal} (hl : g.constant? id = some l) : n.shape = l.shape :=
    (hg.constant?_eq_some_iff.1 hl).shape_eq hg hn
  refine ⟨g.constant? id, hevaluate, fun depth => evaluateWithin_eq hg hcounts hid, ?_, ?_, ?_⟩
  · rw [Option.isSome_iff_exists]
    constructor
    · rintro ⟨l, hl⟩
      obtain ⟨origin, value, hchain, horigin, -⟩ := (hg.constant?_eq_some_iff.1 hl).exists_origin
      exact ⟨origin, value, hchain, horigin⟩
    · rintro ⟨origin, value, hchain, horigin⟩
      obtain ⟨lens, hfolds⟩ := Folds.of_reflTransGen hg hchain horigin
      exact ⟨_, hg.constant?_eq_some_iff.2 hfolds⟩
  · intro l hl
    refine ⟨by rw [shape_of_getElem? hn, hshape hl], ?_⟩
    intro origin value hchain horigin
    obtain ⟨lens, hfolds⟩ := Folds.of_reflTransGen hg hchain horigin
    have heq : l = value.withLens lens :=
      Option.some.inj (hl.symm.trans (hg.constant?_eq_some_iff.2 hfolds))
    rw [heq]
    rfl
  · exact ⟨_, argument_eq_ok.2 ⟨n, hn, rfl⟩, rfl, fun l hl => (hshape hl).symm⟩

/-- A constant without elements, reshaped twice. A length below zero is zero. -/
theorem evaluate_run_of_reshapes :
    let g := Graph.empty.run [.call (.literal ⟨[0], .int64 []⟩),
      .call (.instruction (.reshape [2, -3]) [0]), .call (.instruction (.reshape [0, 5, 1]) [1])]
    ∃ l, g.evaluate 2 = .ok (some l) ∧ g.evaluateWithin 3 2 = .ok (some l) ∧
      l.buffer = .int64 [] ∧ l.shape = .ofLens .int64 [0, 5, 1] := by
  intro g
  have hnodes : g.nodes = #[⟨.literal ⟨[0], .int64 []⟩, [], .ofLens .int64 [0]⟩,
    ⟨.instruction (.reshape [2, -3]), [0], .ofLens .int64 [2, 0]⟩,
    ⟨.instruction (.reshape [0, 5, 1]), [1], .ofLens .int64 [0, 5, 1]⟩] := by decide +kernel
  have hcounts : g.KeepsCounts := by
    constructor
    · rintro id value ⟨sources, shape, hn⟩
      rw [hnodes] at hn
      rcases id with _ | _ | _ | id
      · cases hn
        rfl
      · cases hn
      · cases hn
      · cases hn
    · rintro id source value ⟨dims, rest, shape, hn⟩ -
      rw [hnodes] at hn
      rcases id with _ | _ | _ | id
      · cases hn
      · cases hn
        decide +kernel
      · cases hn
        decide +kernel
      · cases hn
  have hchain : Relation.ReflTransGen g.Reshapes 2 0 :=
    .head ⟨_, _, _, by rw [hnodes]; rfl⟩ (.single ⟨_, _, _, by rw [hnodes]; rfl⟩)
  have horigin : g.HoldsLiteral 0 ⟨[0], .int64 []⟩ := ⟨_, _, by rw [hnodes]; rfl⟩
  obtain ⟨folded, hevaluate, hwithin, hiff, hshape, -⟩ := evaluate_run hcounts 2 (by decide +kernel)
  obtain ⟨l, rfl⟩ := Option.isSome_iff_exists.1 (hiff.2 ⟨_, _, hchain, horigin⟩)
  obtain ⟨hlens, hbuffer⟩ := hshape l rfl
  have hinferred : g.shape 2 = .ok (.ofLens .int64 [0, 5, 1]) := by decide +kernel
  exact ⟨l, hevaluate, hwithin 3 (by decide), hbuffer _ _ hchain horigin,
    Except.ok.inj (hlens.symm.trans hinferred)⟩

end Graph

end TensorResize
