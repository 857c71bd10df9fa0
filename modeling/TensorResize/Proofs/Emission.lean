import TensorResize.Proofs.Operands

/-!
# Emission on a builder

A builder adds a node for every call it is given and answers with the id of that node, which it
chooses as it likes and by what it was given before. A program is emitted on it call by call; an
operand that is the result of an earlier call becomes the id that was handed out for that call.

Whatever the builder, the calls it is given are those of the program placed under the ids that it
hands out. For a plan they are closed: nothing is read but nodes that the plan names and ids that
were handed out before. They are also live: all ids but the one that is returned are read later.

## Main definitions

* `Builder`, `Builder.emit` — what adds nodes, and the calls it is given for a program.
* `Emitted`, `handedOut` — a call with the id handed out for it, and the ids call by call.
* `ClosedOver`, `AllRead` — what is emitted reads only what is there, and all of it is read.
-/

namespace TensorResize

/-- Adds one node at a time. From its state and a call it goes on to another state and hands out an
id for the new node. -/
structure Builder (σ : Type) where
  add : σ → Call NodeId → σ × NodeId

/-- A call that a builder was given, and the id that it handed out. -/
structure Emitted where
  call : Call NodeId
  id : NodeId

/-- The id that was handed out for call `k`. -/
def handedOut (emitted : List Emitted) (k : ℕ) : NodeId := emitted[k]?.elim 0 Emitted.id

/-- Every operand is one of `nodes` or an id that was handed out for an earlier call. -/
def ClosedOver (nodes : List NodeId) (emitted : List Emitted) : Prop :=
  ∀ (k : ℕ) (e : Emitted), emitted[k]? = some e → ∀ x ∈ e.call.inputs,
    x ∈ nodes ∨ ∃ (j : ℕ) (e' : Emitted), j < k ∧ emitted[j]? = some e' ∧ e'.id = x

/-- Every id but the last is an operand of a later call. -/
def AllRead (emitted : List Emitted) : Prop :=
  ∀ (k : ℕ) (e : Emitted), emitted[k]? = some e → k + 1 < emitted.length →
    ∃ (j : ℕ) (e' : Emitted), k < j ∧ emitted[j]? = some e' ∧ e.id ∈ e'.call.inputs

namespace Builder

variable {σ : Type}

/-- Gives the builder some calls, behind those that it was given before. -/
def emitCalls (b : Builder σ) : σ → List Emitted → List (Call Operand) → List Emitted
  | _, emitted, [] => emitted
  | s, emitted, c :: calls =>
    let call := c.map (Operand.place (handedOut emitted))
    let (s', id) := b.add s call
    b.emitCalls s' (emitted ++ [⟨call, id⟩]) calls

/-- Gives the builder the calls of a program. -/
def emit (b : Builder σ) (s : σ) (p : Program) : List Emitted := b.emitCalls s [] p.calls

end Builder

variable {σ : Type} {b : Builder σ} {s : σ} {emitted emitted' : List Emitted}
  {calls : List (Call Operand)} {nodes : List NodeId} {p : Program} {c : Call Operand} {k : ℕ}

theorem handedOut_of_prefix (h : emitted <+: emitted') (hk : k < emitted.length) :
    handedOut emitted' k = handedOut emitted k := by
  obtain ⟨later, rfl⟩ := h
  rw [handedOut, handedOut, List.getElem?_append_left hk]

/-- A call is placed by the ids of the results that it reads. -/
theorem Call.map_place_congr {ids ids' : ℕ → NodeId} {made : ℕ}
    (hc : ∀ x ∈ c.inputs, x.IsBack nodes made) (hids : ∀ k < made, ids k = ids' k) :
    c.map (Operand.place ids) = c.map (Operand.place ids') := by
  cases c with
  | literal value => rfl
  | instruction operation inputs =>
    simp only [Call.map, Call.instruction.injEq, true_and]
    apply List.map_congr_left
    intro x hx
    cases x with
    | node id => rfl
    | result call => exact hids call (hc _ hx)

namespace Builder

/-- What was emitted stays as it is. -/
theorem prefix_emitCalls (b : Builder σ) (s : σ) (emitted : List Emitted)
    (calls : List (Call Operand)) : emitted <+: b.emitCalls s emitted calls := by
  induction calls generalizing s emitted with
  | nil => exact List.prefix_rfl
  | cons c calls ih => exact (List.prefix_append _ _).trans (ih _ _)

/-- The calls that a builder is given are placed under all the ids that it hands out, also those
that it had not handed out yet when it was given the call. -/
theorem map_call_emitCalls (h : ReadsBack nodes emitted.length calls) :
    (b.emitCalls s emitted calls).map Emitted.call =
      emitted.map Emitted.call ++
        calls.map (Call.map (Operand.place (handedOut (b.emitCalls s emitted calls)))) := by
  induction calls generalizing s emitted with
  | nil => simp [emitCalls]
  | cons c calls ih =>
    rw [emitCalls]
    generalize hadd : b.add s (c.map (Operand.place (handedOut emitted))) = added
    obtain ⟨s', id⟩ := added
    let emitted' := emitted ++ [⟨c.map (Operand.place (handedOut emitted)), id⟩]
    have hgrows : emitted <+: b.emitCalls s' emitted' calls :=
      (List.prefix_append _ _).trans (b.prefix_emitCalls s' emitted' calls)
    have hcall : c.map (Operand.place (handedOut (b.emitCalls s' emitted' calls))) =
        c.map (Operand.place (handedOut emitted)) :=
      Call.map_place_congr h.1 fun k hk => handedOut_of_prefix hgrows hk
    have hlength : emitted'.length = emitted.length + 1 := by simp [emitted']
    have hrest := @ih s' emitted' (hlength ▸ h.2)
    rw [hrest, List.map_cons, hcall]
    simp [emitted']

/-- The calls of a program that a builder is given, under the ids that it hands out. -/
theorem map_call_emit (h : ReadsBack nodes 0 p.calls) :
    (b.emit s p).map Emitted.call = p.place (handedOut (b.emit s p)) :=
  @map_call_emitCalls σ b s [] p.calls nodes h

section Program

variable (h : ReadsBack nodes 0 p.calls)
include h

theorem length_emit : (b.emit s p).length = p.calls.length := by
  rw [← List.length_map Emitted.call, map_call_emit h, Program.place, List.length_map]

/-- A call is emitted under the ids that are handed out, its own among them. -/
theorem getElem?_emit (hc : p.calls[k]? = some c) :
    (b.emit s p)[k]? = some ⟨c.map (Operand.place (handedOut (b.emit s p))),
      handedOut (b.emit s p) k⟩ := by
  have hcall := congrArg (·[k]?) (@map_call_emit σ b s nodes p h)
  simp only [Program.place, List.getElem?_map, hc, Option.map_some,
    Option.map_eq_some_iff] at hcall
  obtain ⟨⟨call, id⟩, hemitted, rfl⟩ := hcall
  simp [handedOut, hemitted]

theorem exists_call_of_getElem?_emit {e : Emitted} (he : (b.emit s p)[k]? = some e) :
    ∃ c, p.calls[k]? = some c ∧ e = ⟨c.map (Operand.place (handedOut (b.emit s p))),
      handedOut (b.emit s p) k⟩ := by
  have hk : k < p.calls.length := by
    rw [← @length_emit σ b s nodes p h]
    exact (List.getElem?_eq_some_iff.1 he).1
  have hc : p.calls[k]? = some p.calls[k] := List.getElem?_eq_getElem hk
  exact ⟨_, hc, Option.some.inj (he.symm.trans (getElem?_emit h hc))⟩

theorem closedOver_emit : ClosedOver nodes (b.emit s p) := by
  intro k e he x hx
  obtain ⟨c, hc, rfl⟩ := exists_call_of_getElem?_emit h he
  cases c with
  | literal value => cases hx
  | instruction operation inputs =>
    obtain ⟨operand, hoperand, rfl⟩ := List.mem_map.1 hx
    have hback := h.isBack hc hoperand
    cases operand with
    | node id => exact .inl hback
    | result j =>
      have hj : j < k := by simpa using hback
      have hlt : j < p.calls.length := hj.trans (List.getElem?_eq_some_iff.1 hc).1
      exact .inr ⟨j, _, hj, getElem?_emit h (List.getElem?_eq_getElem hlt), rfl⟩

theorem allRead_emit (hread : ∀ k, k + 1 < p.calls.length → IsRead 0 p.calls k) :
    AllRead (b.emit s p) := by
  intro k e he hk
  obtain ⟨c, -, rfl⟩ := exists_call_of_getElem?_emit h he
  rw [length_emit h] at hk
  obtain ⟨j, reader, hj, hlater, hinput⟩ := hread k hk
  refine ⟨j, _, by omega, getElem?_emit h hj, ?_⟩
  cases reader with
  | literal value => cases hinput
  | instruction operation inputs => exact List.mem_map_of_mem hinput

theorem suitsArity_emit :
    (∀ e ∈ b.emit s p, e.call.SuitsArity) ↔ ∀ c ∈ p.calls, c.SuitsArity := by
  have hcalls := @map_call_emit σ b s nodes p h
  constructor
  · intro hemitted c hc
    have hmem : c.map (Operand.place (handedOut (b.emit s p))) ∈
        (b.emit s p).map Emitted.call := hcalls ▸ List.mem_map_of_mem hc
    obtain ⟨e, he, hcall⟩ := List.mem_map.1 hmem
    rw [← suitsArity_map, ← hcall]
    exact hemitted e he
  · intro hc e he
    have hmem := List.mem_map_of_mem (f := Emitted.call) he
    rw [hcalls] at hmem
    obtain ⟨c, hmem, hcall⟩ := List.mem_map.1 hmem
    rw [← hcall, suitsArity_map]
    exact hc c hmem

/-- The id of a program that is not empty is the one that was handed out last. -/
theorem getLast?_emit (hne : p.calls ≠ []) :
    (b.emit s p).getLast?.map Emitted.id = some (p.result (handedOut (b.emit s p))) := by
  have hpos := List.length_pos_iff.2 hne
  have hlast := List.getElem?_eq_getElem (Nat.sub_lt hpos Nat.one_pos)
  rw [List.getLast?_eq_getElem?, length_emit h, getElem?_emit h hlast]
  rfl

end Program

end Builder

/-- The emission of a plan is closed and leaves no node that is not read. An operand is a node that
the plan names or the id that was handed out for an earlier call. The id that is returned is that of
the last call, and every other id is read by a later call. Instructions are given the operands that
they take exactly if the instruction of a plan that runs with the graph takes two. That is so for
every plan of an operator; and then a resize that runs with the graph takes a second call exactly if
its scales come from the attribute. -/
theorem ResizePlan.emit_program_closed (plan : ResizePlan) (b : Builder σ) (s : σ) :
    let emitted := b.emit s plan.program
    ClosedOver plan.reads emitted ∧ AllRead emitted ∧
    ((∀ e ∈ emitted, e.call.SuitsArity) ↔ plan.TakesTwo) ∧
    emitted.getLast?.map Emitted.id = some (plan.program.result (handedOut emitted)) ∧
    emitted.length = plan.callCount ∧
    ∀ o args settings, planResize o args settings = .ok plan →
      plan.TakesTwo ∧ ∀ data scales instruction, plan = .runtime data scales instruction →
        (emitted.length = 2 ↔ ∃ values, o.attributes.scales o.tag = .ok values ∧ values ≠ []) := by
  intro emitted
  have hback := plan.readsBack_program
  have hlength : emitted.length = plan.callCount :=
    (Builder.length_emit hback).trans plan.length_program
  refine ⟨Builder.closedOver_emit hback, ?_, ?_, ?_, hlength, ?_⟩
  · apply Builder.allRead_emit hback
    intro k hk
    exact plan.isRead_program (plan.length_program ▸ hk)
  · rw [Builder.suitsArity_emit hback, suitsArity_program]
  · exact Builder.getLast?_emit hback plan.calls_ne_nil
  · intro o args settings hplan
    refine ⟨takesTwo_of_planResize hplan, ?_⟩
    rintro data scales instruction rfl
    rw [hlength]
    exact callCount_of_planResize hplan

/-- A plan that is built by hand can hold any instruction. A reshape in the place of the resize is
given two operands all the same, and takes one. -/
theorem ResizePlan.not_suitsArity_of_reshape :
    let counting : Builder NodeId := ⟨fun next _ => (next + 1, next)⟩
    let emitted := counting.emit 2 (runtime 0 (.existing 1) (.reshape [4])).program
    emitted.map Emitted.call = [.instruction (.reshape [4]) [0, 1]] ∧
      ¬∀ e ∈ emitted, e.call.SuitsArity := by
  intro counting emitted
  have hcall : emitted = [⟨.instruction (.reshape [4]) [0, 1], 2⟩] := rfl
  rw [hcall]
  refine ⟨rfl, fun h => ?_⟩
  have harity : [0, 1].length = (Instruction.reshape [4]).arity := h _ (List.mem_singleton_self _)
  cases harity

end TensorResize
