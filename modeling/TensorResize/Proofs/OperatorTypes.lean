import Mathlib.Data.List.Forall2
import TensorResize.Proofs.Steps
import TensorResize.Proofs.Tags

/-!
# Types of operators

The type of an operator is a label. A resize is planned alike under any two types, or refused with
the same fault, and only the tag in the error tells the types apart: it is the type of the operator
that was planned, in upper case. The registry looks at the type to find a parser and for nothing
else, so that its two types of resizes are one operator to it.

So it is with graphs. If the operators that are lowered onto a graph are given other types, then
every step adds the same nodes or none, and the graph in the end is the same.

## Main definitions

* `Step.Retyped` — the same step for an operator of another type.
* `Outcome.Retyped` — how it ends.
-/

namespace TensorResize

variable {a b : String} {g : Graph} {s s' : Step} {steps steps' : List Step}

/-! ## One operator -/

section Operator

variable (m : AttributeMap) (args : List Argument) (settings : LoweringSettings)

theorem lowerResize_sameButTag (a b : String) :
    SameButTag (uppercase a) (uppercase b) (lowerResize ⟨a, m⟩ args settings)
      (lowerResize ⟨b, m⟩ args settings) :=
  (planResize_sameButTag a b m args settings).map ResizePlan.program

namespace Registry

/-- A type is registered exactly if it is one of the types of resizes. -/
theorem supports_standard_iff : standard.supports a = true ↔ a ∈ resizeParser.operators := by
  rw [supports, slot?, List.lookup_isSome_iff]
  simp [standard, register, empty]

theorem lower_of_supports (h : standard.supports a = true) :
    standard.lower ⟨a, m⟩ args settings = lowerResize ⟨a, m⟩ args settings := by
  rw [← isSome_find?] at h
  obtain ⟨p, hp⟩ := Option.isSome_iff_exists.1 h
  cases eq_resizeParser_of_find? hp
  simp only [lower, hp]
  rfl

theorem lower_of_not_supports (h : standard.supports a = false) :
    standard.lower ⟨a, m⟩ args settings = .error (.unsupportedOperator a) := by
  rw [← isSome_find?, Option.isSome_eq_false_iff, Option.isNone_iff_eq_none] at h
  simp only [lower, h]

end Registry

end Operator

/-! ## Operators lowered onto a graph -/

/-- How a step ends for operators of the types `a` and `b`. -/
inductive Outcome.Retyped (a b : String) : Outcome → Outcome → Prop where
  | same (outcome : Outcome) : Retyped a b outcome outcome
  | refused (fault : Fault) :
      Retyped a b (.refused (.inOperator (uppercase a) fault))
        (.refused (.inOperator (uppercase b) fault))
  | unsupported :
      Retyped a b (.refused (.unsupportedOperator a)) (.refused (.unsupportedOperator b))

/-- The same step for an operator of type `b` in place of one of type `a`. Where a parser is looked
up for the types, there is one for both of them or for none. -/
inductive Step.Retyped (a b : String) : Step → Step → Prop where
  | same (s : Step) : Retyped a b s s
  | lowerResize (m : AttributeMap) (ids : List NodeId) (settings : LoweringSettings) :
      Retyped a b (.lowerResize ⟨a, m⟩ ids settings) (.lowerResize ⟨b, m⟩ ids settings)
  | parse (m : AttributeMap) (ids : List NodeId) (settings : LoweringSettings)
      (hsupports : Registry.standard.supports a = Registry.standard.supports b) :
      Retyped a b (.parse ⟨a, m⟩ ids settings) (.parse ⟨b, m⟩ ids settings)

theorem Graph.lowerStepwise_retyped
    {lowering lowering' : List Argument → Except LoweringError Program} (g : Graph)
    (ids : List NodeId)
    (h : ∀ args, SameButTag (uppercase a) (uppercase b) (lowering args) (lowering' args)) :
    (g.lowerStepwise ids lowering).1 = (g.lowerStepwise ids lowering').1 ∧
      Outcome.Retyped a b (g.lowerStepwise ids lowering).2 (g.lowerStepwise ids lowering').2 := by
  rw [lowerStepwise, lowerStepwise]
  cases g.arguments ids with
  | error fault => exact ⟨rfl, .same _⟩
  | ok args =>
    have hanswer := h args
    dsimp only
    generalize lowering args = x at hanswer ⊢
    generalize lowering' args = y at hanswer ⊢
    cases hanswer with
    | ok p => exact ⟨rfl, .same _⟩
    | error fault => exact ⟨rfl, .refused fault⟩

namespace Step.Retyped

/-- A step does the same to a graph for an operator of another type. -/
theorem apply (h : Step.Retyped a b s s') (g : Graph) :
    (s.apply g).1 = (s'.apply g).1 ∧ Outcome.Retyped a b (s.apply g).2 (s'.apply g).2 := by
  cases h with
  | same => exact ⟨rfl, .same _⟩
  | lowerResize m ids settings =>
    exact g.lowerStepwise_retyped ids fun args => lowerResize_sameButTag m args settings a b
  | parse m ids settings hsupports =>
    cases hb : Registry.standard.supports b with
    | true =>
      rw [hb] at hsupports
      refine g.lowerStepwise_retyped ids fun args => ?_
      rw [Registry.lower_of_supports m args settings hsupports,
        Registry.lower_of_supports m args settings hb]
      exact lowerResize_sameButTag m args settings a b
    | false =>
      rw [hb] at hsupports
      simp only [Step.apply, Graph.lowerStepwise, Registry.lower_of_not_supports m _ settings hb,
        Registry.lower_of_not_supports m _ settings hsupports]
      cases g.arguments ids with
      | error fault => exact ⟨rfl, .same _⟩
      | ok args => exact ⟨rfl, .unsupported⟩

end Step.Retyped

/-- The graph after some steps does not depend on the types of the operators. -/
theorem Graph.run_retyped (g : Graph)
    (h : List.Forall₂ (fun s s' => ∃ a b, Step.Retyped a b s s') steps steps') :
    g.run steps = g.run steps' := by
  induction h generalizing g with
  | nil => rfl
  | cons hs _ ih =>
    obtain ⟨a, b, hs⟩ := hs
    rw [run_cons, run_cons, (hs.apply g).1, ih]

/-- The type of an operator labels errors and does nothing else. A plan is the same under any two
types, and so is a fault but for the tag. The registry lowers the two types of resizes alike. A step
for an operator of another type does the same to a graph and ends in the same way, so that a graph
does not depend on the types of the operators that were lowered onto it. -/
theorem operatorType_onlyTags :
    (∀ a b m args settings, SameButTag (uppercase a) (uppercase b)
      (planResize ⟨a, m⟩ args settings) (planResize ⟨b, m⟩ args settings)) ∧
    (∀ m args settings, SameButTag (uppercase "Resize") (uppercase "Upsample")
      (Registry.standard.lower ⟨"Resize", m⟩ args settings)
      (Registry.standard.lower ⟨"Upsample", m⟩ args settings)) ∧
    (∀ a b s s', Step.Retyped a b s s' → ∀ g,
      (s.apply g).1 = (s'.apply g).1 ∧ Outcome.Retyped a b (s.apply g).2 (s'.apply g).2) ∧
    ∀ steps steps', List.Forall₂ (fun s s' => ∃ a b, Step.Retyped a b s s') steps steps' →
      ∀ g : Graph, g.run steps = g.run steps' := by
  refine ⟨fun a b m args settings => planResize_sameButTag a b m args settings, ?_,
    fun _ _ _ _ h => h.apply, fun _ _ h g => g.run_retyped h⟩
  intro m args settings
  have hresize : Registry.standard.supports "Resize" = true :=
    Registry.supports_standard_iff.2 (List.mem_cons_self ..)
  have hupsample : Registry.standard.supports "Upsample" = true :=
    Registry.supports_standard_iff.2 (List.mem_cons_of_mem _ (List.mem_cons_self ..))
  rw [Registry.lower_of_supports m args settings hresize,
    Registry.lower_of_supports m args settings hupsample]
  exact lowerResize_sameButTag m args settings _ _

end TensorResize
