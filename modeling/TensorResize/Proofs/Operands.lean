import TensorResize.Proofs.Plan
import TensorResize.Resize.Lowering

/-!
# Operands of a plan

The calls of a plan read the nodes that the plan names and the results of earlier calls of the same
plan, nothing else. Every result but the last is read by a later call, so that none is computed in
vain. A step of a blend reads the result that it starts from and its own results, which is all that
is needed for blends along any number of axes.

The nodes that a plan names are its data and the argument that its scales or lengths come from. If
they come from the attribute instead, they are a constant of the plan.

## Main definitions

* `ResizePlan.reads` — the nodes that a plan names.
* `ReadsBack` — calls that read given nodes and earlier results.
* `IsRead` — a result that a later call reads.
* `Call.SuitsArity` — a call with as many operands as its instruction has inputs.
-/

namespace TensorResize

/-- The operand is one of `nodes`, or the result of one of the first `made` calls. -/
def Operand.IsBack (nodes : List NodeId) (made : ℕ) : Operand → Prop
  | node id => id ∈ nodes
  | result call => call < made

/-- Calls that read some nodes and the results of earlier ones among them, if `made` calls were made
before. -/
def ReadsBack (nodes : List NodeId) : ℕ → List (Call Operand) → Prop
  | _, [] => True
  | made, c :: calls => (∀ x ∈ c.inputs, x.IsBack nodes made) ∧ ReadsBack nodes (made + 1) calls

/-- One of the calls reads the result of call `k` and is made after it. The first of the calls is
call `first`. -/
def IsRead (first : ℕ) (calls : List (Call Operand)) (k : ℕ) : Prop :=
  ∃ i c, calls[i]? = some c ∧ k < first + i ∧ .result k ∈ c.inputs

/-- An instruction is given as many operands as it has inputs. -/
def Call.SuitsArity {ι : Type} : Call ι → Prop
  | literal _ => True
  | instruction operation inputs => inputs.length = operation.arity

variable {nodes : List NodeId} {made first k : ℕ} {calls more : List (Call Operand)}

@[simp] theorem isBack_node {id : NodeId} : (Operand.node id).IsBack nodes made ↔ id ∈ nodes :=
  Iff.rfl

@[simp] theorem isBack_result : (Operand.result k).IsBack nodes made ↔ k < made := Iff.rfl

theorem readsBack_append :
    ReadsBack nodes made (calls ++ more) ↔
      ReadsBack nodes made calls ∧ ReadsBack nodes (made + calls.length) more := by
  induction calls generalizing made with
  | nil => simp [ReadsBack]
  | cons c calls ih =>
    rw [List.cons_append, ReadsBack, ReadsBack, ih, List.length_cons, and_assoc,
      Nat.add_right_comm, Nat.add_assoc]

theorem ReadsBack.isBack {i : ℕ} {c : Call Operand} {x : Operand} (h : ReadsBack nodes made calls)
    (hc : calls[i]? = some c) (hx : x ∈ c.inputs) : x.IsBack nodes (made + i) := by
  induction calls generalizing made i with
  | nil => cases hc
  | cons first calls ih =>
    cases i with
    | zero =>
      cases hc
      exact h.1 x hx
    | succ i =>
      have hrest := ih h.2 hc
      rwa [Nat.add_right_comm] at hrest

theorem IsRead.append_right (h : IsRead first calls k) (more : List (Call Operand)) :
    IsRead first (calls ++ more) k := by
  obtain ⟨i, c, hc, hk, hread⟩ := h
  refine ⟨i, c, ?_, hk, hread⟩
  rw [List.getElem?_append_left (List.getElem?_eq_some_iff.1 hc).1, hc]

theorem IsRead.append_left (h : IsRead (first + calls.length) more k) :
    IsRead first (calls ++ more) k := by
  obtain ⟨i, c, hc, hk, hread⟩ := h
  refine ⟨calls.length + i, c, ?_, by omega, hread⟩
  rw [List.getElem?_append_right (Nat.le_add_right ..), Nat.add_sub_cancel_left, hc]

@[simp] theorem suitsArity_map {ι κ : Type} {f : ι → κ} {c : Call ι} :
    (c.map f).SuitsArity ↔ c.SuitsArity := by
  cases c with
  | literal value => exact Iff.rfl
  | instruction operation inputs => simp [Call.map, Call.SuitsArity]

/-! ## The calls of a blend -/

theorem blendCalls_cons (current : ℕ) (step : BlendStep) (blend : List BlendStep) :
    ResizePlan.blendCalls current (step :: blend) =
      ResizePlan.blendCalls current [step] ++ ResizePlan.blendCalls (current + 6) blend := by
  simp [ResizePlan.blendCalls]

namespace ResizePlan

variable {current : ℕ} (step : BlendStep) (blend : List BlendStep)

@[simp] theorem length_blendCalls_singleton : (blendCalls current [step]).length = 6 := rfl

@[simp] theorem length_blendCalls : (blendCalls current blend).length = 6 * blend.length := by
  induction blend generalizing current with
  | nil => rfl
  | cons step blend ih =>
    rw [blendCalls_cons, List.length_append, ih, length_blendCalls_singleton, List.length_cons]
    omega

theorem suitsArity_blendCalls : ∀ c ∈ blendCalls current blend, c.SuitsArity := by
  induction blend generalizing current with
  | nil => simp [blendCalls]
  | cons step blend ih =>
    rw [blendCalls_cons, List.forall_mem_append]
    refine ⟨?_, ih⟩
    simp [blendCalls, Call.SuitsArity, Instruction.arity, rowSlice]

/-- The blends read the result that they start from and their own earlier results. -/
theorem readsBack_blendCalls : ReadsBack nodes (current + 1) (blendCalls current blend) := by
  induction blend generalizing current with
  | nil => trivial
  | cons step blend ih =>
    rw [blendCalls_cons, readsBack_append]
    refine ⟨?_, ih⟩
    simp only [blendCalls, ReadsBack, Call.inputs, List.append_nil, List.not_mem_nil,
      List.mem_cons, or_false, forall_eq_or_imp, forall_eq, isBack_result, false_imp_iff,
      implies_true, true_and, and_true]
    omega

/-- Each result of a blend but the last is read by a later call of it, and so is the result that it
starts from. -/
theorem isRead_blendCalls_singleton (h : current ≤ k) (hk : k < current + 6) :
    IsRead (current + 1) (blendCalls current [step]) k := by
  obtain ⟨j, rfl⟩ := Nat.exists_eq_add_of_le h
  match j, hk with
  | 0, _ => exact ⟨1, _, rfl, by omega, List.mem_cons_self ..⟩
  | 1, _ => exact ⟨4, _, rfl, by omega, List.mem_cons_of_mem _ (List.mem_cons_self ..)⟩
  | 2, _ => exact ⟨3, _, rfl, by omega, List.mem_cons_of_mem _ (List.mem_cons_self ..)⟩
  | 3, _ => exact ⟨3, _, rfl, by omega, List.mem_cons_self ..⟩
  | 4, _ => exact ⟨4, _, rfl, by omega, List.mem_cons_self ..⟩
  | 5, _ => exact ⟨5, _, rfl, by omega, List.mem_cons_self ..⟩
  | j + 6, hk => omega

theorem isRead_blendCalls (h : current ≤ k) (hk : k < current + 6 * blend.length) :
    IsRead (current + 1) (blendCalls current blend) k := by
  induction blend generalizing current with
  | nil => exact absurd hk (Nat.not_lt.2 h)
  | cons step blend ih =>
    rw [List.length_cons] at hk
    rw [blendCalls_cons]
    by_cases hown : k < current + 6
    · exact (isRead_blendCalls_singleton step h hown).append_right _
    · apply IsRead.append_left
      have hrest := @ih (current + 6) (Nat.le_of_not_lt hown) (by omega)
      rwa [Nat.add_right_comm] at hrest

/-! ## The calls of a plan -/

/-- The nodes of the graph that the calls of a plan read. -/
def reads : ResizePlan → List NodeId
  | runtime data (.existing id) _ => [data, id]
  | runtime data (.constant _) _ | nearest data _ _ | linear data _ _ _ => [data]

/-- The blends of a plan. -/
def steps : ResizePlan → List BlendStep
  | linear _ _ _ blend => blend
  | runtime .. | nearest .. => []

/-- The number of calls of a plan. -/
def callCount : ResizePlan → ℕ
  | runtime _ (.existing _) _ => 1
  | runtime _ (.constant _) _ => 2
  | nearest .. => 3
  | linear _ _ _ blend => 3 + 6 * blend.length

/-- The instruction of a plan that runs with the graph takes two inputs, as resizes do. -/
def TakesTwo : ResizePlan → Prop
  | runtime _ _ instruction => instruction.arity = 2
  | nearest .. | linear .. => True

variable (plan : ResizePlan)

theorem calls_ne_nil : plan.program.calls ≠ [] := by
  cases plan with
  | runtime data scales operation =>
    cases scales with
    | existing id => exact List.cons_ne_nil _ _
    | constant scales => exact List.cons_ne_nil _ _
  | nearest data total indices => exact List.cons_ne_nil _ _
  | linear data total indices blend => exact List.cons_ne_nil _ _

theorem length_program : plan.program.calls.length = plan.callCount := by
  cases plan with
  | runtime data scales instruction =>
    cases scales with
    | existing id => rfl
    | constant scales => rfl
  | nearest data total indices => rfl
  | linear data total indices blend =>
    rw [program, List.length_append, length_blendCalls]
    rfl

theorem suitsArity_gatherCalls (data total : ℕ) (indices : Literal) :
    ∀ c ∈ gatherCalls data total indices, c.SuitsArity := by
  simp [gatherCalls, Call.SuitsArity, Instruction.arity]

/-- The instructions of a plan have the operands that they take, if a resize of the plan has. -/
theorem suitsArity_program : (∀ c ∈ plan.program.calls, c.SuitsArity) ↔ plan.TakesTwo := by
  cases plan with
  | runtime data scales instruction =>
    cases scales with
    | existing id => simp [program, Call.SuitsArity, TakesTwo, eq_comm]
    | constant scales => simp [program, Call.SuitsArity, TakesTwo, eq_comm]
  | nearest data total indices =>
    exact iff_of_true (suitsArity_gatherCalls data total indices) trivial
  | linear data total indices blend =>
    refine iff_of_true (List.forall_mem_append.2 ⟨?_, suitsArity_blendCalls blend⟩) trivial
    exact suitsArity_gatherCalls data total indices

theorem readsBack_gatherCalls (data total : ℕ) (indices : Literal) :
    ReadsBack [data] 0 (gatherCalls data total indices) := by
  simp [gatherCalls, ReadsBack, Call.inputs]

/-- A plan reads the nodes that it names and the results of its own earlier calls. -/
theorem readsBack_program : ReadsBack plan.reads 0 plan.program.calls := by
  cases plan with
  | runtime data scales instruction =>
    cases scales with
    | existing id => simp [program, ReadsBack, Call.inputs, reads]
    | constant scales => simp [program, ReadsBack, Call.inputs, reads]
  | nearest data total indices => exact readsBack_gatherCalls data total indices
  | linear data total indices blend =>
    exact readsBack_append.2 ⟨readsBack_gatherCalls data total indices, readsBack_blendCalls blend⟩

theorem isRead_gatherCalls {data total : ℕ} {indices : Literal} (hk : k < 2) :
    IsRead 0 (gatherCalls data total indices) k := by
  match k, hk with
  | 0, _ => exact ⟨2, _, rfl, by omega, List.mem_cons_self ..⟩
  | 1, _ => exact ⟨2, _, rfl, by omega, List.mem_cons_of_mem _ (List.mem_cons_self ..)⟩

/-- Every call of a plan but the last computes something that a later call reads. -/
theorem isRead_program (hk : k + 1 < plan.callCount) : IsRead 0 plan.program.calls k := by
  cases plan with
  | runtime data scales instruction =>
    cases scales with
    | existing id => exact absurd hk (Nat.not_lt.2 (Nat.le_add_left 1 k))
    | constant scales =>
      obtain rfl : k = 0 := Nat.lt_one_iff.1 (Nat.succ_lt_succ_iff.1 hk)
      exact ⟨1, _, rfl, by omega, List.mem_cons_of_mem _ (List.mem_cons_self ..)⟩
  | nearest data total indices => exact isRead_gatherCalls (Nat.succ_lt_succ_iff.1 hk)
  | linear data total indices blend =>
    rw [callCount] at hk
    by_cases hgather : k < 2
    · exact (isRead_gatherCalls hgather).append_right _
    · have hblend : IsRead (2 + 1) (blendCalls 2 blend) k :=
        isRead_blendCalls blend (Nat.le_of_not_lt hgather) (by omega)
      exact .append_left hblend

end ResizePlan

/-! ## The nodes that a plan names -/

section Named

variable {attributes : AttributeMap} {args : List Argument} {inLens lens : List ℕ}
  {scales : List Binary64} {origin : Option NodeId} {resolution : Resolution} {id : NodeId}
  {tag : String}

/-- The argument that scales and lengths are read from. -/
def Resolution.source? : Resolution → Option NodeId
  | constant _ _ source => source
  | deferred id => some id

theorem Resolution.source?_of_ofScales
    (h : ofScales inLens scales lens origin tag = .ok resolution) :
    resolution.source? = origin := by
  rw [ofScales] at h
  split at h
  · cases h
    rfl
  · cases h

/-- Scales and lengths are read from the attribute if it has values, and from the argument that
decides if it has none. -/
theorem Resolution.source?_of_resolve
    (h : resolve attributes args inLens tag = .ok resolution) :
    ∃ values, attributes.scales tag = .ok values ∧
      ((values ≠ [] ∧ resolution.source? = none) ∨
        (values = [] ∧ ∃ a, decidingArgument? args = some a ∧ resolution.source? = some a.id)) := by
  simp only [resolve, bind_eq_ok] at h
  obtain ⟨values, hvalues, h⟩ := h
  refine ⟨values, hvalues, ?_⟩
  cases values with
  | nil =>
    simp only [List.isEmpty_nil, if_true, bind_eq_ok, orError_eq_ok] at h
    obtain ⟨a, ha, reading, -, h⟩ := h
    refine .inr ⟨rfl, a, ha, ?_⟩
    cases reading with
    | deferred =>
      cases h
      rfl
    | lengths lens => exact source?_of_ofScales h
    | scales values => exact source?_of_ofScales h
  | cons value values => exact .inl ⟨List.cons_ne_nil _ _, source?_of_ofScales h⟩

namespace ResizePlan

theorem reads_forRuntime (data : NodeId) (settings : ResizeSettings) (resolution : Resolution) :
    (forRuntime data settings resolution).reads = data :: resolution.source?.toList := by
  cases resolution with
  | constant scales outLens source =>
    cases source with
    | none => rfl
    | some id => rfl
  | deferred id => rfl

/-- A resize that runs with the graph takes a constant of its own exactly if the scales come from
the attribute. -/
theorem callCount_forRuntime (data : NodeId) (settings : ResizeSettings) (resolution : Resolution) :
    (forRuntime data settings resolution).callCount =
      if resolution.source? = none then 2 else 1 := by
  cases resolution with
  | constant scales outLens source =>
    cases source with
    | none => rfl
    | some id => rfl
  | deferred id => rfl

variable {o : Operator} {settings : LoweringSettings} {plan : ResizePlan}

/-- A plan reads the nodes of its arguments. -/
theorem exists_argument_of_mem_reads (hplan : planResize o args settings = .ok plan)
    (hid : id ∈ plan.reads) : ∃ a ∈ args, a.id = id := by
  obtain ⟨settings, data, resolution, -, -, hdata, hresolution, rfl⟩ |
    ⟨settings, data, inLens, outLens, scales, hmade, h⟩ := planResize_eq_ok hplan
  · rw [reads_forRuntime] at hid
    rcases List.mem_cons.1 hid with rfl | hid
    · exact ⟨data, List.mem_of_mem_head? hdata, rfl⟩
    · rw [Option.mem_toList] at hid
      obtain ⟨_, -, ⟨-, hnone⟩ | ⟨-, a, ha, hsome⟩⟩ := Resolution.source?_of_resolve hresolution
      · cases hnone.symm.trans hid
      · exact ⟨a, List.mem_of_find?_eq_some ha, Option.some.inj (hsome.symm.trans hid)⟩
  · have hdata := List.mem_of_mem_head? hmade.data_eq
    rcases h with ⟨-, rfl⟩ | ⟨-, hlinear⟩
    · exact ⟨data, hdata, (List.mem_singleton.1 hid).symm⟩
    · obtain ⟨-, -, -, rfl⟩ := forLinear_eq_ok.1 hlinear
      exact ⟨data, hdata, (List.mem_singleton.1 hid).symm⟩

/-- The instruction of a plan for an operator is a resize where it is not chosen here. -/
theorem takesTwo_of_planResize (hplan : planResize o args settings = .ok plan) : plan.TakesTwo := by
  obtain ⟨_, _, _, -, -, -, -, rfl⟩ | ⟨_, _, _, _, _, -, ⟨-, rfl⟩ | ⟨-, hlinear⟩⟩ :=
    planResize_eq_ok hplan
  · rfl
  · trivial
  · obtain ⟨-, -, -, rfl⟩ := forLinear_eq_ok.1 hlinear
    trivial

/-- A resize that runs with the graph is planned as two calls exactly if the scales come from the
attribute. -/
theorem callCount_of_planResize {data : NodeId} {scales : RuntimeScales} {instruction : Instruction}
    (hplan : planResize o args settings = .ok (.runtime data scales instruction)) :
    (runtime data scales instruction).callCount = 2 ↔
      ∃ values, o.attributes.scales o.tag = .ok values ∧ values ≠ [] := by
  obtain ⟨settings, a, resolution, -, -, -, hresolution, h⟩ | ⟨_, _, _, _, _, -, h⟩ :=
    planResize_eq_ok hplan
  · obtain ⟨values, hvalues, hsource⟩ := Resolution.source?_of_resolve hresolution
    rw [h, callCount_forRuntime, hvalues]
    rcases hsource with ⟨hne, hnone⟩ | ⟨rfl, a, -, hsome⟩
    · rw [if_pos hnone]
      exact iff_of_true rfl ⟨values, rfl, hne⟩
    · rw [if_neg (by simp [hsome])]
      refine iff_of_false (by decide) ?_
      rintro ⟨_, h, hne⟩
      cases h
      exact hne rfl
  · rcases h with ⟨-, h⟩ | ⟨-, hlinear⟩
    · cases h
    · obtain ⟨-, -, -, h⟩ := forLinear_eq_ok.1 hlinear
      cases h

end ResizePlan

end Named

end TensorResize
