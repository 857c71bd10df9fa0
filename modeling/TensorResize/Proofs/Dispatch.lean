import TensorResize.Proofs.Steps

/-!
# Dispatch by operator type

A registry is two things that are kept in step: the parsers in the order in which they were
registered, and for each operator type the slot of a parser. Whatever was registered before, the
slot of a type is that of the last parser that lists it, and there is a parser in this slot. So a
node is lowered by the parser that was registered last for its type, with nothing added or left
out; a type that no parser lists is refused under its own spelling, and nothing is added to a graph.

## Main definitions

* `Registry.registerAll` — several parsers registered, one after the other.
* `ListsLast` — a parser lists a type, and no later one does.
* `Registry.Records` — the parsers and the slots are those of a history of registrations.
* `Registry.DispatchesLast` — the registration that counts is the last one.
-/

namespace TensorResize

variable {r : Registry} {p q : Parser} {parsers : List Parser} {type : String} {slot : ℕ}
  {o : Operator}

/-- The parser at `slot` lists the operator type, and no parser behind it does. -/
structure ListsLast (parsers : List Parser) (type : String) (slot : ℕ) (p : Parser) : Prop where
  getElem?_eq : parsers[slot]? = some p
  mem : type ∈ p.operators
  last : ∀ later q, slot < later → parsers[later]? = some q → type ∉ q.operators

/-! ## The last parser that lists a type -/

theorem ListsLast.lt_length (h : ListsLast parsers type slot p) : slot < parsers.length :=
  (List.getElem?_eq_some_iff.1 h.getElem?_eq).1

/-- A parser that is added is the last one for the types that it lists, and changes nothing for the
others. -/
theorem listsLast_concat :
    ListsLast (parsers ++ [q]) type slot p ↔
      (slot = parsers.length ∧ p = q ∧ type ∈ q.operators) ∨
        (type ∉ q.operators ∧ ListsLast parsers type slot p) := by
  constructor
  · intro h
    have hslot := h.lt_length
    rw [List.length_append, List.length_singleton, Nat.lt_succ_iff_lt_or_eq] at hslot
    rcases hslot with hold | rfl
    · right
      have hparser := h.getElem?_eq
      rw [List.getElem?_append_left hold] at hparser
      refine ⟨h.last parsers.length q hold List.getElem?_concat_length, hparser, h.mem, ?_⟩
      intro later p' hlater hp'
      have hlt := (List.getElem?_eq_some_iff.1 hp').1
      exact h.last later p' hlater ((List.getElem?_append_left hlt).trans hp')
    · left
      have hparser := h.getElem?_eq
      rw [List.getElem?_concat_length, Option.some.injEq] at hparser
      subst hparser
      exact ⟨rfl, rfl, h.mem⟩
  · rintro (⟨rfl, rfl, hmem⟩ | ⟨hunlisted, h⟩)
    · refine ⟨List.getElem?_concat_length, hmem, ?_⟩
      intro later p' hlater hp'
      have hlt := (List.getElem?_eq_some_iff.1 hp').1
      rw [List.length_append, List.length_singleton] at hlt
      omega
    · refine ⟨(List.getElem?_append_left h.lt_length).trans h.getElem?_eq, h.mem, ?_⟩
      intro later p' hlater hp'
      have hlt := (List.getElem?_eq_some_iff.1 hp').1
      rw [List.length_append, List.length_singleton, Nat.lt_succ_iff_lt_or_eq] at hlt
      rcases hlt with hold | rfl
      · rw [List.getElem?_append_left hold] at hp'
        exact h.last later p' hlater hp'
      · rw [List.getElem?_concat_length, Option.some.injEq] at hp'
        rwa [← hp']

/-- A type that is listed at all has a last parser that lists it. -/
theorem exists_listsLast_iff :
    (∃ slot p, ListsLast parsers type slot p) ↔ ∃ p ∈ parsers, type ∈ p.operators := by
  constructor
  · rintro ⟨slot, p, h⟩
    exact ⟨p, List.mem_of_getElem? h.getElem?_eq, h.mem⟩
  · -- from the last parser back to the one that lists the type
    induction parsers using List.reverseRecOn with
    | nil => simp
    | append_singleton parsers q ih =>
      rintro ⟨p, hp, hmem⟩
      by_cases hq : type ∈ q.operators
      · exact ⟨_, q, listsLast_concat.2 (.inl ⟨rfl, rfl, hq⟩)⟩
      · rcases List.mem_append.1 hp with hold | hnew
        · obtain ⟨slot, p', h⟩ := ih ⟨p, hold, hmem⟩
          exact ⟨slot, p', listsLast_concat.2 (.inr ⟨hq, h⟩)⟩
        · rw [List.mem_singleton.1 hnew] at hmem
          exact absurd hmem hq

namespace Registry

/-! ## Registrations -/

/-- Registers parsers one after the other. -/
def registerAll (r : Registry) (parsers : List Parser) : Registry := parsers.foldl register r

/-- The registry holds these parsers in order of registration, and every operator type is bound to
the slot of the last one that lists it. -/
structure Records (r : Registry) (history : List Parser) : Prop where
  parsers_eq : r.parsers = history
  slot?_eq_some_iff : ∀ type slot, r.slot? type = some slot ↔ ∃ p, ListsLast history type slot p

theorem lookup_map_slot (types : List String) (slot : ℕ) (type : String) :
    (types.map (·, slot)).lookup type = if type ∈ types then some slot else none := by
  induction types with
  | nil => rfl
  | cons other types ih =>
    rw [List.map_cons, List.lookup_cons, ih]
    by_cases h : type = other
    · simp [h]
    · simp [h, beq_eq_false_iff_ne.2 h]

theorem slot?_register (r : Registry) (p : Parser) (type : String) :
    (r.register p).slot? type =
      if type ∈ p.operators then some r.parsers.length else r.slot? type := by
  rw [slot?, register, List.lookup_append, lookup_map_slot]
  by_cases hmem : type ∈ p.operators
  · rw [if_pos hmem, if_pos hmem, Option.some_or]
  · rw [if_neg hmem, if_neg hmem, Option.none_or]
    rfl

theorem records_empty : empty.Records [] := by
  refine ⟨rfl, ?_⟩
  intro type slot
  constructor
  · exact nofun
  · rintro ⟨p, h⟩
    cases h.getElem?_eq

/-- A registration is recorded behind those before it. -/
theorem Records.register {history : List Parser} (h : r.Records history) (p : Parser) :
    (r.register p).Records (history ++ [p]) := by
  refine ⟨congrArg (· ++ [p]) h.parsers_eq, ?_⟩
  intro type slot
  simp only [slot?_register, listsLast_concat, h.parsers_eq]
  by_cases hmem : type ∈ p.operators
  · simp [hmem, eq_comm]
  · simp [hmem, h.slot?_eq_some_iff]

/-- A sequence of registrations is recorded in its order. -/
theorem Records.registerAll {history : List Parser} (h : r.Records history)
    (parsers : List Parser) : (r.registerAll parsers).Records (history ++ parsers) := by
  induction parsers generalizing r history with
  | nil => rwa [List.append_nil]
  | cons p parsers ih =>
    have hrest := ih (h.register p)
    rwa [List.append_assoc] at hrest

/-! ## Lowering -/

/-- The registration that counts for an operator type is the last one. -/
structure DispatchesLast (r : Registry) (registered : List Parser) : Prop where
  /-- A type is supported if some parser that was registered lists it. -/
  supports_iff : ∀ type, r.supports type = true ↔ ∃ p ∈ registered, type ∈ p.operators
  /-- There is a parser in the slot of a type: it lists the type, and no later one does. -/
  slot_valid : ∀ type slot, r.slot? type = some slot →
    slot < r.parsers.length ∧ ∃ p, r.parsers[slot]? = some p ∧ ListsLast registered type slot p
  /-- A node is lowered by the last parser that lists its type: the answer to a node, its arguments
  and the settings is the answer of this parser, and a graph becomes what it becomes by it. -/
  lower_eq : ∀ (o : Operator) slot p, ListsLast registered o.type slot p →
    (∀ args settings, r.lower o args settings = p.lower o args settings) ∧
    ∀ (g : Graph) ids settings,
      g.lowerStepwise ids (r.lower o · settings) = g.lowerStepwise ids (p.lower o · settings)
  /-- A node of a type that no parser lists is refused, and a graph stays as it was. -/
  refuses : ∀ o : Operator, (∀ p ∈ registered, o.type ∉ p.operators) →
    (∀ args settings, r.lower o args settings = .error (.unsupportedOperator o.type)) ∧
    ∀ (g : Graph) ids args settings, g.arguments ids = .ok args →
      g.lowerStepwise ids (r.lower o · settings) = (g, .refused (.unsupportedOperator o.type))

theorem Records.supports_iff {history : List Parser} (h : r.Records history) :
    r.supports type = true ↔ ∃ p ∈ history, type ∈ p.operators := by
  rw [supports, Option.isSome_iff_exists, ← exists_listsLast_iff]
  simp only [h.slot?_eq_some_iff]

theorem Records.find?_eq {history : List Parser} (h : r.Records history)
    (hlast : ListsLast history type slot p) : r.find? type = some p := by
  rw [find?_eq_some_iff]
  refine ⟨slot, (h.slot?_eq_some_iff type slot).2 ⟨p, hlast⟩, ?_⟩
  rw [h.parsers_eq]
  exact hlast.getElem?_eq

theorem Records.find?_eq_none {history : List Parser} (h : r.Records history)
    (hunlisted : ∀ p ∈ history, type ∉ p.operators) : r.find? type = none := by
  rw [← Option.isNone_iff_eq_none, ← Option.isSome_eq_false_iff, isSome_find?]
  rw [← Bool.not_eq_true, h.supports_iff]
  rintro ⟨p, hp, hmem⟩
  exact hunlisted p hp hmem

/-- A registry dispatches by the history of its registrations. -/
theorem Records.dispatchesLast {history : List Parser} (h : r.Records history) :
    r.DispatchesLast history where
  supports_iff _ := h.supports_iff
  slot_valid := by
    intro type slot hslot
    obtain ⟨p, hlast⟩ := (h.slot?_eq_some_iff type slot).1 hslot
    refine ⟨slot?_lt hslot, p, ?_, hlast⟩
    rw [h.parsers_eq]
    exact hlast.getElem?_eq
  lower_eq := by
    intro o slot p hlast
    have hlower : r.lower o = p.lower o := by
      funext args settings
      simp only [lower, h.find?_eq hlast]
    exact ⟨fun args settings => by rw [hlower], fun g ids settings => by rw [hlower]⟩
  refuses := by
    intro o hunlisted
    have hlower : ∀ args settings,
        r.lower o args settings = .error (.unsupportedOperator o.type) := by
      intro args settings
      simp only [lower, h.find?_eq_none hunlisted]
    refine ⟨hlower, ?_⟩
    intro g ids args settings hargs
    exact Graph.lowerStepwise_of_error hargs (hlower args settings)

/-- Whatever parsers are registered, in whichever order and for whichever operator types, the last
registration for a type is the one that counts. This holds from a registry without parsers on, and
from the standard one, where the parser for resizes comes first. -/
theorem registerAll_dispatchesLast (parsers : List Parser) :
    (empty.registerAll parsers).DispatchesLast parsers ∧
      (standard.registerAll parsers).DispatchesLast (resizeParser :: parsers) :=
  ⟨(records_empty.registerAll parsers).dispatchesLast,
    ((records_empty.register resizeParser).registerAll parsers).dispatchesLast⟩

end Registry

end TensorResize
