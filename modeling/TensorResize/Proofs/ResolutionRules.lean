import Mathlib.Data.Nat.Notation
import TensorResize.Proofs.Sequencing
import TensorResize.Resize.Resolution

/-!
# The rules of resolution

Which scales and output lengths a resize gets, as rules of which exactly one applies. Without scales
of its own a node is decided by the first argument behind the data that is present. Nothing else
about the arguments matters: not how many absent ones stand between, nor what follows.

## Main definitions

* `Argument.IsPresent`, `Decides` — the argument that decides.
* `Resolution.ofGivenScales` — the rule for scales, wherever they come from.
* `Resolves` — the rules.
-/

namespace TensorResize

variable {m : AttributeMap} {data a : Argument} {rest before skipped after later : List Argument}
  {inLens : List ℕ} {tag : String} {outcome : Except LoweringError Resolution}

/-- The argument was not left out and has at least one dimension. -/
def Argument.IsPresent (a : Argument) : Prop := a.undefined = false ∧ a.shape.dims ≠ []

/-- The argument has a value with elements. -/
def Argument.HasValue (a : Argument) (v : Literal) : Prop := a.value = some v ∧ v.buffer.length ≠ 0

/-- The node has no `scales` attribute, or an empty one. -/
def AttributeMap.LacksScales (m : AttributeMap) : Prop :=
  m.get? "scales" = none ∨ m.get? "scales" = some (.floats [])

/-- The argument that decides, where the attributes do not: the first behind the data that is
present. -/
structure Decides (m : AttributeMap) (rest : List Argument) (a : Argument) : Prop where
  lacksScales : m.LacksScales
  first : ∃ before after, rest = before ++ a :: after ∧ (∀ b ∈ before, ¬b.IsPresent)
  present : a.IsPresent

namespace Resolution

/-- The truncated products of source lengths and scales. -/
def truncatedLens (inLens : List ℕ) (scales : List Binary64) : List ℕ :=
  List.zipWith (fun len scale => (Binary.ofNat .binary64 len * scale).toWord) inLens scales

/-- Scales that come without output lengths: there must be one per dimension, and the lengths are
the truncated products. -/
def ofGivenScales (inLens : List ℕ) (scales : List Binary64) (source : Option NodeId)
    (tag : String) : Except LoweringError Resolution :=
  if scales.length = inLens.length then
    .ok (.constant scales (truncatedLens inLens scales) source)
  else .error (.inOperator tag (.rankMismatch inLens.length scales.length))

/-- Output lengths, one per dimension, with the scales that lead to them. Lengths that are all zero
count as not given. -/
def ofGivenLens (inLens outLens : List ℕ) (source : NodeId) : Resolution :=
  let scales := List.zipWith (fun inLen outLen : ℕ =>
    Binary.ofNat .binary64 outLen / Binary.ofNat .binary64 inLen) inLens outLens
  .constant scales (if ∀ len ∈ outLens, len = 0 then truncatedLens inLens scales else outLens)
    (some source)

end Resolution

/-- The outcome of resolving a node with attributes `m` and arguments `rest` behind the data, for a
source with lengths `inLens`, in the operator with this tag. -/
inductive Resolves (m : AttributeMap) (rest : List Argument) (inLens : List ℕ) (tag : String) :
    Except LoweringError Resolution → Prop where
  | attributeNotFloats {value : AttributeValue} (hvalue : m.get? "scales" = some value)
      (hkind : ∀ values, value ≠ .floats values) :
      Resolves m rest inLens tag
        (.error (.inOperator tag (.attributeType "scales" "a list of floats")))
  | attributeScales {values : List Binary32} (hvalue : m.get? "scales" = some (.floats values))
      (hvalues : values ≠ []) :
      Resolves m rest inLens tag
        (Resolution.ofGivenScales inLens (values.map (Binary.convert .binary64)) none tag)
  | missing (hscales : m.LacksScales) (hrest : ∀ a ∈ rest, ¬a.IsPresent) :
      Resolves m rest inLens tag (.error (.inOperator tag .missingScaleOrSize))
  | lensDeferred {a : Argument} (ha : Decides m rest a) (htype : a.shape.elementType.isInteger)
      (hvalue : ∀ v, ¬a.HasValue v) :
      Resolves m rest inLens tag (.ok (.deferred a.id))
  | lensMismatch {a : Argument} {v : Literal} (ha : Decides m rest a)
      (htype : a.shape.elementType.isInteger) (hvalue : a.HasValue v)
      (hlength : v.buffer.length ≠ inLens.length) :
      Resolves m rest inLens tag
        (.error (.inOperator tag (.outputRankMismatch inLens.length v.buffer.length)))
  | lens {a : Argument} {v : Literal} (ha : Decides m rest a)
      (htype : a.shape.elementType.isInteger) (hvalue : a.HasValue v)
      (hlength : v.buffer.length = inLens.length) :
      Resolves m rest inLens tag (.ok (Resolution.ofGivenLens inLens v.toLengths a.id))
  | scalesMismatch {a : Argument} (ha : Decides m rest a)
      (htype : a.shape.elementType.isInteger = false)
      (hleading : a.shape.dims.head? ≠ some (.known inLens.length)) :
      Resolves m rest inLens tag (Resolution.ofGivenScales inLens [] (some a.id) tag)
  | scalesDeferred {a : Argument} (ha : Decides m rest a)
      (htype : a.shape.elementType.isInteger = false)
      (hleading : a.shape.dims.head? = some (.known inLens.length))
      (hvalue : ∀ v, ¬a.HasValue v) :
      Resolves m rest inLens tag (.ok (.deferred a.id))
  | scales {a : Argument} {v : Literal} (ha : Decides m rest a)
      (htype : a.shape.elementType.isInteger = false)
      (hleading : a.shape.dims.head? = some (.known inLens.length)) (hvalue : a.HasValue v) :
      Resolves m rest inLens tag (Resolution.ofGivenScales inLens v.toDoubles (some a.id) tag)

/-! ## The deciding argument -/

namespace Argument

theorem isEligible_eq_true_iff (id : NodeId) :
    a.isEligible (some id) = true ↔ a.id ≠ id ∧ a.IsPresent := by
  simp [isEligible, IsPresent, Shape.rank, and_assoc]

/-- The value of an argument is used if it has elements. -/
theorem filter_value_eq_some_iff {v : Literal} :
    a.value.filter (!·.isEmpty) = some v ↔ a.HasValue v := by
  simp [Option.filter_eq_some_iff, HasValue, Literal.isEmpty, Buffer.isEmpty]

theorem filter_value_eq_none_iff :
    a.value.filter (!·.isEmpty) = none ↔ ∀ v, ¬a.HasValue v := by
  simp only [Option.eq_none_iff_forall_ne_some, ne_eq, filter_value_eq_some_iff]

theorem leadingLength_eq_some_iff {n : ℕ} :
    a.shape.dims.head?.bind Dimension.length? = some n ↔ a.shape.dims.head? = some (.known n) := by
  cases a.shape.dims.head? with
  | none => simp
  | some d => cases d <;> simp [Dimension.length?]

end Argument

/-- The data itself never decides. -/
theorem decidingArgument?_eq_find? (data : Argument) (rest : List Argument) :
    decidingArgument? (data :: rest) = rest.find? (·.isEligible (some data.id)) := by
  have hself : ¬data.isEligible (some data.id) = true := by
    rw [Argument.isEligible_eq_true_iff]
    exact fun h => h.1 rfl
  exact List.find?_cons_of_neg hself

theorem Decides.mem (ha : Decides m rest a) : a ∈ rest := by
  obtain ⟨before, after, rfl, -⟩ := ha.first
  simp

/-- The argument that decides by position is taken if it is another node than the data. -/
theorem decidingArgument?_of_decides (ha : Decides m rest a) (hdata : a.id ≠ data.id) :
    decidingArgument? (data :: rest) = some a := by
  obtain ⟨before, after, rfl, hbefore⟩ := ha.first
  rw [decidingArgument?_eq_find?, List.find?_eq_some_iff_append]
  refine ⟨?_, before, after, rfl, ?_⟩
  · exact (Argument.isEligible_eq_true_iff _).2 ⟨hdata, ha.present⟩
  · intro b hb
    have habsent : ¬b.isEligible (some data.id) = true := by
      rw [Argument.isEligible_eq_true_iff]
      exact fun h => hbefore b hb h.2
    simpa using habsent

theorem decidingArgument?_eq_none (hrest : ∀ a ∈ rest, ¬a.IsPresent) :
    decidingArgument? (data :: rest) = none := by
  rw [decidingArgument?_eq_find?, List.find?_eq_none]
  intro b hb
  rw [Argument.isEligible_eq_true_iff]
  exact fun h => hrest b hb h.2

/-- Either no argument behind the data is present, or one of them is the first. -/
theorem forall_not_isPresent_or_decides (hscales : m.LacksScales) (rest : List Argument) :
    (∀ a ∈ rest, ¬a.IsPresent) ∨ ∃ a, Decides m rest a := by
  induction rest with
  | nil => exact .inl nofun
  | cons b rest ih =>
    by_cases hb : b.IsPresent
    · exact .inr ⟨b, hscales, ⟨[], rest, rfl, nofun⟩, hb⟩
    · rcases ih with hrest | ⟨a, ha⟩
      · left
        intro a hmem
        rcases List.mem_cons.1 hmem with rfl | hmem
        · exact hb
        · exact hrest a hmem
      · right
        obtain ⟨before, after, rfl, hbefore⟩ := ha.first
        refine ⟨a, hscales, ⟨b :: before, after, rfl, ?_⟩, ha.present⟩
        intro c hc
        rcases List.mem_cons.1 hc with rfl | hc
        · exact hb
        · exact hbefore c hc

/-- Arguments that are not present do not change which one decides. -/
theorem decidingArgument?_append_skipped (hskipped : ∀ a ∈ skipped, ¬a.IsPresent) :
    decidingArgument? (data :: (before ++ skipped ++ after)) =
      decidingArgument? (data :: (before ++ after)) := by
  have hnone : skipped.find? (·.isEligible (some data.id)) = none := by
    rw [List.find?_eq_none]
    intro b hb
    rw [Argument.isEligible_eq_true_iff]
    exact fun h => hskipped b hb h.2
  simp only [decidingArgument?_eq_find?, List.find?_append, hnone, Option.or_none]

/-- What follows an argument that can decide does not change which one decides. -/
theorem decidingArgument?_append_later (ha : a.IsPresent) (hid : a.id ≠ data.id) :
    decidingArgument? (data :: (before ++ a :: later)) =
      decidingArgument? (data :: (before ++ a :: after)) := by
  have hself : a.isEligible (some data.id) = true :=
    (Argument.isEligible_eq_true_iff _).2 ⟨hid, ha⟩
  simp only [decidingArgument?_eq_find?, List.find?_append, List.find?_cons, hself]

/-! ## The attribute -/

theorem AttributeMap.scales_eq_nil (h : m.LacksScales) : m.scales tag = .ok [] := by
  rw [scales]
  rcases h with h | h
  · rw [h]
  · rw [h]
    rfl

/-- The attribute is not a list of floats, or it has values, or it leaves the choice to the
arguments. -/
theorem AttributeMap.scales_cases (m : AttributeMap) :
    (∃ value, m.get? "scales" = some value ∧ ∀ values, value ≠ .floats values) ∨
      (∃ values, m.get? "scales" = some (.floats values) ∧ values ≠ []) ∨ m.LacksScales := by
  cases hvalue : m.get? "scales" with
  | none => exact .inr (.inr (.inl hvalue))
  | some value =>
    cases value with
    | floats values =>
      by_cases hvalues : values = []
      · exact .inr (.inr (.inr (by rw [hvalue, hvalues])))
      · exact .inr (.inl ⟨values, rfl, hvalues⟩)
    | int value => exact .inl ⟨_, rfl, nofun⟩
    | float value => exact .inl ⟨_, rfl, nofun⟩
    | string value => exact .inl ⟨_, rfl, nofun⟩
    | ints values => exact .inl ⟨_, rfl, nofun⟩

theorem AttributeMap.lacksScales_of_scales (h : m.scales tag = .ok []) : m.LacksScales := by
  rcases m.scales_cases with ⟨value, hvalue, hkind⟩ | ⟨values, hvalue, hvalues⟩ | hscales
  · rw [scales, hvalue] at h
    cases value with
    | floats values => exact absurd rfl (hkind values)
    | int | float | string | ints => cases h
  · rw [scales, hvalue] at h
    exact absurd (List.map_eq_nil_iff.1 (Except.ok.inj h)) hvalues
  · exact hscales

/-! ## The rules -/

namespace Resolution

theorem ofScales_nil (inLens : List ℕ) (scales : List Binary64) (source : Option NodeId) :
    ofScales inLens scales [] source tag = ofGivenScales inLens scales source tag := rfl

theorem ofScales_zipWith {outLens : List ℕ} (h : outLens.length = inLens.length)
    (source : NodeId) :
    ofScales inLens (List.zipWith scaleBetween inLens outLens) outLens (some source) tag =
      .ok (ofGivenLens inLens outLens source) := by
  have hlength : (List.zipWith scaleBetween inLens outLens).length = inLens.length := by
    rw [List.length_zipWith, h, Nat.min_self]
  rw [ofScales, if_pos hlength]
  simp only [List.all_eq_true, beq_iff_eq]
  rfl

/-- A node without scales of its own is resolved by the argument that decides. -/
theorem resolve_of_decides (ha : Decides m rest a) (hdata : a.id ≠ data.id) :
    resolve m (data :: rest) inLens tag = (do
      match ← a.reading inLens.length tag with
      | .deferred => return .deferred a.id
      | .lengths outLens =>
        ofScales inLens (List.zipWith scaleBetween inLens outLens) outLens (some a.id) tag
      | .scales values => ofScales inLens values [] (some a.id) tag) := by
  rw [resolve, AttributeMap.scales_eq_nil ha.lacksScales, decidingArgument?_of_decides ha hdata]
  rfl

end Resolution

/-- A rule that applies gives what the node is resolved to, if the argument that decides is another
node than the data. -/
theorem Resolves.resolve_eq_of_ne (hdata : ∀ a, Decides m rest a → a.id ≠ data.id)
    (h : Resolves m rest inLens tag outcome) :
    Resolution.resolve m (data :: rest) inLens tag = outcome := by
  cases h with
  | @attributeNotFloats value hvalue hkind =>
    have hfloats : value.floats? = none := by
      cases value with
      | floats values => exact absurd rfl (hkind values)
      | int | float | string | ints => rfl
    simp only [Resolution.resolve, AttributeMap.scales, hvalue, hfloats]
    rfl
  | @attributeScales values hvalue hvalues =>
    have hscales : m.scales tag = .ok (values.map (Binary.convert .binary64)) := by
      rw [AttributeMap.scales, hvalue]
      rfl
    have hempty : (values.map (Binary.convert .binary64)).isEmpty = false := by simpa using hvalues
    rw [Resolution.resolve, hscales]
    simp only [bind, Except.bind, hempty, Bool.false_eq_true, if_false, Resolution.ofScales_nil]
  | missing hscales hrest =>
    rw [Resolution.resolve, AttributeMap.scales_eq_nil hscales, decidingArgument?_eq_none hrest]
    rfl
  | lensDeferred ha htype hvalue =>
    rw [Resolution.resolve_of_decides ha (hdata _ ha), Argument.reading,
      Argument.filter_value_eq_none_iff.2 hvalue]
    simp only [htype, if_true]
    rfl
  | @lensMismatch a v ha htype hvalue hlength =>
    rw [Resolution.resolve_of_decides ha (hdata _ ha), Argument.reading,
      Argument.filter_value_eq_some_iff.2 hvalue]
    simp only [htype, if_true, Literal.toLengths, Buffer.length_toLengths, hlength, if_false]
    rfl
  | @lens a v ha htype hvalue hlength =>
    have hlens : v.toLengths.length = inLens.length := (Buffer.length_toLengths _).trans hlength
    rw [Resolution.resolve_of_decides ha (hdata _ ha), Argument.reading,
      Argument.filter_value_eq_some_iff.2 hvalue]
    simp only [htype, if_true, hlens]
    exact Resolution.ofScales_zipWith hlens a.id
  | scalesMismatch ha htype hleading =>
    rw [Resolution.resolve_of_decides ha (hdata _ ha), Argument.reading]
    simp only [htype, Bool.false_eq_true, if_false, Argument.leadingLength_eq_some_iff, hleading]
    rfl
  | scalesDeferred ha htype hleading hvalue =>
    rw [Resolution.resolve_of_decides ha (hdata _ ha), Argument.reading,
      Argument.filter_value_eq_none_iff.2 hvalue]
    simp only [htype, Bool.false_eq_true, if_false,
      Argument.leadingLength_eq_some_iff.2 hleading, if_true]
    rfl
  | scales ha htype hleading hvalue =>
    rw [Resolution.resolve_of_decides ha (hdata _ ha), Argument.reading,
      Argument.filter_value_eq_some_iff.2 hvalue]
    simp only [htype, Bool.false_eq_true, if_false,
      Argument.leadingLength_eq_some_iff.2 hleading, if_true]
    rfl

theorem Resolves.resolve_eq (hdata : ∀ a ∈ rest, a.id ≠ data.id)
    (h : Resolves m rest inLens tag outcome) :
    Resolution.resolve m (data :: rest) inLens tag = outcome :=
  h.resolve_eq_of_ne fun a ha => hdata a ha.mem

/-- An argument that decides gives an outcome. -/
theorem Decides.exists_resolves (ha : Decides m rest a) (inLens : List ℕ) :
    ∃ outcome, Resolves m rest inLens tag outcome := by
  by_cases hvalue : ∃ v, a.HasValue v
  · obtain ⟨v, hvalue⟩ := hvalue
    cases htype : a.shape.elementType.isInteger with
    | true =>
      by_cases hlength : v.buffer.length = inLens.length
      · exact ⟨_, .lens ha htype hvalue hlength⟩
      · exact ⟨_, .lensMismatch ha htype hvalue hlength⟩
    | false =>
      by_cases hleading : a.shape.dims.head? = some (.known inLens.length)
      · exact ⟨_, .scales ha htype hleading hvalue⟩
      · exact ⟨_, .scalesMismatch ha htype hleading⟩
  · have hnone : ∀ v, ¬a.HasValue v := not_exists.1 hvalue
    cases htype : a.shape.elementType.isInteger with
    | true => exact ⟨_, .lensDeferred ha htype hnone⟩
    | false =>
      by_cases hleading : a.shape.dims.head? = some (.known inLens.length)
      · exact ⟨_, .scalesDeferred ha htype hleading hnone⟩
      · exact ⟨_, .scalesMismatch ha htype hleading⟩

/-- Some rule always applies. -/
theorem exists_resolves (m : AttributeMap) (rest : List Argument) (inLens : List ℕ) :
    ∃ outcome, Resolves m rest inLens tag outcome := by
  rcases m.scales_cases with ⟨value, hvalue, hkind⟩ | ⟨values, hvalue, hvalues⟩ | hscales
  · exact ⟨_, .attributeNotFloats hvalue hkind⟩
  · exact ⟨_, .attributeScales hvalue hvalues⟩
  · rcases forall_not_isPresent_or_decides hscales rest with hrest | ⟨a, ha⟩
    · exact ⟨_, .missing hscales hrest⟩
    · exact ha.exists_resolves inLens

/-- Resolving looks at the arguments through the one that decides only. -/
theorem Resolution.resolve_congr {args : List Argument}
    (h : decidingArgument? args = decidingArgument? (data :: rest)) :
    resolve m args inLens tag = resolve m (data :: rest) inLens tag := by
  simp only [resolve, h]

/-- A node is resolved by the rules, to exactly one outcome. Arguments that are not present can come
and go anywhere behind the data, and the arguments behind the one that decides can be replaced by
any others. -/
theorem Resolution.resolve_eq_iff_resolves (hdata : ∀ a ∈ rest, a.id ≠ data.id) :
    (∀ outcome, resolve m (data :: rest) inLens tag = outcome ↔
        Resolves m rest inLens tag outcome) ∧
      (∀ before skipped after, rest = before ++ after → (∀ a ∈ skipped, ¬a.IsPresent) →
        resolve m (data :: (before ++ skipped ++ after)) inLens tag =
          resolve m (data :: rest) inLens tag) ∧
      (∀ before a after later, rest = before ++ a :: after → a.IsPresent →
        resolve m (data :: (before ++ a :: later)) inLens tag =
          resolve m (data :: rest) inLens tag) := by
  refine ⟨?_, ?_, ?_⟩
  · intro outcome
    constructor
    · rintro rfl
      obtain ⟨outcome, h⟩ := exists_resolves m rest inLens
      rw [h.resolve_eq hdata]
      exact h
    · exact Resolves.resolve_eq hdata
  · rintro before skipped after rfl hskipped
    exact resolve_congr (decidingArgument?_append_skipped hskipped)
  · rintro before a after later rfl ha
    exact resolve_congr (decidingArgument?_append_later ha (hdata a (by simp)))

/-- A left-out argument in front of explicit output lengths, which resize two samples to three. -/
theorem Resolution.resolves_two_to_three :
    Resolves .empty
      [.placeholder 1, .ofShape 2 (.ofLens .int64 [1]) (some ⟨[1], .int64 [3]⟩)] [2]
      "RESIZE" (.ok (ofGivenLens [2] [3] 2)) := by
  have hdata : ∀ a ∈ [Argument.placeholder 1,
      .ofShape 2 (.ofLens .int64 [1]) (some ⟨[1], .int64 [3]⟩)],
      a.id ≠ (Argument.ofShape 0 (.ofLens .float32 [2]) none).id := by decide
  exact ((@resolve_eq_iff_resolves .empty _ _ [2] "RESIZE" hdata).1 _).1 rfl

end TensorResize
