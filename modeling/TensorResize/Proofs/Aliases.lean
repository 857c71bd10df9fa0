import TensorResize.Proofs.Operands
import TensorResize.Proofs.ResolutionRules

/-!
# Arguments that are the data again

The scan for the argument that decides passes over every argument that is the data node, not only
over the first of the list. Behind the data it goes by position and by nothing else, as long as the
first argument that is present is another node. If this one is the data again, the scan goes on
behind it, and what it ends with is never what the position gives.

So it is with node ids. Other ids give the same outcome with another id in it, unless the argument
that decides gets the id of the data.

## Main definitions

* `otherNodes` — the arguments that the scan looks at.
* `DataDecides` — by position the data itself decides.
* `Argument.rename`, `Resolution.rename` — the same under other node ids.
-/

namespace TensorResize

variable {m : AttributeMap} {data a b : Argument} {args rest : List Argument} {inLens lens : List ℕ}
  {scales : List Binary64} {source : Option NodeId} {tag : String}
  {outcome : Except LoweringError Resolution} {r : Resolution} {f : NodeId → NodeId}

/-- The arguments that are other nodes than the data. -/
def otherNodes (data : Argument) (rest : List Argument) : List Argument :=
  rest.filter fun a => a.id ≠ data.id

/-- By position the argument that decides is the data node again. -/
def DataDecides (m : AttributeMap) (data : Argument) (rest : List Argument) : Prop :=
  ∃ a, Decides m rest a ∧ a.id = data.id

/-! ## The scan -/

theorem mem_otherNodes : a ∈ otherNodes data rest ↔ a ∈ rest ∧ a.id ≠ data.id := by
  simp [otherNodes]

theorem Decides.ne_data (ha : Decides m (otherNodes data rest) a) : a.id ≠ data.id :=
  (mem_otherNodes.1 ha.mem).2

theorem decidingArgument?_otherNodes (data : Argument) (rest : List Argument) :
    decidingArgument? (data :: otherNodes data rest) = decidingArgument? (data :: rest) := by
  rw [decidingArgument?_eq_find?, decidingArgument?_eq_find?, otherNodes, List.find?_filter]
  congr 1
  funext a
  rw [Bool.eq_iff_iff, decide_eq_true_iff, decide_eq_true_iff, Argument.isEligible_eq_true_iff]
  exact and_iff_right_of_imp And.left

/-- The argument that the scan takes is present and another node than the data. -/
theorem isPresent_of_decidingArgument? (h : decidingArgument? (data :: rest) = some a) :
    a.id ≠ data.id ∧ a.IsPresent := by
  rw [decidingArgument?_eq_find?] at h
  have heligible : a.isEligible (some data.id) = true := by simpa using List.find?_some h
  exact (Argument.isEligible_eq_true_iff _).1 heligible

theorem decides_of_decidingArgument? (hscales : m.LacksScales)
    (h : decidingArgument? (data :: rest) = some a) : Decides m (otherNodes data rest) a := by
  have hpresent := (isPresent_of_decidingArgument? h).2
  rw [← decidingArgument?_otherNodes, decidingArgument?_eq_find?,
    List.find?_eq_some_iff_append] at h
  obtain ⟨-, before, after, hothers, hbefore⟩ := h
  refine ⟨hscales, ⟨before, after, hothers, ?_⟩, hpresent⟩
  intro b hb hbpresent
  have hother : b ∈ otherNodes data rest := hothers ▸ List.mem_append_left _ hb
  have heligible := (Argument.isEligible_eq_true_iff _).2 ⟨(mem_otherNodes.1 hother).2, hbpresent⟩
  simpa [heligible] using hbefore b hb

/-- Only one argument decides. -/
theorem Decides.unique (ha : Decides m rest a) (hb : Decides m rest b) : a = b := by
  classical
  have hfind {c : Argument} (hc : Decides m rest c) :
      rest.find? (fun c => decide c.IsPresent) = some c := by
    obtain ⟨before, after, hrest, hbefore⟩ := hc.first
    rw [List.find?_eq_some_iff_append]
    refine ⟨decide_eq_true hc.present, before, after, hrest, ?_⟩
    intro d hd
    simpa using hbefore d hd
  exact Option.some.inj ((hfind ha).symm.trans (hfind hb))

/-- Where the data does not decide again, the rules go by position. -/
theorem Resolution.resolve_eq_iff_of_not_dataDecides (h : ¬DataDecides m data rest) :
    resolve m (data :: rest) inLens tag = outcome ↔ Resolves m rest inLens tag outcome := by
  have hdata : ∀ a, Decides m rest a → a.id ≠ data.id := fun a ha hid => h ⟨a, ha, hid⟩
  constructor
  · rintro rfl
    obtain ⟨outcome, hrule⟩ := exists_resolves m rest inLens
    rw [hrule.resolve_eq_of_ne hdata]
    exact hrule
  · exact Resolves.resolve_eq_of_ne hdata

theorem not_dataDecides_otherNodes : ¬DataDecides m data (otherNodes data rest) := by
  rintro ⟨a, ha, hid⟩
  exact ha.ne_data hid

/-- A node is resolved by the rules for the arguments that are other nodes than the data. -/
theorem Resolution.resolve_eq_iff_otherNodes :
    resolve m (data :: rest) inLens tag = outcome ↔
      Resolves m (otherNodes data rest) inLens tag outcome := by
  rw [← resolve_eq_iff_of_not_dataDecides not_dataDecides_otherNodes,
    resolve_congr (decidingArgument?_otherNodes data rest)]

/-! ## What a success is read from -/

/-- No scales or lengths are read from the data. -/
theorem Resolution.source?_ne_data (h : resolve m (data :: rest) inLens tag = .ok r) :
    r.source? ≠ some data.id := by
  obtain ⟨_, -, ⟨-, hnone⟩ | ⟨-, a, ha, hsome⟩⟩ := source?_of_resolve h
  · simp [hnone]
  · rw [hsome]
    exact fun hid => (isPresent_of_decidingArgument? ha).1 (Option.some.inj hid)

/-- By the rules, scales and lengths are read from the argument that decides. -/
theorem Resolves.source?_eq (h : Resolves m rest inLens tag (.ok r)) (ha : Decides m rest a) :
    r.source? = some a.id := by
  have hgiven {values : List Binary64} {source : Option NodeId}
      (hvalues : Resolution.ofGivenScales inLens values source tag = .ok r) :
      r.source? = source := by
    rw [← Resolution.ofScales_nil] at hvalues
    exact Resolution.source?_of_ofScales hvalues
  generalize houtcome : (Except.ok r : Except LoweringError Resolution) = outcome at h
  cases h with
  | attributeNotFloats | missing | lensMismatch => cases houtcome
  | attributeScales hvalue hvalues =>
    rcases ha.lacksScales with hnone | hempty
    · cases hnone.symm.trans hvalue
    · cases hempty.symm.trans hvalue
      exact absurd rfl hvalues
  | lensDeferred hb | lens hb | scalesDeferred hb =>
    cases houtcome
    rw [ha.unique hb]
    rfl
  | scalesMismatch hb | scales hb =>
    rw [ha.unique hb]
    exact hgiven houtcome.symm

/-! ## Other node ids -/

/-- The argument under another node id. -/
def Argument.rename (f : NodeId → NodeId) (a : Argument) : Argument := { a with id := f a.id }

/-- The resolution with another node id in it. -/
def Resolution.rename (f : NodeId → NodeId) : Resolution → Resolution
  | constant scales outLens source => constant scales outLens (source.map f)
  | deferred id => deferred (f id)

theorem Resolution.source?_rename : (r.rename f).source? = r.source?.map f := by
  cases r with
  | constant scales outLens source => rfl
  | deferred id => rfl

theorem Argument.isEligible_rename {id : NodeId}
    (h : (a.rename f).isEligible (some (f id)) = true) : a.isEligible (some id) = true := by
  rw [isEligible_eq_true_iff] at h ⊢
  exact ⟨fun hid => h.1 (congrArg f hid), h.2⟩

/-- A scan for less ends on the same element if this is still searched for. -/
theorem find?_eq_of_imp {α : Type} {p q : α → Bool} {l : List α} (himp : ∀ x, p x → q x)
    (hfirst : ∀ x, l.find? q = some x → p x) : l.find? p = l.find? q := by
  cases hq : l.find? q with
  | none =>
    rw [List.find?_eq_none] at hq ⊢
    exact fun x hx hp => hq x hx (himp x hp)
  | some x =>
    obtain ⟨-, before, after, rfl, hbefore⟩ := List.find?_eq_some_iff_append.1 hq
    refine List.find?_eq_some_iff_append.2 ⟨hfirst x hq, before, after, rfl, ?_⟩
    intro y hy
    have hqy := hbefore y hy
    cases hpy : p y with
    | false => rfl
    | true => rw [himp y hpy] at hqy; exact hqy

/-- The scan takes the same argument under other node ids, if this one is not given the id of the
data. -/
theorem decidingArgument?_rename
    (h : ∀ a, decidingArgument? (data :: rest) = some a → f a.id ≠ f data.id) :
    decidingArgument? ((data :: rest).map (Argument.rename f)) =
      (decidingArgument? (data :: rest)).map (Argument.rename f) := by
  rw [List.map_cons, decidingArgument?_eq_find?, decidingArgument?_eq_find?, List.find?_map]
  congr 1
  apply find?_eq_of_imp
  · intro b hb
    exact Argument.isEligible_rename hb
  · intro b hb
    rw [← decidingArgument?_eq_find?] at hb
    exact (Argument.isEligible_eq_true_iff _).2 ⟨h b hb, (isPresent_of_decidingArgument? hb).2⟩

namespace Resolution

theorem ofScales_rename (f : NodeId → NodeId) :
    ofScales inLens scales lens (source.map f) tag =
      (ofScales inLens scales lens source tag).map (rename f) := by
  rw [ofScales, ofScales]
  split
  · rfl
  · rfl

/-- Apart from the choice of the argument that decides, node ids do not matter. -/
theorem resolve_rename
    (h : m.LacksScales → decidingArgument? (args.map (Argument.rename f)) =
      (decidingArgument? args).map (Argument.rename f)) :
    resolve m (args.map (Argument.rename f)) inLens tag =
      (resolve m args inLens tag).map (rename f) := by
  rw [resolve, resolve]
  cases hscales : m.scales tag with
  | error e => rfl
  | ok values =>
    cases values with
    | cons value values => exact @ofScales_rename inLens [] (value :: values) none tag f
    | nil =>
      rw [h (AttributeMap.lacksScales_of_scales hscales)]
      cases decidingArgument? args with
      | none => rfl
      | some a =>
        have hreading : (a.rename f).reading inLens.length tag = a.reading inLens.length tag := rfl
        simp only [Option.map_some, orError, bind, Except.bind, List.isEmpty_nil, if_true, hreading]
        cases a.reading inLens.length tag with
        | error e => rfl
        | ok reading =>
          cases reading with
          | deferred => rfl
          | lengths lens => exact @ofScales_rename inLens lens _ (some a.id) tag f
          | scales values => exact @ofScales_rename inLens [] values (some a.id) tag f

/-- The argument that decides is scanned for by position, among the arguments that are other nodes
than the data. That is the rule by position alone unless this finds the data again; then no success
is the one that the rule gives.

Other node ids lead to the same outcome with another id in it, unless they give the argument that
decides the id of the data; then a success has become another one or none. -/
theorem resolve_scansOtherNodes (m : AttributeMap) (data : Argument) (rest : List Argument)
    (inLens : List ℕ) (tag : String) :
    (∀ outcome, resolve m (data :: rest) inLens tag = outcome ↔
      Resolves m (otherNodes data rest) inLens tag outcome) ∧
    (¬DataDecides m data rest → ∀ outcome, resolve m (data :: rest) inLens tag = outcome ↔
      Resolves m rest inLens tag outcome) ∧
    (DataDecides m data rest → ∀ r, resolve m (data :: rest) inLens tag = .ok r →
      ¬Resolves m rest inLens tag (.ok r)) ∧
    ∀ f : NodeId → NodeId, let args := data :: rest
      let renamed := args.map (Argument.rename f)
      ((∀ a, Decides m (otherNodes data rest) a → f a.id ≠ f data.id) →
        resolve m renamed inLens tag = (resolve m args inLens tag).map (rename f)) ∧
      ∀ a, Decides m (otherNodes data rest) a → f a.id = f data.id → ∀ r,
        resolve m args inLens tag = .ok r → resolve m renamed inLens tag ≠ .ok (r.rename f) := by
  refine ⟨fun _ => resolve_eq_iff_otherNodes,
    fun h _ => resolve_eq_iff_of_not_dataDecides h, ?_, ?_⟩
  · rintro ⟨a, ha, hid⟩ r hr hrule
    apply source?_ne_data hr
    rw [hrule.source?_eq ha, hid]
  · intro f
    refine ⟨?_, ?_⟩
    · intro hkeeps
      apply resolve_rename
      intro hscales
      apply decidingArgument?_rename
      intro a ha
      exact hkeeps a (decides_of_decidingArgument? hscales ha)
    · intro a ha hid r hr hrenamed
      apply source?_ne_data hrenamed
      rw [source?_rename, (resolve_eq_iff_otherNodes.1 hr).source?_eq ha]
      exact congrArg some hid

/-- A tensor that holds the length it is to be resized to is data and lengths at once. By position
it would get three samples; the scan finds no lengths. It finds them in a copy of the tensor, until
both are given one node id. -/
theorem resolve_not_positional_of_alias :
    let x := Argument.ofShape 0 (.ofLens .int64 [1]) (some ⟨[1], .int64 [3]⟩)
    let copy := x.rename fun _ => 1
    Resolves .empty [x] [1] "RESIZE" (.ok (ofGivenLens [1] [3] 0)) ∧
      resolve .empty [x, x] [1] "RESIZE" = .error (.inOperator "RESIZE" .missingScaleOrSize) ∧
      resolve .empty [x, copy] [1] "RESIZE" = .ok (ofGivenLens [1] [3] 1) ∧
      resolve .empty ([x, copy].map (Argument.rename fun _ => 0)) [1] "RESIZE" =
        .error (.inOperator "RESIZE" .missingScaleOrSize) := by
  intro x copy
  have hpresent : x.IsPresent := ⟨rfl, List.cons_ne_nil _ _⟩
  have hdecides : Decides .empty [x] x := ⟨.inl rfl, ⟨[], [], rfl, nofun⟩, hpresent⟩
  exact ⟨.lens hdecides rfl ⟨rfl, Nat.one_ne_zero⟩ rfl, rfl, rfl, rfl⟩

end Resolution

end TensorResize
