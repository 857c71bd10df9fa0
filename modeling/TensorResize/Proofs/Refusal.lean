import TensorResize.Proofs.Plan
import TensorResize.Proofs.Tags

/-!
# Which resizes are refused

All checks that planning a resize makes, in the order in which they are made. Planning reports the
fault of the first check that fails and yields a plan if none does; nothing else is refused.

The checks speak about the attributes, the arguments and the resolved output lengths only. Where a
check fails, those behind it may be about values that do not exist; a default stands for these.

## Main definitions

* `Reports` — a computation is refused exactly by the first of some checks.
* `settingsChecks`, `outputChecks`, `cornerChecks` — the checks of attributes, of the output and of
  the corners.
* `planChecks` — all of them.
-/

namespace TensorResize

open RowMajor

/-! ## Checks -/

/-- The fault of a check, if it fails. -/
def failIf (condition : Prop) [Decidable condition] (fault : Fault) : Option Fault :=
  if condition then some fault else none

theorem some_eq_failIf_iff {condition : Prop} [Decidable condition] {fault fault' : Fault} :
    some fault = failIf condition fault' ↔ condition ∧ fault = fault' := by
  rw [failIf]
  split <;> simp [*]

/-- The computation ends in the fault of the first check that fails, under the tag, and has a value
if none does. -/
def Reports {α : Type} (tag : String) (checks : List (Option Fault))
    (x : Except LoweringError α) : Prop :=
  match checks.findSome? id with
  | some fault => x = .error (.inOperator tag fault)
  | none => ∃ a, x = .ok a

/-- The fault that a computation ends in. -/
def faultOf {α : Type} : Except LoweringError α → Option Fault
  | .error (.inOperator _ fault) => some fault
  | _ => none

theorem some_eq_faultOf_iff {α : Type} {tag tag' : String} {x x' : Except LoweringError α}
    {fault : Fault} (h : SameButTag tag tag' x x') :
    some fault = faultOf x ↔ x = .error (.inOperator tag fault) := by
  cases h with
  | ok a => simp [faultOf]
  | error found => simp [faultOf, eq_comm]

namespace Reports

variable {α β : Type} {tag : String} {check : Option Fault} {checks more : List (Option Fault)}
  {x x' : Except LoweringError α} {f : α → Except LoweringError β} {condition : Prop}
  [Decidable condition] {fault : Fault}

theorem ok (a : α) : Reports tag [] (.ok a : Except LoweringError α) := ⟨a, rfl⟩

/-- Checks made one after the other. -/
theorem bind (hx : Reports tag checks x) (hf : ∀ a, x = .ok a → Reports tag more (f a)) :
    Reports tag (checks ++ more) (x >>= f) := by
  rw [Reports] at hx
  rw [Reports, List.findSome?_append]
  cases hfirst : checks.findSome? id with
  | some fault =>
    rw [hfirst] at hx
    rw [Option.some_or, hx]
    rfl
  | none =>
    rw [hfirst] at hx
    obtain ⟨a, rfl⟩ := hx
    exact hf a rfl

theorem bind_cons (hx : Reports tag [check] x) (hf : ∀ a, x = .ok a → Reports tag more (f a)) :
    Reports tag (check :: more) (x >>= f) := bind hx hf

/-- A computation is refused with the fault of the first check that fails, and with no other. -/
theorem eq_error_iff (h : Reports tag checks x) :
    x = .error (.inOperator tag fault) ↔ checks.findSome? id = some fault := by
  rw [Reports] at h
  cases hfirst : checks.findSome? id with
  | some first =>
    rw [hfirst] at h
    rw [h, Except.error.injEq, LoweringError.inOperator.injEq, Option.some.injEq,
      and_iff_right rfl]
  | none =>
    rw [hfirst] at h
    obtain ⟨a, rfl⟩ := h
    exact iff_of_false (by simp) (by simp)

theorem mem_of_eq_error (h : Reports tag checks x) (hx : x = .error (.inOperator tag fault)) :
    some fault ∈ checks := by
  obtain ⟨check, hmem, rfl⟩ := List.exists_of_findSome?_eq_some (h.eq_error_iff.1 hx)
  exact hmem

theorem skip (hcondition : ¬condition) (h : Reports tag checks x) :
    Reports tag (failIf condition fault :: checks) x := by
  rw [failIf, if_neg hcondition]
  exact h

theorem refuse (hcondition : condition) :
    Reports tag (failIf condition fault :: checks)
      (.error (.inOperator tag fault) : Except LoweringError α) := by
  rw [failIf, if_pos hcondition]
  rfl

/-- A computation that ends in faults under its tag only reports its own fault. -/
theorem of_sameButTag {tag' : String} (h : SameButTag tag tag' x x') :
    Reports tag [faultOf x] x := by
  cases h with
  | ok a => exact ⟨a, rfl⟩
  | error fault => rfl

theorem of_failIf (hfail : condition → x = .error (.inOperator tag fault))
    (hpass : ¬condition → ∃ a, x = .ok a) : Reports tag [failIf condition fault] x := by
  by_cases h : condition
  · simpa [Reports, failIf, h] using hfail h
  · simpa [Reports, failIf, h] using hpass h

theorem orError {value : Option α} (h : value = none ↔ condition) :
    Reports tag [failIf condition fault] (orError value (.inOperator tag fault)) := by
  apply of_failIf
  · intro hfail
    rw [h.2 hfail]
    rfl
  · intro hpass
    obtain ⟨a, ha⟩ := Option.ne_none_iff_exists'.1 (mt h.1 hpass)
    exact ⟨a, orError_eq_ok.2 ha⟩

theorem refuseIf {flag : Bool} (h : flag ↔ condition) :
    Reports tag [failIf condition fault] (refuseIf flag (.inOperator tag fault)) := by
  apply of_failIf
  · intro hfail
    rw [h.2 hfail]
    rfl
  · intro hpass
    refine ⟨(), ?_⟩
    rw [refuseIf_eq_ok, ← Bool.not_eq_true]
    exact mt h.1 hpass

theorem checkEntries (what : String) (entries : ℕ) :
    Reports tag [failIf (Word.maxEntries < entries) (.tooManyElements what)]
      (checkEntries what entries tag) := by
  apply of_failIf
  · intro h
    exact if_neg (Nat.not_le.2 h)
  · intro h
    exact ⟨(), checkEntries_eq_ok.2 (Nat.not_lt.1 h)⟩

end Reports

/-! ## Attributes -/

namespace AttributeMap

section Reading

variable {β : Type} (read : AttributeValue → Option β) (m : AttributeMap) (name : String)

/-- The attribute is missing, or of the kind that is read. -/
def Holds : Prop := (m.get? name).all fun value => (read value).isSome

instance : Decidable (m.Holds read name) := inferInstanceAs (Decidable (_ = true))

/-- The value of an attribute of the kind that is read, or a default. -/
def valueOr (default : β) : β := ((m.get? name).bind read).getD default

variable {read m name} {default value : β} {e : LoweringError} {tag : String} {fault : Fault}

/-- Reading an attribute is refused where the attribute is of another kind. -/
theorem reports_readOr :
    Reports tag [failIf (¬m.Holds read name) fault]
      (m.readOr read name default (.inOperator tag fault)) := by
  rw [readOr]
  cases hvalue : m.get? name with
  | none =>
    have hholds : m.Holds read name := by simp [Holds, hvalue]
    exact Reports.of_failIf (fun h => absurd hholds h) fun _ => ⟨default, rfl⟩
  | some value => exact Reports.orError (by simp [Holds, hvalue])

theorem readOr_eq_ok (h : m.readOr read name default e = .ok value) :
    value = m.valueOr read name default := by
  rw [readOr] at h
  rw [valueOr]
  cases hvalue : m.get? name with
  | none =>
    rw [hvalue] at h
    cases h
    rfl
  | some held =>
    simp only [hvalue, orError_eq_ok] at h
    rw [Option.bind_some, h]
    rfl

end Reading

end AttributeMap

namespace Operator

variable (o : Operator) {name : String}

theorem reports_stringOr (default : String) :
    Reports o.tag
      [failIf (¬o.attributes.Holds AttributeValue.string? name) (.attributeType name "a string")]
      (o.stringOr name default) := AttributeMap.reports_readOr

theorem stringOr_eq_ok {default text : String} (h : o.stringOr name default = .ok text) :
    text = o.attributes.valueOr AttributeValue.string? name default := AttributeMap.readOr_eq_ok h

theorem reports_intOr (default : Int64) :
    Reports o.tag
      [failIf (¬o.attributes.Holds AttributeValue.int? name) (.attributeType name "an integer")]
      (o.intOr name default) := AttributeMap.reports_readOr

theorem intOr_eq_ok {default value : Int64} (h : o.intOr name default = .ok value) :
    value = o.attributes.valueOr AttributeValue.int? name default := AttributeMap.readOr_eq_ok h

end Operator

/-- A value is found by its name if the name is in the list of names. -/
theorem find?_name_eq_none {γ : Type} {all : List γ} {name : γ → String} {text : String} :
    all.find? (name · == text) = none ↔ text ∉ all.map name := by
  rw [List.find?_eq_none, List.mem_map]
  simp

/-- The checks of the attributes. -/
def settingsChecks (m : AttributeMap) : List (Option Fault) :=
  let coordinateMode :=
    m.valueOr AttributeValue.string? "coordinate_transformation_mode" "half_pixel"
  let mode := m.valueOr AttributeValue.string? "mode" "nearest"
  let nearestMode := m.valueOr AttributeValue.string? "nearest_mode" "round_prefer_floor"
  [failIf (¬m.Holds AttributeValue.string? "coordinate_transformation_mode")
    (.attributeType "coordinate_transformation_mode" "a string"),
   failIf (coordinateMode = "tf_crop_and_resize") .croppingMode,
   failIf (coordinateMode ∉ ["half_pixel", "pytorch_half_pixel", "align_corners", "asymmetric",
    "tf_half_pixel_for_nn"]) (.unknownCoordinateMode coordinateMode),
   failIf (¬m.Holds AttributeValue.int? "exclude_outside")
    (.attributeType "exclude_outside" "an integer"),
   failIf (m.valueOr AttributeValue.int? "exclude_outside" 0 = 1) .excludeOutside,
   failIf (¬m.Holds AttributeValue.string? "mode") (.attributeType "mode" "a string"),
   failIf (mode ∉ ["nearest", "linear"]) (.unsupportedInterpolation mode),
   failIf (¬m.Holds AttributeValue.string? "nearest_mode")
    (.attributeType "nearest_mode" "a string"),
   failIf (nearestMode ∉ ["round_prefer_floor", "round_prefer_ceil", "floor", "ceil"])
    (.unknownNearestMode nearestMode)]

theorem reports_resolve_settings (o : Operator) :
    Reports o.tag (settingsChecks o.attributes) (ResizeSettings.resolve o) := by
  refine .bind_cons (o.reports_stringOr _) fun coordinateMode h => ?_
  obtain rfl := o.stringOr_eq_ok h
  refine .bind_cons (.refuseIf beq_iff_eq) fun _ _ => ?_
  refine .bind_cons (.orError find?_name_eq_none) fun transform _ => ?_
  refine .bind_cons (o.reports_intOr _) fun excludeOutside h => ?_
  obtain rfl := o.intOr_eq_ok h
  refine .bind_cons (.refuseIf beq_iff_eq) fun _ _ => ?_
  refine .bind_cons (o.reports_stringOr _) fun mode h => ?_
  obtain rfl := o.stringOr_eq_ok h
  refine .bind_cons (.orError find?_name_eq_none) fun interpolation _ => ?_
  refine .bind_cons (o.reports_stringOr _) fun nearestMode h => ?_
  obtain rfl := o.stringOr_eq_ok h
  refine .bind_cons (.orError find?_name_eq_none) fun nearestMode _ => ?_
  exact .ok _

/-! ## Output and corners -/

/-- The checks of the output lengths: no partial product from the left may leave the word, and the
elements must fit an allocation. -/
def outputChecks (outLens : List ℕ) : List (Option Fault) :=
  [failIf ((∃ k ≤ outLens.length, 2 ^ 64 ≤ count (outLens.take k)) ∨ 2 ^ 60 - 1 < count outLens)
    (.tooManyElements "output")]

theorem reports_checkOutput (outLens : List ℕ) (tag : String) :
    Reports tag (outputChecks outLens) (ResizePlan.checkOutput outLens tag) := by
  apply Reports.of_failIf
  · intro h
    rw [ResizePlan.checkOutput]
    cases hproduct : Word.product? outLens with
    | none => rfl
    | some n =>
      obtain ⟨hpartial, rfl⟩ := product?_eq_some.1 hproduct
      rcases h with ⟨k, hk, hle⟩ | hmany
      · exact absurd (hpartial k hk) (Nat.not_lt.2 hle)
      · exact if_neg (Nat.not_le.2 hmany)
  · intro h
    simp only [not_or, not_exists, not_and, Nat.not_le, Nat.not_lt] at h
    exact ⟨(), ResizePlan.checkOutput_eq_ok.2 h⟩

/-- The checks of the corners: a corner number must have a bit for every axis, and the table of all
corners and the leading length of their stack must fit an allocation. -/
def cornerChecks (outLens : List ℕ) : List (Option Fault) :=
  [failIf (64 ≤ outLens.length) (.dimensionOverflow outLens.length 64),
   failIf (2 ^ 60 - 1 < 2 ^ outLens.length * count outLens) (.tooManyElements "neighbor table"),
   failIf (2 ^ 60 - 1 < outLens.headD 0 * 2 ^ outLens.length) (.tooManyElements "stacked output")]

theorem reports_offsets (table : CornerTable) (inLens : List ℕ) (tag : String) :
    Reports tag [failIf (64 ≤ table.rank) (.dimensionOverflow table.rank 64),
      failIf (2 ^ 60 - 1 < 2 ^ table.rank * table.elements) (.tooManyElements "neighbor table")]
      (table.offsets inLens tag) := by
  rw [CornerTable.offsets, Nat.one_shiftLeft]
  by_cases hrank : table.rank < CornerTable.maxRank
  · rw [if_pos hrank]
    refine .skip (Nat.not_le.2 hrank) (.bind_cons (.checkEntries _ _) fun _ _ => .ok _)
  · rw [if_neg hrank]
    exact .refuse (Nat.not_lt.1 hrank)

theorem reports_checkedStack (factor : ℕ) (outLens : List ℕ) (tag : String) :
    Reports tag [failIf (2 ^ 60 - 1 < outLens.headD 0 * factor) (.tooManyElements "stacked output")]
      (checkedStack factor outLens tag) := by
  rw [← headD_stackLens]
  exact .bind_cons (.checkEntries _ _) fun _ _ => .ok _

theorem reports_forLinear {data : NodeId} {settings : ResizeSettings} {axes : List Axis}
    {tag : String} (hout : count (axes.map Axis.outLen) < Word.modulus) :
    Reports tag (cornerChecks (axes.map Axis.outLen))
      (ResizePlan.forLinear data settings axes tag) := by
  rw [ResizePlan.forLinear_eq, cornerChecks, List.length_map, ← elements_eq_count hout]
  have htable :=
    reports_offsets (CornerTable.build settings.transform axes) (axes.map Axis.inLen) tag
  rw [CornerTable.rank_build, CornerTable.elements_build] at htable
  exact .bind htable fun offsets _ => .bind_cons (reports_checkedStack _ _ _) fun lens _ => .ok _

/-! ## Plans -/

/-- The attributes ask for linear mode. -/
def AttributeMap.IsLinear (m : AttributeMap) : Prop :=
  m.valueOr AttributeValue.string? "mode" "nearest" = "linear"

instance (m : AttributeMap) : Decidable m.IsLinear := inferInstanceAs (Decidable (_ = _))

theorem isLinear_iff {o : Operator} {settings : ResizeSettings}
    (h : ResizeSettings.resolve o = .ok settings) :
    o.attributes.IsLinear ↔ settings.interpolation = .linear := by
  simp only [ResizeSettings.resolve, bind_eq_ok, pure_eq_ok, orError_eq_ok] at h
  obtain ⟨_, _, _, _, _, _, _, _, _, _, mode, hmode, interpolation, hname, _, _, _, _, rfl⟩ := h
  have hinterpolation : interpolation.name = mode := by simpa using List.find?_some hname
  rw [AttributeMap.IsLinear, ← o.stringOr_eq_ok hmode, ← hinterpolation]
  cases interpolation with
  | nearest => exact iff_of_false (by decide) (by simp)
  | linear => exact iff_of_true rfl rfl

/-- Some length of the data is not known. -/
def isDynamicData (args : List Argument) : Bool := args.head?.any fun a => a.shape.isDynamic

/-- The resolution over the lengths of the data, where one stands for a length that is not known. -/
def dataResolution (o : Operator) (args : List Argument) : Except LoweringError Resolution :=
  Resolution.resolve o.attributes args (args.head?.elim [] fun a => a.shape.lensOr 1) o.tag

theorem dataResolution_sameButTag (o : Operator) (args : List Argument) :
    SameButTag o.tag o.tag (dataResolution o args) (dataResolution o args) :=
  Resolution.resolve_sameButTag ..

/-- The output lengths of a resolution, if they are known. -/
def Resolution.outLens? : Except LoweringError Resolution → Option (List ℕ)
  | .ok (.constant _ outLens _) => some outLens
  | _ => none

/-- The checks of an output that is computed element by element. -/
def precomputedChecks (linear : Prop) [Decidable linear] (outLens : List ℕ) : List (Option Fault) :=
  outputChecks outLens ++ if linear then cornerChecks outLens else []

/-- All checks of a plan. The checks of the output are made for a linear resize, and for a nearest
one whose lengths are known if precomputed positions are preferred. -/
def planChecks (o : Operator) (args : List Argument) (lowering : LoweringSettings) :
    List (Option Fault) :=
  let m := o.attributes
  let outLens? := Resolution.outLens? (dataResolution o args)
  settingsChecks m ++
    [failIf (args = []) .missingInput,
     faultOf (dataResolution o args),
     failIf (m.IsLinear ∧ (isDynamicData args ∨ outLens? = none)) .dynamicLinear] ++
    if m.IsLinear ∨ (isDynamicData args = false ∧ outLens? ≠ none ∧ lowering.preferGather) then
      precomputedChecks m.IsLinear (outLens?.getD [])
    else []

theorem reports_planResize (o : Operator) (args : List Argument) (lowering : LoweringSettings) :
    Reports o.tag (planChecks o args lowering) (planResize o args lowering) := by
  rw [planChecks, List.append_assoc]
  refine .bind (reports_resolve_settings o) fun settings hsettings => ?_
  refine .bind_cons (.orError List.head?_eq_none_iff) fun a ha => ?_
  have hdata := orError_eq_ok.1 ha
  have hresolution :
      Resolution.resolve o.attributes args (a.shape.lensOr 1) o.tag = dataResolution o args := by
    rw [dataResolution, hdata]
    rfl
  have hreports : Reports o.tag [faultOf (dataResolution o args)]
      (Resolution.resolve o.attributes args (a.shape.lensOr 1) o.tag) := by
    rw [hresolution]
    exact .of_sameButTag (dataResolution_sameButTag o args)
  refine .bind_cons hreports fun r hr => ?_
  rw [hresolution] at hr
  have hdynamic : isDynamicData args = a.shape.isDynamic := by rw [isDynamicData, hdata]; rfl
  rw [hr, hdynamic]
  simp only [isLinear_iff hsettings]
  cases settings.interpolation with
  | nearest =>
    refine .skip (fun h => by cases h.1) ?_
    cases r with
    | deferred id =>
      rw [if_neg (by simp [Resolution.outLens?])]
      exact .ok _
    | constant scales outLens source =>
      cases a.shape.isDynamic with
      | true =>
        rw [if_neg (by simp)]
        exact .ok _
      | false =>
        cases lowering.preferGather with
        | true =>
          -- the only branch of nearest mode that computes positions now
          rw [if_pos (.inr ⟨rfl, nofun, rfl⟩), precomputedChecks, if_neg nofun]
          change Reports o.tag (outputChecks outLens ++ [])
            (ResizePlan.checkOutput outLens o.tag >>= fun _ => _)
          exact .bind (reports_checkOutput outLens o.tag) fun _ _ => .ok _
        | false =>
          rw [if_neg (by simp)]
          exact .ok _
  | linear =>
    cases r with
    | deferred id => exact .refuse ⟨rfl, .inr rfl⟩
    | constant scales outLens source =>
      cases a.shape.isDynamic with
      | true => exact .refuse ⟨rfl, .inl rfl⟩
      | false =>
        refine .skip (by simp [Resolution.outLens?]) ?_
        rw [if_pos (.inl rfl), precomputedChecks, if_pos rfl]
        -- the output is checked before the corners, whose number of elements is then exact
        change Reports o.tag (outputChecks outLens ++ cornerChecks outLens)
          (ResizePlan.checkOutput outLens o.tag >>= fun _ => _)
        refine .bind (reports_checkOutput outLens o.tag) fun _ hout => ?_
        have hmap := Axis.map_outLen_ofLists (a.shape.lensOr 1) outLens scales
        have hcount : count outLens < Word.modulus :=
          (ResizePlan.checkOutput_eq_ok.1 hout).2.trans_lt (by decide)
        rw [← hmap] at hcount
        have hlinear := @reports_forLinear a.id settings _ o.tag hcount
        rw [hmap] at hlinear
        exact hlinear

/-- Planning a resize reports the fault of the first check that fails, under the tag of the
operator, and yields a plan if none does. -/
theorem planResize_firstFault (o : Operator) (args : List Argument) (lowering : LoweringSettings) :
    match (planChecks o args lowering).findSome? id with
    | some fault => planResize o args lowering = .error (.inOperator o.tag fault)
    | none => ∃ plan, planResize o args lowering = .ok plan :=
  reports_planResize o args lowering

-- three faults at once, of which the attribute of the wrong kind is checked first
example : (planChecks ⟨"Resize", .ofList [("nearest_mode", .string "up"), ("mode", .int 1)]⟩ []
    .standard).findSome? id = some (.attributeType "mode" "a string") := by decide +kernel

end TensorResize
