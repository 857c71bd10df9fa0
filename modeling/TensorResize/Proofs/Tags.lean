import TensorResize.Proofs.Sequencing
import TensorResize.Resize.Plan

/-!
# Tags in errors

Every function that can refuse a node is given the tag of its operator, and hands it on to the
functions that it calls. Two runs of such a function that differ in the tag only yield the same
value, or end in the same fault, and the error of each run carries the tag that this run was given.
This is shown from the single checks up to the plan of a node: a sequence of computations keeps it
if each of them does.

## Main definitions

* `SameButTag` — the same answer under two tags.
* `AttributeMap.readOr` — what reading a string and reading an integer have in common.

## Main results

* `planResize_sameButTag` — the plans of a node for operators of two types.
-/

namespace TensorResize

variable {tag tag' : String} {α β : Type}

/-- The same value under the tags `tag` and `tag'`, or the same fault, each time under its tag. -/
inductive SameButTag (tag tag' : String) {α : Type} :
    Except LoweringError α → Except LoweringError α → Prop where
  | ok (a : α) : SameButTag tag tag' (.ok a) (.ok a)
  | error (fault : Fault) :
      SameButTag tag tag' (.error (.inOperator tag fault)) (.error (.inOperator tag' fault))

/-! ## Checks in sequence -/

namespace SameButTag

variable {x x' : Except LoweringError α} {f f' : α → Except LoweringError β}

/-- Computations made one after the other. -/
theorem bind (hx : SameButTag tag tag' x x') (hf : ∀ a, SameButTag tag tag' (f a) (f' a)) :
    SameButTag tag tag' (x >>= f) (x' >>= f') := by
  cases hx with
  | ok a => exact hf a
  | error fault => exact .error fault

theorem map (hx : SameButTag tag tag' x x') (g : α → β) :
    SameButTag tag tag' (x.map g) (x'.map g) := by
  cases hx with
  | ok a => exact .ok (g a)
  | error fault => exact .error fault

theorem mapM (l : List α) (hf : ∀ a, SameButTag tag tag' (f a) (f' a)) :
    SameButTag tag tag' (l.mapM f) (l.mapM f') := by
  induction l with
  | nil => exact .ok []
  | cons a l ih =>
    rw [List.mapM_cons, List.mapM_cons]
    exact (hf a).bind fun b => ih.bind fun bs => .ok (b :: bs)

/-- An error carries the tag that was given. -/
theorem exists_fault {e : LoweringError} (hx : SameButTag tag tag' x x') (he : x = .error e) :
    ∃ fault, e = .inOperator tag fault := by
  cases hx with
  | ok a => cases he
  | error fault =>
    cases he
    exact ⟨fault, rfl⟩

theorem orError (value : Option α) (fault : Fault) :
    SameButTag tag tag' (orError value (.inOperator tag fault))
      (orError value (.inOperator tag' fault)) := by
  cases value with
  | none => exact .error fault
  | some a => exact .ok a

theorem refuseIf (condition : Bool) (fault : Fault) :
    SameButTag tag tag' (refuseIf condition (.inOperator tag fault))
      (refuseIf condition (.inOperator tag' fault)) := by
  cases condition with
  | false => exact .ok ()
  | true => exact .error fault

theorem checkEntries (what : String) (entries : Nat) :
    SameButTag tag tag' (checkEntries what entries tag) (checkEntries what entries tag') := by
  rw [TensorResize.checkEntries, TensorResize.checkEntries]
  split
  · exact .ok ()
  · exact .error _

end SameButTag

variable (tag tag')

/-! ## Settings -/

/-- The way in which strings and integers are read, with the error for a value of another kind. -/
def AttributeMap.readOr {β : Type} (read : AttributeValue → Option β) (m : AttributeMap)
    (name : String) (default : β) (e : LoweringError) : Except LoweringError β :=
  match m.get? name with
  | none => .ok default
  | some value => orError (read value) e

theorem AttributeMap.readOr_sameButTag (read : AttributeValue → Option β) (m : AttributeMap)
    (name : String) (default : β) (fault : Fault) :
    SameButTag tag tag' (m.readOr read name default (.inOperator tag fault))
      (m.readOr read name default (.inOperator tag' fault)) := by
  rw [readOr, readOr]
  cases m.get? name with
  | none => exact .ok default
  | some value => exact .orError _ _

section Settings

variable (a b : String) (m : AttributeMap) (name : String)

theorem Operator.stringOr_sameButTag (default : String) :
    SameButTag (uppercase a) (uppercase b) (stringOr ⟨a, m⟩ name default)
      (stringOr ⟨b, m⟩ name default) :=
  m.readOr_sameButTag _ _ AttributeValue.string? name default _

theorem Operator.intOr_sameButTag (default : Int64) :
    SameButTag (uppercase a) (uppercase b) (intOr ⟨a, m⟩ name default)
      (intOr ⟨b, m⟩ name default) :=
  m.readOr_sameButTag _ _ AttributeValue.int? name default _

theorem ResizeSettings.resolve_sameButTag :
    SameButTag (uppercase a) (uppercase b) (resolve ⟨a, m⟩) (resolve ⟨b, m⟩) := by
  refine (Operator.stringOr_sameButTag a b m _ _).bind fun coordinateMode => ?_
  refine (SameButTag.refuseIf _ _).bind fun _ => ?_
  refine (SameButTag.orError _ _).bind fun transform => ?_
  refine (Operator.intOr_sameButTag a b m _ _).bind fun excludeOutside => ?_
  refine (SameButTag.refuseIf _ _).bind fun _ => ?_
  refine (Operator.stringOr_sameButTag a b m _ _).bind fun mode => ?_
  refine (SameButTag.orError _ _).bind fun interpolation => ?_
  refine (Operator.stringOr_sameButTag a b m _ _).bind fun nearestName => ?_
  refine (SameButTag.orError _ _).bind fun nearestMode => ?_
  exact .ok _

end Settings

/-! ## Scales and output lengths -/

theorem AttributeMap.scales_sameButTag (m : AttributeMap) :
    SameButTag tag tag' (m.scales tag) (m.scales tag') := by
  rw [scales, scales]
  cases m.get? "scales" with
  | none => exact .ok []
  | some value => exact (SameButTag.orError _ _).bind fun scales => .ok _

theorem Argument.reading_sameButTag (a : Argument) (rank : Nat) :
    SameButTag tag tag' (a.reading rank tag) (a.reading rank tag') := by
  simp only [reading]
  split
  · cases a.value.filter (!·.isEmpty) with
    | none => exact .ok Reading.deferred
    | some sizes =>
      dsimp only
      split
      · exact .ok _
      · exact .error _
  · split
    · cases a.value.filter (!·.isEmpty) with
      | none => exact .ok Reading.deferred
      | some scales => exact .ok _
    · exact .ok _

namespace Resolution

theorem ofScales_sameButTag (inLens : List Nat) (scales : List Binary64) (outLens : List Nat)
    (source : Option NodeId) :
    SameButTag tag tag' (ofScales inLens scales outLens source tag)
      (ofScales inLens scales outLens source tag') := by
  rw [ofScales, ofScales]
  split
  · exact .ok _
  · exact .error _

theorem resolve_sameButTag (m : AttributeMap) (args : List Argument) (inLens : List Nat) :
    SameButTag tag tag' (resolve m args inLens tag) (resolve m args inLens tag') := by
  refine (m.scales_sameButTag tag tag').bind fun scales => ?_
  split
  · refine (SameButTag.orError _ _).bind fun a => ?_
    refine (a.reading_sameButTag tag tag' inLens.length).bind fun reading => ?_
    cases reading with
    | deferred => exact .ok _
    | lengths outLens => exact ofScales_sameButTag tag tag' ..
    | scales values => exact ofScales_sameButTag tag tag' ..
  · exact ofScales_sameButTag tag tag' ..

end Resolution

/-! ## Plans -/

theorem CornerTable.offsets_sameButTag (table : CornerTable) (inLens : List Nat) :
    SameButTag tag tag' (table.offsets inLens tag) (table.offsets inLens tag') := by
  rw [offsets, offsets]
  split
  · exact (SameButTag.checkEntries _ _).bind fun _ => .ok _
  · exact .error _

theorem checkedStack_sameButTag (factor : Nat) (outLens : List Nat) :
    SameButTag tag tag' (checkedStack factor outLens tag) (checkedStack factor outLens tag') :=
  (SameButTag.checkEntries _ _).bind fun _ => .ok _

theorem blendStep_sameButTag (outLens : List Nat) (corners : AxisCorners) (d : Nat) :
    SameButTag tag tag' (blendStep outLens corners d tag) (blendStep outLens corners d tag') :=
  (checkedStack_sameButTag tag tag' _ _).bind fun _ => .ok _

namespace ResizePlan

theorem checkOutput_sameButTag (outLens : List Nat) :
    SameButTag tag tag' (checkOutput outLens tag) (checkOutput outLens tag') := by
  rw [checkOutput, checkOutput]
  cases Word.product? outLens with
  | none => exact .error _
  | some elements => exact .checkEntries _ _

theorem forLinear_sameButTag (data : NodeId) (settings : ResizeSettings) (axes : List Axis) :
    SameButTag tag tag' (forLinear data settings axes tag) (forLinear data settings axes tag') := by
  refine (CornerTable.offsets_sameButTag tag tag' _ _).bind fun offsets => ?_
  refine (checkedStack_sameButTag tag tag' _ _).bind fun lens => ?_
  refine (SameButTag.mapM _ fun step => ?_).bind fun blend => .ok _
  exact blendStep_sameButTag tag tag' _ _ _

end ResizePlan

/-- A node is planned alike for operators of two types, but for the tag in an error. -/
theorem planResize_sameButTag (a b : String) (m : AttributeMap) (args : List Argument)
    (lowering : LoweringSettings) :
    SameButTag (uppercase a) (uppercase b) (planResize ⟨a, m⟩ args lowering)
      (planResize ⟨b, m⟩ args lowering) := by
  refine (ResizeSettings.resolve_sameButTag a b m).bind fun settings => ?_
  refine (SameButTag.orError _ _).bind fun data => ?_
  refine (Resolution.resolve_sameButTag _ _ m args _).bind fun resolution => ?_
  dsimp only
  split
  · exact .ok _
  · exact .ok _
  · exact .error _
  · exact .error _
  · split
    · exact (ResizePlan.checkOutput_sameButTag _ _ _).bind fun _ => .ok _
    · exact .ok _
  · refine (ResizePlan.checkOutput_sameButTag _ _ _).bind fun _ => ?_
    exact ResizePlan.forLinear_sameButTag _ _ ..

end TensorResize
