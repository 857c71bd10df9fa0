import TensorResize.Text.Bracketed

/-!
# Tensor shapes

A shape is an element type with one dimension per axis. A dimension is known, or it has a name and
gets its length when the graph runs. Index arithmetic needs every length, so it lives on lists of
lengths; `Shape.lens?` and `Shape.lensOr` lead there.

## Main definitions

* `ElementType`, `Dimension`, `Shape`.
* `Shape.lens?` — the lengths, if all of them are known.
* `Shape.lensOr` — the lengths, with one value for all that are not known.
-/

namespace TensorResize

/-- The type of a tensor's elements. -/
inductive ElementType where
  | float32
  | float64
  | int32
  | int64
  deriving DecidableEq

namespace ElementType

/-- Every element type. -/
def all : List ElementType := [float32, float64, int32, int64]

def name : ElementType → String
  | float32 => "F32"
  | float64 => "F64"
  | int32 => "I32"
  | int64 => "I64"

/-- The element type with this name. -/
def ofName? (s : String) : Option ElementType := all.find? (·.name == s)

theorem ofName?_name (t : ElementType) : ofName? t.name = some t := by cases t <;> decide

/-- Whether the elements are integers, as those of explicit output lengths are. -/
def isInteger : ElementType → Bool
  | int32 | int64 => true
  | float32 | float64 => false

end ElementType

/-- The length of one axis. -/
inductive Dimension where
  /-- A length known before the graph runs. -/
  | known (length : Nat)
  /-- A length that only running the graph determines. -/
  | symbolic (name : String)
  deriving DecidableEq

namespace Dimension

def length? : Dimension → Option Nat
  | known n => some n
  | symbolic _ => none

def isKnown : Dimension → Bool
  | known _ => true
  | symbolic _ => false

def text : Dimension → String
  | known n => toString n
  | symbolic name => name

end Dimension

/-- An element type with one dimension per axis. -/
structure Shape where
  elementType : ElementType
  dims : List Dimension
  deriving DecidableEq

namespace Shape

/-- The shape with these lengths, all known. -/
def ofLens (elementType : ElementType) (lens : List Nat) : Shape :=
  ⟨elementType, lens.map .known⟩

/-- The shape without axes. Optional inputs that were left out have it too. -/
def scalar (elementType : ElementType) : Shape := ⟨elementType, []⟩

def rank (s : Shape) : Nat := s.dims.length

/-- Whether some length is not known. -/
def isDynamic (s : Shape) : Bool := s.dims.any (!·.isKnown)

/-- The lengths, if all are known. -/
def lens? (s : Shape) : Option (List Nat) := s.dims.mapM Dimension.length?

/-- The lengths, with `fill` for those that are not known. -/
def lensOr (fill : Nat) (s : Shape) : List Nat := s.dims.map fun d => d.length?.getD fill

/-- The element type followed by the dimensions, such as `F32[n, 3, 4]`. -/
def text (s : Shape) : String := s.elementType.name ++ bracketed (s.dims.map Dimension.text)

@[simp] theorem rank_ofLens (t : ElementType) (lens : List Nat) :
    (ofLens t lens).rank = lens.length := by simp [ofLens, rank]

@[simp] theorem lensOr_ofLens (fill : Nat) (t : ElementType) (lens : List Nat) :
    (ofLens t lens).lensOr fill = lens := by
  induction lens with
  | nil => rfl
  | cons n ns ih => simpa [ofLens, lensOr, Dimension.length?] using ih

@[simp] theorem length_lensOr (fill : Nat) (s : Shape) : (s.lensOr fill).length = s.rank := by
  simp [lensOr, rank]

end Shape

end TensorResize
