/-!
Shapes of arrays: lists of dimensions. An elided dimension is part of the shape as written but
takes no position in the data, so ranks, ranges and broadcasts look at the *retained* dimensions
only.
-/

namespace ArrayKernel

/-- The extent of one dimension. -/
inductive Dim where
  | const (extent : UInt64)
  | symbol (name : String)
  | elided
deriving DecidableEq, Repr

namespace Dim

def isElided : Dim → Bool
  | .elided => true
  | .const _ | .symbol _ => false

def text : Dim → String
  | .const extent => Nat.repr extent.toNat
  | .symbol name => name
  | .elided => "None"

end Dim

/-- The dimensions of an array, outermost first. -/
structure Shape where
  dims : List Dim
deriving DecidableEq, Repr

namespace Shape

/-- The shape of a scalar. -/
def scalar : Shape := ⟨[]⟩

/-- The dimensions that are not elided, in order. -/
def retained (shape : Shape) : List Dim :=
  shape.dims.filter fun dim => !dim.isElided

/-- The number of retained dimensions: how many indices an element has. -/
def rank (shape : Shape) : Nat :=
  shape.retained.length

/-- Do two shapes differ in elided dimensions at most? -/
def sameRetained (s t : Shape) : Bool :=
  s.retained == t.retained

/-- Dimensions in parentheses; a single one is followed by a comma. -/
def text (shape : Shape) : String :=
  match shape.dims with
  | [dim] => "(" ++ dim.text ++ ",)"
  | dims => "(" ++ String.intercalate ", " (dims.map Dim.text) ++ ")"

theorem sameRetained_iff {s t : Shape} : s.sameRetained t = true ↔ s.retained = t.retained := by
  simp [sameRetained]

@[simp] theorem retained_scalar : scalar.retained = [] := rfl

/-- No retained dimension is elided. -/
theorem ne_elided_of_mem_retained {shape : Shape} {dim : Dim} (h : dim ∈ shape.retained) :
    dim ≠ .elided := by
  rintro rfl
  simp [retained, Dim.isElided] at h

end Shape

end ArrayKernel
