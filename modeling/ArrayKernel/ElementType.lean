/-!
The types of array elements and scalars.
-/

namespace ArrayKernel

/-- The type of one element of an array, or of a scalar. -/
inductive ElementType where
  | bool | int32 | int64 | float32 | float64
deriving DecidableEq, Repr

/-- The spelling of an element type in messages. -/
def ElementType.text : ElementType → String
  | .bool => "bool"
  | .int32 => "int32"
  | .int64 => "int64"
  | .float32 => "float32"
  | .float64 => "float64"

end ArrayKernel
