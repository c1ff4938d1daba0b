import ArrayKernel.ElementType
import ArrayKernel.Shape

/-!
Array types and buffers, the named arrays that kernels read and write.
-/

namespace ArrayKernel

/-- The shape and the element type of an array. -/
structure ArrayType where
  shape : Shape
  element : ElementType
deriving DecidableEq, Repr

def ArrayType.text (type : ArrayType) : String :=
  "ndarray" ++ type.shape.text ++ "[" ++ type.element.text ++ "]"

/-- A named array in memory. -/
structure Buffer where
  name : String
  type : ArrayType
deriving DecidableEq, Repr

namespace Buffer

def shape (buffer : Buffer) : Shape := buffer.type.shape

def element (buffer : Buffer) : ElementType := buffer.type.element

/-- How many indices an element of the buffer has. -/
def rank (buffer : Buffer) : Nat := buffer.shape.rank

end Buffer

end ArrayKernel
