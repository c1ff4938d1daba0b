import ArrayKernel.Fault
import ArrayKernel.Loop.Block

/-!
Elements of buffers: a read or a write names one index for each retained dimension.
-/

namespace ArrayKernel.Buffer

open Loop (Expr Store)

/-- Accepts as many indices as the buffer has retained dimensions. -/
def checkIndices (buffer : Buffer) (indices : List Expr) : Except Fault Unit :=
  if indices.length = buffer.rank then .ok () else .error (.indexCount indices.length buffer)

/-- The element at the given indices. -/
def load (buffer : Buffer) (indices : List Expr) : Except Fault Expr := do
  buffer.checkIndices indices
  .ok (.load buffer indices)

/-- The assignment of a value to the element at the given indices. -/
def store (buffer : Buffer) (indices : List Expr) (value : Expr) : Except Fault Store := do
  buffer.checkIndices indices
  .ok ⟨buffer, indices, value⟩

end ArrayKernel.Buffer
