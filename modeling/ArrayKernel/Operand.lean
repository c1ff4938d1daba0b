import ArrayKernel.Buffer

/-!
Operands of array operators, as far as their types are concerned.
-/

namespace ArrayKernel

/-- What an operator is applied to: a buffer, the unstored result of another operator, or a
scalar. -/
inductive Operand where
  | stored (buffer : Buffer)
  | computed (type : ArrayType)
  | scalar (type : ElementType)
deriving DecidableEq, Repr

namespace Operand

/-- The type of an array operand. -/
def arrayType? : Operand → Option ArrayType
  | .stored buffer => some buffer.type
  | .computed type => some type
  | .scalar _ => none

/-- The buffer that an array operand stands in. -/
def buffer? : Operand → Option Buffer
  | .stored buffer => some buffer
  | .computed _ | .scalar _ => none

/-- Is the operand an array in memory? -/
def isMaterialized : Operand → Bool
  | .stored _ => true
  | .computed _ | .scalar _ => false

/-- Is the operand an array that has not been stored? -/
def isAbstract : Operand → Bool
  | .computed _ => true
  | .stored _ | .scalar _ => false

def text : Operand → String
  | .stored buffer => buffer.type.text ++ " '" ++ buffer.name ++ "'"
  | .computed type => type.text
  | .scalar type => type.text

end Operand

end ArrayKernel
