import ArrayKernel.Kernel.Lowering

/-!
Kernels under construction: names, symbols and the output are declared one after the other, and
the body comes last.
-/

namespace ArrayKernel

/-- A kernel without its body, with the environment and settings it is to be lowered in. -/
structure Draft where
  name : String
  scope : Scope := .empty
  symbols : Symbols := .empty
  operators : OperatorTable := .standard
  settings : Settings := {}
  output : Option ArrayType := none
  declared : Option Shape := none

namespace Draft

/-- The name of every draft's output buffer. -/
def outputName : String := "__out"

/-- Declares an array argument. -/
def array (draft : Draft) (name : String) (type : ArrayType) : Draft :=
  { draft with scope := draft.scope.insert (.array ⟨name, type⟩) }

/-- Declares a scalar argument. -/
def scalar (draft : Draft) (name : String) (type : ElementType) : Draft :=
  { draft with scope := draft.scope.insert (.scalar name type) }

/-- Declares a symbolic extent, which is a variable of its own name. -/
def symbol (draft : Draft) (name : String) : Draft :=
  { draft with symbols := draft.symbols.bindVar name .int64 }

def env (draft : Draft) : Environment :=
  ⟨draft.scope, draft.symbols, draft.operators⟩

/-- The kernel with the given body, if the output has been declared. Unless said otherwise, the
value has the output's shape. -/
def kernel? (draft : Draft) (body : Source.Stmt) : Option Kernel :=
  draft.output.map fun type =>
    ⟨draft.name, ⟨outputName, type⟩, draft.declared.getD type.shape, body⟩

end Draft

end ArrayKernel
