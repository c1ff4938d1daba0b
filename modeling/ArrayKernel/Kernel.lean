import ArrayKernel.Buffer
import ArrayKernel.Fault
import ArrayKernel.Loop.Block
import ArrayKernel.Source

/-!
Kernels: functions whose body is a single `return`, with the buffer that the value is stored in.
-/

namespace ArrayKernel

/-- A kernel as written: the output buffer, the shape declared for the value, and the body. -/
structure Kernel where
  name : String
  output : Buffer
  declared : Shape
  body : Source.Stmt

/-- The expression that a kernel returns. -/
def Kernel.returned (kernel : Kernel) : Except Fault Source.Expr :=
  match kernel.body with
  | .ret (some value) => .ok value
  | .ret none => .error .emptyReturn
  | body => .error (.statement body.kind)

/-- How loops are made. -/
structure Settings where
  /-- The iteration variables are named by this stem and their position. -/
  stem : String := "__iter_"
  /-- The type of indices and ranges. -/
  indexType : ElementType := .int64
  /-- May a kernel copy a buffer, that is, return it without any operator? -/
  copies : Bool := true

namespace Settings

/-- The iteration variable at a position. -/
def iterVar (settings : Settings) (position : Nat) : Loop.Var :=
  ⟨settings.stem ++ Nat.repr position, settings.indexType⟩

/-- One iteration variable for each range, in order. -/
def iterVars (settings : Settings) (ranges : List Loop.Range) : List Loop.IterVar :=
  ranges.mapIdx fun position range => ⟨settings.iterVar position, range⟩

end Settings

end ArrayKernel
