import ArrayKernel.Environment
import ArrayKernel.Loop.Block
import ArrayKernel.Trace

/-!
The loops over a shape: one range for each retained dimension, from zero up to its extent.
-/

namespace ArrayKernel

open Loop (Range)

/-- The range from zero up to `stop`. -/
def Loop.Range.upTo (stop : Loop.Expr) (index : ElementType) : Range :=
  ⟨.int 0 index, stop⟩

/-- The ranges of the dimensions `dims` of `shape`. Constant extents must be valid indices, that
is, fit a signed 64-bit integer, and symbolic ones must be bound. -/
def Dim.ranges (shape : Shape) (symbols : Symbols) (index : ElementType) :
    List Dim → Except Fault (List Range)
  | [] => .ok []
  | .elided :: dims => Dim.ranges shape symbols index dims
  | .const extent :: dims =>
      if extent.toNat < Nat.pow 2 63 then do
        let others ← Dim.ranges shape symbols index dims
        .ok (.upTo (.int (Int64.ofNat extent.toNat) index) index :: others)
      else .error (.unaddressable extent shape)
  | .symbol name :: dims =>
      match symbols.find? name with
      | some stop => do
          let others ← Dim.ranges shape symbols index dims
          .ok (.upTo stop index :: others)
      | none => .error (.unboundSymbol name shape)

namespace Shape

/-- The ranges of a shape, as seen by an index of the given type. -/
def ranges (shape : Shape) (symbols : Symbols) (index : ElementType) :
    Except Fault (List Range) :=
  Dim.ranges shape symbols index shape.dims

/-- Builds the ranges of a shape and records it. -/
def traceRanges (shape : Shape) (symbols : Symbols) (index : ElementType) :
    Traced (List Range) := do
  let ranges ← Traced.lift (shape.ranges symbols index)
  Traced.emit (.ranges shape ranges.length)
  pure ranges

@[simp] theorem result_traceRanges (shape : Shape) (symbols : Symbols) (index : ElementType) :
    (shape.traceRanges symbols index).result = shape.ranges symbols index := by
  simp only [traceRanges, Traced.result_bind, Traced.result_lift, Traced.result_emit,
    Traced.result_pure, Except.bind]
  cases shape.ranges symbols index <;> rfl

end Shape

end ArrayKernel
