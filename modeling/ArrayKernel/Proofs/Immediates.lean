import ArrayKernel.Loop.Block

/-!
The floating-point immediates of expressions and blocks, from left to right. Those in the indices of
reads and in the ends of ranges are among them.
-/

namespace ArrayKernel.Loop

namespace Expr

mutual

/-- The floating-point immediates of an expression. -/
def floats : Expr → List Binary64
  | .int .. | .bool _ | .var _ => []
  | .float value _ => [value]
  | .load _ indices => floatsOfList indices
  | .arith _ lhs rhs => lhs.floats ++ rhs.floats
  | .compare _ lhs rhs => lhs.floats ++ rhs.floats
  | .unary _ operand => operand.floats

/-- The floating-point immediates of a list of expressions. -/
def floatsOfList : List Expr → List Binary64
  | [] => []
  | e :: es => e.floats ++ floatsOfList es

end

end Expr

def Range.floats (range : Range) : List Binary64 :=
  range.start.floats ++ range.stop.floats

def Region.floats (region : Region) : List Binary64 :=
  region.ranges.flatMap Range.floats

def Store.floats (store : Store) : List Binary64 :=
  Expr.floatsOfList store.indices ++ store.value.floats

/-- The floating-point immediates of a block. -/
def Block.floats (block : Block) : List Binary64 :=
  block.iterVars.flatMap (·.range.floats) ++ block.reads.flatMap Region.floats ++
    block.writes.flatMap Region.floats ++ block.body.floats

end ArrayKernel.Loop
