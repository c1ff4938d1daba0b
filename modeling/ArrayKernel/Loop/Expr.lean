import ArrayKernel.Buffer
import ArrayKernel.Number.Binary64
import ArrayKernel.Operator

/-!
The expressions of loop blocks: what one iteration computes. Reads of buffers name an element by
one index expression for each of its dimensions.

`same` compares two expressions and takes floating-point immediates by value.
-/

namespace ArrayKernel.Loop

/-- A scalar variable: a loop counter or a scalar argument. -/
structure Var where
  name : String
  type : ElementType
deriving DecidableEq, Repr

/-- Scalar expressions over variables and buffer elements. -/
inductive Expr where
  | int (value : Int64) (type : ElementType)
  | float (value : Binary64) (type : ElementType)
  | bool (value : Bool)
  | var (var : Var)
  | load (buffer : Buffer) (indices : List Expr)
  | arith (op : ArithOp) (lhs rhs : Expr)
  | compare (op : CompareOp) (lhs rhs : Expr)
  | unary (op : UnaryOp) (operand : Expr)

namespace Expr

/-- The value of an integer immediate. -/
def asInt? : Expr → Option Int64
  | .int value _ => some value
  | _ => none

/-- The application of an array operator to one element of each operand. -/
def elementwise : ArrayOp → Expr → Expr → Expr
  | .arith op, lhs, rhs => .arith op lhs rhs
  | .compare op, lhs, rhs => .compare op lhs rhs

mutual

/-- Equality of expressions, floating-point immediates being compared by value. -/
def same : Expr → Expr → Bool
  | .int n type, .int n' type' => n == n' && type == type'
  | .float x type, .float x' type' => x.sameValue x' && type == type'
  | .bool b, .bool b' => b == b'
  | .var v, .var v' => v == v'
  | .load buffer is, .load buffer' is' => buffer == buffer' && sameList is is'
  | .arith op l r, .arith op' l' r' => op == op' && same l l' && same r r'
  | .compare op l r, .compare op' l' r' => op == op' && same l l' && same r r'
  | .unary op e, .unary op' e' => op == op' && same e e'
  | _, _ => false

/-- Equality of expression lists. -/
def sameList : List Expr → List Expr → Bool
  | [], [] => true
  | e :: es, e' :: es' => same e e' && sameList es es'
  | _, _ => false

end

end Expr

end ArrayKernel.Loop
