import ArrayKernel.Fault
import ArrayKernel.Shape.Broadcast

/-!
Operator tables: what array operators are known, and what they do to the types of their operands.
A table is any partial function from two array types and an operator; `elementwise` is the usual
one, and `ofRules` answers from a list of rules.
-/

namespace ArrayKernel

/-- An operator at given operand types: the type of its result, and the shape at which each
operand is read. -/
structure OperatorInstance where
  result : ArrayType
  lhsAccess : Shape
  rhsAccess : Shape
deriving DecidableEq, Repr

namespace OperatorInstance

/-- The result as an operand of further operators: it is not stored. -/
def operand (inst : OperatorInstance) : Operand :=
  .computed inst.result

end OperatorInstance

/-- The array operators that are known at given operand types. -/
abbrev OperatorTable := ArrayType → ArrayType → ArrayOp → Option OperatorInstance

namespace OperatorTable

/-- The given operators on arrays of one element type and compatible shapes. Operands are read at
their own shapes, and the result has the shape that both repeat along. -/
def elementwise (ops : List ArrayOp) : OperatorTable := fun lhs rhs op =>
  if op ∈ ops ∧ lhs.element = rhs.element then
    (lhs.shape.broadcast rhs.shape).map fun shape =>
      ⟨⟨shape, op.resultType lhs.element⟩, lhs.shape, rhs.shape⟩
  else none

/-- All array operators. -/
def standard : OperatorTable :=
  elementwise ArrayOp.all

/-- Looks up an operator for two operands, which must be arrays. -/
def resolve (table : OperatorTable) (lhs rhs : Operand) (op : ArrayOp) :
    Except Fault OperatorInstance :=
  match lhs.arrayType?, rhs.arrayType? with
  | some l, some r =>
      match table l r op with
      | some inst => .ok inst
      | none => .error (.noOperator op lhs rhs)
  | _, _ => .error (.scalarOperand op lhs rhs)

end OperatorTable

/-- A line of a rule table. What is left out matches anything, and an access shape that is left
out is the operand's own. -/
structure OperatorRule where
  op : Option ArrayOp
  lhs : Option ArrayType
  rhs : Option ArrayType
  result : ArrayType
  lhsAccess : Option Shape
  rhsAccess : Option Shape
deriving DecidableEq, Repr

namespace OperatorRule

/-- Does the rule answer for these operands and this operator? -/
def applies (rule : OperatorRule) (lhs rhs : ArrayType) (op : ArrayOp) : Bool :=
  rule.op.all (· == op) && rule.lhs.all (· == lhs) && rule.rhs.all (· == rhs)

/-- What the rule answers. -/
def answer (rule : OperatorRule) (lhs rhs : ArrayType) : OperatorInstance :=
  ⟨rule.result, rule.lhsAccess.getD lhs.shape, rule.rhsAccess.getD rhs.shape⟩

end OperatorRule

/-- The first rule that applies answers. -/
def OperatorTable.ofRules (rules : List OperatorRule) : OperatorTable := fun lhs rhs op =>
  (rules.find? fun rule => rule.applies lhs rhs op).map fun rule => rule.answer lhs rhs

end ArrayKernel
