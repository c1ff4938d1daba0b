import ArrayKernel.Diagnostic
import ArrayKernel.Operand
import ArrayKernel.Operator

/-!
Why a kernel cannot be lowered. Each fault has a code and a message; `Fault.diagnostic` puts them
into a report.
-/

namespace ArrayKernel

/-- The causes for which lowering fails. -/
inductive Fault where
  /-- The kernel returns no value. -/
  | emptyReturn
  /-- The body is another statement than a return. -/
  | statement (kind : String)
  /-- The expression's construct has no meaning in a kernel. -/
  | expression (kind : String)
  /-- A comparison has no second operand. -/
  | comparisonEmpty
  /-- A comparison has more than one operator. -/
  | comparisonChained (count : Nat)
  /-- A buffer is returned as it is where that is not allowed. -/
  | bareBuffer (name : String)
  /-- No array or scalar has this name. -/
  | unknownName (id : String)
  /-- An array operator is applied to a scalar. -/
  | scalarOperand (op : ArrayOp) (lhs rhs : Operand)
  /-- The operator table has no entry for these operands. -/
  | noOperator (op : ArrayOp) (lhs rhs : Operand)
  /-- The output buffer has another shape than the kernel declares. -/
  | declaredShape (output declared : Shape)
  /-- The value has another shape than the output. -/
  | resultShape (output result : Shape)
  /-- A buffer has more dimensions than there are loops. -/
  | tooManyDims (buffer : Buffer) (loops : Nat)
  /-- A buffer is read at a shape of another rank. -/
  | accessRank (access : Shape) (buffer : Buffer)
  /-- An element is named by a wrong number of indices. -/
  | indexCount (count : Nat) (buffer : Buffer)
  /-- An extent is larger than any index. -/
  | unaddressable (extent : UInt64) (shape : Shape)
  /-- A symbolic extent has no meaning. -/
  | unboundSymbol (name : String) (shape : Shape)
deriving DecidableEq, Repr

namespace Fault

def code : Fault → Code
  | .emptyReturn => .emptyReturn
  | .statement _ | .expression _ | .comparisonEmpty | .comparisonChained _ | .bareBuffer _ =>
      .unsupportedSyntax
  | .unknownName _ => .unknownName
  | .scalarOperand .. | .noOperator .. => .unsupportedOperand
  | .declaredShape .. | .resultShape .. | .tooManyDims .. | .accessRank .. | .indexCount ..
  | .unaddressable .. => .shapeMismatch
  | .unboundSymbol .. => .unboundSymbol

def message : Fault → String
  | .emptyReturn => "the return value is empty"
  | .statement kind => "'" ++ kind ++ "' is not allowed in a single-return kernel"
  | .expression kind => "'" ++ kind ++ "' is not allowed in a kernel expression"
  | .comparisonEmpty => "Compare without a comparator"
  | .comparisonChained count =>
      "chained Compare with " ++ Nat.repr count ++ " operators; split it into separate kernels"
  | .bareBuffer name => "returning '" ++ name ++ "' without an operator"
  | .unknownName id => "'" ++ id ++ "' is not defined"
  | .scalarOperand op lhs rhs =>
      "operator '" ++ op.name ++ "' does not support " ++ lhs.text ++ " and " ++ rhs.text
  | .noOperator op lhs rhs =>
      "no '" ++ op.name ++ "' operator is registered for " ++ lhs.text ++ " and " ++ rhs.text
  | .declaredShape output declared =>
      "the marked shape " ++ output.text ++ " is not equal to " ++ declared.text
  | .resultShape output result =>
      "the return shape is annotated as " ++ output.text ++ " but got " ++ result.text
  | .tooManyDims buffer loops =>
      "'" ++ buffer.name ++ "' of shape " ++ buffer.shape.text ++
        " has more dimensions than the " ++ Nat.repr loops ++ " iteration variables"
  | .accessRank access buffer =>
      "access shape " ++ access.text ++ " does not match '" ++ buffer.name ++ "' of shape " ++
        buffer.shape.text
  | .indexCount count buffer =>
      Nat.repr count ++ " indices given for buffer '" ++ buffer.name ++ "' of shape " ++
        buffer.shape.text
  | .unaddressable extent shape =>
      "extent " ++ Nat.repr extent.toNat ++ " in shape " ++ shape.text ++ " is not addressable"
  | .unboundSymbol name shape =>
      "shape symbol '" ++ name ++ "' in " ++ shape.text ++ " has no binding"

/-- The report of a fault, under its code's own category. -/
def diagnostic (fault : Fault) : Diagnostic :=
  ⟨fault.code.category, fault.code, some fault.message⟩

@[simp] theorem code_diagnostic (fault : Fault) : fault.diagnostic.code = fault.code := rfl

end Fault

end ArrayKernel
