/-!
Reports of failed lowerings: a category, a code, and details that name the kernel.
-/

namespace ArrayKernel

/-- What part of a kernel a failure is about. -/
inductive Category where
  | form | typing | shape
deriving DecidableEq, Repr

/-- The heading under which failures of a category are reported. -/
def Category.title : Category → String
  | .form => "KernelSyntaxError"
  | .typing => "KernelTypeError"
  | .shape => "KernelShapeError"

/-- The kinds of failure. -/
inductive Code where
  | emptyReturn
  | unsupportedSyntax
  | unsupportedOperand
  | shapeMismatch
  | unboundSymbol
  | unknownName
deriving DecidableEq, Repr

namespace Code

def category : Code → Category
  | .emptyReturn | .unsupportedSyntax => .form
  | .unsupportedOperand | .unknownName => .typing
  | .shapeMismatch | .unboundSymbol => .shape

def text : Code → String
  | .emptyReturn => "empty_return"
  | .unsupportedSyntax => "unsupported_syntax"
  | .unsupportedOperand => "unsupported_operand"
  | .shapeMismatch => "shape_mismatch"
  | .unboundSymbol => "unbound_symbol"
  | .unknownName => "unknown_name"

end Code

/-- A report of a failure. -/
structure Diagnostic where
  category : Category
  code : Code
  details : Option String
deriving DecidableEq, Repr

namespace Diagnostic

/-- Says in the details which kernel the failure occurred in. -/
def inKernel (kernel : String) (diagnostic : Diagnostic) : Diagnostic :=
  let place := "in kernel '" ++ kernel ++ "'"
  { diagnostic with
    details := some (match diagnostic.details with
      | some details => place ++ ": " ++ details
      | none => place) }

def text (diagnostic : Diagnostic) : String :=
  let body := match diagnostic.details with
    | some details => diagnostic.code.text ++ ": " ++ details
    | none => diagnostic.code.text
  diagnostic.category.title ++ "\x7b" ++ body ++ "\x7d"

@[simp] theorem category_inKernel (kernel : String) (diagnostic : Diagnostic) :
    (diagnostic.inKernel kernel).category = diagnostic.category := rfl

@[simp] theorem code_inKernel (kernel : String) (diagnostic : Diagnostic) :
    (diagnostic.inKernel kernel).code = diagnostic.code := rfl

end Diagnostic

end ArrayKernel
