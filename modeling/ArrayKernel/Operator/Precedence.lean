import ArrayKernel.Operator

/-!
How operators are read in a row: those of a higher precedence bind their operands first, and an
operator's association says on which side an operand of its own precedence belongs to it.
-/

namespace ArrayKernel

/-- The side on which an operand of the operator's own precedence stands without parentheses. -/
inductive Association where
  | left | right | neither
deriving DecidableEq, Repr

namespace Association

/-- Does a left operand of precedence `operand` need parentheses? -/
def leftParens (association : Association) (operator operand : Nat) : Bool :=
  match association with
  | .left => operand < operator
  | .right | .neither => operand ≤ operator

/-- Does a right operand of precedence `operand` need parentheses? -/
def rightParens (association : Association) (operator operand : Nat) : Bool :=
  match association with
  | .right => operand < operator
  | .left | .neither => operand ≤ operator

end Association

def ArithOp.precedence : ArithOp → Nat
  | .add | .sub => 8
  | .mul | .div | .floorDiv | .mod => 10
  | .pow => 12

/-- Powers associate to the right and all other operators to the left. -/
def ArithOp.association : ArithOp → Association
  | .pow => .right
  | .add | .sub | .mul | .div | .floorDiv | .mod => .left

/-- The precedence of every comparison; comparisons do not associate. -/
def CompareOp.precedence : Nat := 6

/-- Negation of truth values binds less than comparisons do, the signs more than products. -/
def UnaryOp.precedence : UnaryOp → Nat
  | .not => 4
  | .plus | .minus | .invert => 11

end ArrayKernel
