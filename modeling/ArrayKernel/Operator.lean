import ArrayKernel.ElementType

/-!
The operators of kernel expressions: arithmetic and comparisons, which combine two arrays element
by element, and unary ones, which apply to arrays and scalars alike. Each has a name and a symbol.
-/

namespace ArrayKernel

/-- Operators of two operands whose result has the operands' element type. -/
inductive ArithOp where
  | add | sub | mul | div | floorDiv | mod | pow
deriving DecidableEq, Repr

namespace ArithOp

def name : ArithOp → String
  | .add => "Add"
  | .sub => "Sub"
  | .mul => "Mult"
  | .div => "Div"
  | .floorDiv => "FloorDiv"
  | .mod => "Mod"
  | .pow => "Pow"

def symbol : ArithOp → String
  | .add => "+"
  | .sub => "-"
  | .mul => "*"
  | .div => "/"
  | .floorDiv => "//"
  | .mod => "%"
  | .pow => "**"

/-- Every arithmetic operator, once. -/
def all : List ArithOp := [.add, .sub, .mul, .div, .floorDiv, .mod, .pow]

end ArithOp

/-- Operators of two operands whose result is a truth value. -/
inductive CompareOp where
  | eq | ne | lt | le | gt | ge
deriving DecidableEq, Repr

namespace CompareOp

def name : CompareOp → String
  | .eq => "Eq"
  | .ne => "NotEq"
  | .lt => "Lt"
  | .le => "LtE"
  | .gt => "Gt"
  | .ge => "GtE"

def symbol : CompareOp → String
  | .eq => "=="
  | .ne => "!="
  | .lt => "<"
  | .le => "<="
  | .gt => ">"
  | .ge => ">="

/-- Every comparison, once. -/
def all : List CompareOp := [.eq, .ne, .lt, .le, .gt, .ge]

end CompareOp

/-- Operators of one operand. -/
inductive UnaryOp where
  | plus | minus | not | invert
deriving DecidableEq, Repr

namespace UnaryOp

def name : UnaryOp → String
  | .plus => "UAdd"
  | .minus => "USub"
  | .not => "Not"
  | .invert => "Invert"

/-- What stands before the operand; a word keeps its distance. -/
def symbol : UnaryOp → String
  | .plus => "+"
  | .minus => "-"
  | .not => "not "
  | .invert => "~"

/-- Every unary operator, once. -/
def all : List UnaryOp := [.plus, .minus, .not, .invert]

/-- The element type of the result: negation of truth values makes any operand a truth value. -/
def resultType : UnaryOp → ElementType → ElementType
  | .not, _ => .bool
  | .plus, type | .minus, type | .invert, type => type

end UnaryOp

/-- An operator on two arrays, applied to each pair of elements. -/
inductive ArrayOp where
  | arith (op : ArithOp)
  | compare (op : CompareOp)
deriving DecidableEq, Repr

namespace ArrayOp

def name : ArrayOp → String
  | .arith op => op.name
  | .compare op => op.name

def symbol : ArrayOp → String
  | .arith op => op.symbol
  | .compare op => op.symbol

/-- Every operator on two arrays, once. -/
def all : List ArrayOp :=
  ArithOp.all.map .arith ++ CompareOp.all.map .compare

/-- The element type of the result for operands of element type `type`. -/
def resultType : ArrayOp → ElementType → ElementType
  | .arith _, type => type
  | .compare _, _ => .bool

end ArrayOp

end ArrayKernel
