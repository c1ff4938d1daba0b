import ArrayKernel.Number.Binary64
import ArrayKernel.Operator

/-!
The language that kernels are written in. Its grammar is wider than what kernels may use: the
lowering of a kernel refuses the rest by the name of its construct.

`same` compares two trees and takes floating-point literals by value, so that all NaNs are one
literal and the two zeros are one.
-/

namespace ArrayKernel.Source

/-- A constant in the program text. -/
inductive Literal where
  | int (value : Int64)
  | float (value : Binary64)
  | bool (value : Bool)
deriving DecidableEq, Repr

namespace Literal

def type : Literal → ElementType
  | .int _ => .int64
  | .float _ => .float64
  | .bool _ => .bool

def same : Literal → Literal → Bool
  | .int a, .int b => a == b
  | .float a, .float b => a.sameValue b
  | .bool a, .bool b => a == b
  | _, _ => false

end Literal

/-- Expressions. A comparison holds its first operand and the list of operators and further
operands that follow it. -/
inductive Expr where
  | arith (op : ArithOp) (lhs rhs : Expr)
  | unary (op : UnaryOp) (operand : Expr)
  | compare (first : Expr) (others : List (CompareOp × Expr))
  | name (id : String)
  | literal (value : Literal)
  | logic (operands : List Expr)
  | conditional (test body orelse : Expr)
  | call (callee : String) (args : List Expr)
  | attribute (value : Expr) (attr : String)
  | subscript (value index : Expr)
  | lambda (params : List String) (body : Expr)
  | tuple (items : List Expr)
  | list (items : List Expr)

namespace Expr

/-- The name of an expression's construct. -/
def kind : Expr → String
  | .arith .. => "BinOp"
  | .unary .. => "UnaryOp"
  | .compare .. => "Compare"
  | .name _ => "Name"
  | .literal _ => "Constant"
  | .logic _ => "BoolOp"
  | .conditional .. => "IfExp"
  | .call .. => "Call"
  | .attribute .. => "Attribute"
  | .subscript .. => "Subscript"
  | .lambda .. => "Lambda"
  | .tuple _ => "Tuple"
  | .list _ => "List"

mutual

/-- Equality of expressions, floating-point literals being compared by value. -/
def same : Expr → Expr → Bool
  | .arith op l r, .arith op' l' r' => op == op' && same l l' && same r r'
  | .unary op e, .unary op' e' => op == op' && same e e'
  | .compare e others, .compare e' others' => same e e' && sameComparisons others others'
  | .name id, .name id' => id == id'
  | .literal value, .literal value' => value.same value'
  | .logic es, .logic es' => sameList es es'
  | .conditional t b e, .conditional t' b' e' => same t t' && same b b' && same e e'
  | .call f args, .call f' args' => f == f' && sameList args args'
  | .attribute e attr, .attribute e' attr' => same e e' && attr == attr'
  | .subscript e i, .subscript e' i' => same e e' && same i i'
  | .lambda params e, .lambda params' e' => params == params' && same e e'
  | .tuple es, .tuple es' => sameList es es'
  | .list es, .list es' => sameList es es'
  | _, _ => false

/-- Equality of expression lists. -/
def sameList : List Expr → List Expr → Bool
  | [], [] => true
  | e :: es, e' :: es' => same e e' && sameList es es'
  | _, _ => false

/-- Equality of the operators and operands of two comparisons. -/
def sameComparisons : List (CompareOp × Expr) → List (CompareOp × Expr) → Bool
  | [], [] => true
  | (op, e) :: others, (op', e') :: others' =>
      op == op' && same e e' && sameComparisons others others'
  | _, _ => false

end

end Expr

/-- Statements. -/
inductive Stmt where
  | ret (value : Option Expr)
  | assign (target : String) (value : Expr)
  | eval (value : Expr)
  | branch (test : Expr) (body orelse : List Stmt)
  | forEach (target : String) (iter : Expr) (body : List Stmt)
  | loop (test : Expr) (body : List Stmt)
  | pass

namespace Stmt

/-- The name of a statement's construct. -/
def kind : Stmt → String
  | .ret _ => "Return"
  | .assign .. => "Assign"
  | .eval _ => "Expr"
  | .branch .. => "If"
  | .forEach .. => "For"
  | .loop .. => "While"
  | .pass => "Pass"

mutual

/-- Equality of statements, floating-point literals being compared by value. -/
def same : Stmt → Stmt → Bool
  | .ret none, .ret none => true
  | .ret (some e), .ret (some e') => e.same e'
  | .assign target e, .assign target' e' => target == target' && e.same e'
  | .eval e, .eval e' => e.same e'
  | .branch t b e, .branch t' b' e' => t.same t' && sameList b b' && sameList e e'
  | .forEach target i b, .forEach target' i' b' =>
      target == target' && i.same i' && sameList b b'
  | .loop t b, .loop t' b' => t.same t' && sameList b b'
  | .pass, .pass => true
  | _, _ => false

/-- Equality of statement lists. -/
def sameList : List Stmt → List Stmt → Bool
  | [], [] => true
  | s :: ss, s' :: ss' => same s s' && sameList ss ss'
  | _, _ => false

end

end Stmt

end ArrayKernel.Source
