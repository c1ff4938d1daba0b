import ArrayKernel.Loop.Block
import ArrayKernel.Number.Layout
import ArrayKernel.Operator.Precedence

/-!
The text of expressions and blocks. An operand stands in parentheses only where precedence and
association ask for them.
-/

namespace ArrayKernel.Loop

/-- Numbers are written positionally from `1e-4` up to, but not including, `1e16`. -/
def immediateLayout : Layout := ⟨-4, 15, false⟩

/-- The text of a floating-point immediate. -/
def floatText (x : Binary64) : String :=
  if x.isNaN then "NaN"
  else if x.isFinite then String.ofList (immediateLayout.finite x)
  else if x.isNegative then "-inf"
  else "inf"

/-- Puts a text in parentheses if they are needed. -/
def parenthesize (needed : Bool) (text : String) : String :=
  if needed then "(" ++ text ++ ")" else text

/-- The text of an index list; an element without indices is shown by empty parentheses. -/
def indexText (indices : List String) : String :=
  if indices.isEmpty then "()" else String.intercalate ", " indices

namespace Expr

/-- The precedence of an expression's outermost operator; what has none binds most. -/
def precedence : Expr → Nat
  | .int .. | .float .. | .bool _ | .var _ | .load .. => 13
  | .arith op _ _ => op.precedence
  | .compare .. => CompareOp.precedence
  | .unary op _ => op.precedence

mutual

def text : Expr → String
  | .int value _ => toString value.toInt
  | .float value _ => floatText value
  | .bool value => if value then "True" else "False"
  | .var v => v.name
  | .load buffer indices => buffer.name ++ "[" ++ indexText (texts indices) ++ "]"
  | .arith op l r =>
      parenthesize (op.association.leftParens op.precedence l.precedence) (text l) ++
        " " ++ op.symbol ++ " " ++
        parenthesize (op.association.rightParens op.precedence r.precedence) (text r)
  | .compare op l r =>
      parenthesize (Association.neither.leftParens CompareOp.precedence l.precedence) (text l) ++
        " " ++ op.symbol ++ " " ++
        parenthesize (Association.neither.rightParens CompareOp.precedence r.precedence) (text r)
  | .unary op e => op.symbol ++ parenthesize (e.precedence < op.precedence) (text e)

/-- The texts of an expression list. -/
def texts : List Expr → List String
  | [] => []
  | e :: es => text e :: texts es

end

end Expr

def Range.text (range : Range) : String :=
  range.start.text ++ ":" ++ range.stop.text

def Region.text (region : Region) : String :=
  region.buffer.name ++ "[" ++ String.intercalate ", " (region.ranges.map Range.text) ++ "]"

def Store.text (store : Store) : String :=
  store.buffer.name ++ "[" ++ indexText (Expr.texts store.indices) ++ "] = " ++ store.value.text

def IterVar.text (v : IterVar) : String :=
  v.var.name ++ " in [" ++ v.range.start.text ++ ", " ++ v.range.stop.text ++ ")"

def Block.text (block : Block) : String :=
  "block " ++ block.name ++ "(" ++ String.intercalate ", " (block.iterVars.map IterVar.text) ++
    ")\n  reads: " ++ String.intercalate ", " (block.reads.map Region.text) ++
    "\n  writes: " ++ String.intercalate ", " (block.writes.map Region.text) ++
    "\n  " ++ block.body.text

end ArrayKernel.Loop
