import ArrayKernel.Json.Builtin
import ArrayKernel.Source

/-!
The JSON form of operators, source expressions and statements. The operators are read by any
library, since loop expressions hold them too.
-/

namespace ArrayKernel

open Json (Library Reader)

def ArithOp.toJson (op : ArithOp) : Json := .string op.name

def ArithOp.readerIn (lib : Library) : lib.Reader ArithOp := lib.enum all name

def ArithOp.reader : Reader ArithOp := readerIn .builtin

def CompareOp.toJson (op : CompareOp) : Json := .string op.name

def CompareOp.readerIn (lib : Library) : lib.Reader CompareOp := lib.enum all name

def CompareOp.reader : Reader CompareOp := readerIn .builtin

def UnaryOp.toJson (op : UnaryOp) : Json := .string op.name

def UnaryOp.readerIn (lib : Library) : lib.Reader UnaryOp := lib.enum all name

def UnaryOp.reader : Reader UnaryOp := readerIn .builtin

namespace Source

def Literal.toJson : Literal → Json
  | .int value => .tagged "Int" (.int value.toInt)
  | .float value => .tagged "Float" (.real value)
  | .bool value => .tagged "Bool" (.bool value)

def Literal.reader : Reader Literal :=
  .variant fun
    | "Int" => some (.content (Reader.int64.map .int))
    | "Float" => some (.content (Reader.real.map .float))
    | "Bool" => some (.content (Reader.bool.map .bool))
    | _ => none

namespace Expr

mutual

def toJson : Expr → Json
  | .arith op l r => .tagged "BinOp" (.list [op.toJson, toJson l, toJson r])
  | .unary op e => .tagged "UnaryOp" (.list [op.toJson, toJson e])
  | .compare e others => .tagged "Compare" (.list [toJson e, .list (comparisonsToJson others)])
  | .name id => .tagged "Name" (.string id)
  | .literal value => .tagged "Constant" value.toJson
  | .logic es => .tagged "BoolOp" (.list (listToJson es))
  | .conditional t b e =>
      .tagged "IfExp" (.object [("test", toJson t), ("body", toJson b), ("orelse", toJson e)])
  | .call f args =>
      .tagged "Call" (.object [("func", .string f), ("args", .list (listToJson args))])
  | .attribute e attr =>
      .tagged "Attribute" (.object [("value", toJson e), ("attr", .string attr)])
  | .subscript e i => .tagged "Subscript" (.object [("value", toJson e), ("index", toJson i)])
  | .lambda params e =>
      .tagged "Lambda" (.object [("params", .list (params.map .string)), ("body", toJson e)])
  | .tuple es => .tagged "Tuple" (.list (listToJson es))
  | .list es => .tagged "List" (.list (listToJson es))

/-- The items of an expression list. -/
def listToJson : List Expr → List Json
  | [] => []
  | e :: es => toJson e :: listToJson es

/-- The operators and operands of a comparison, as pairs. -/
def comparisonsToJson : List (CompareOp × Expr) → List Json
  | [] => []
  | (op, e) :: others => .list [op.toJson, toJson e] :: comparisonsToJson others

end

/-- Reads expressions that are nested less than `levels` deep. -/
def readerAt : (levels : Nat) → Reader Expr
  | 0 => .refuse
  | levels + 1 =>
      let self := readerAt levels
      .variant fun
        | "BinOp" => some (.content ((Reader.triple ArithOp.reader self self).map
            fun (op, l, r) => .arith op l r))
        | "UnaryOp" => some (.content ((Reader.pair UnaryOp.reader self).map
            fun (op, e) => .unary op e))
        | "Compare" => some (.content
            ((Reader.pair self (.list (.pair CompareOp.reader self))).map
              fun (e, others) => .compare e others))
        | "Name" => some (.content (Reader.string.map .name))
        | "Constant" => some (.content (Literal.reader.map .literal))
        | "BoolOp" => some (.content ((Reader.list self).map .logic))
        | "IfExp" => some (.content
            ((Reader.record (.cons "test" self (.cons "body" self (.single "orelse" self)))).map
              fun (t, b, e) => .conditional t b e))
        | "Call" => some (.content
            ((Reader.record (.cons "func" .string (.single "args" (.list self)))).map
              fun (f, args) => .call f args))
        | "Attribute" => some (.content
            ((Reader.record (.cons "value" self (.single "attr" .string))).map
              fun (e, attr) => .attribute e attr))
        | "Subscript" => some (.content
            ((Reader.record (.cons "value" self (.single "index" self))).map
              fun (e, i) => .subscript e i))
        | "Lambda" => some (.content
            ((Reader.record (.cons "params" (.list .string) (.single "body" self))).map
              fun (params, e) => .lambda params e))
        | "Tuple" => some (.content ((Reader.list self).map .tuple))
        | "List" => some (.content ((Reader.list self).map .list))
        | _ => none

/-- Reads expressions. Every level of nesting opens a bracket, so the limit on brackets is met
before the levels are used up. -/
def reader : Reader Expr :=
  readerAt (Reader.maxDepth + 1)

end Expr

namespace Stmt

mutual

def toJson : Stmt → Json
  | .ret none => .tagged "Return" .null
  | .ret (some e) => .tagged "Return" e.toJson
  | .assign target e =>
      .tagged "Assign" (.object [("target", .string target), ("value", e.toJson)])
  | .eval e => .tagged "Expr" e.toJson
  | .branch t b e =>
      .tagged "If" (.object [("test", t.toJson), ("body", .list (listToJson b)),
        ("orelse", .list (listToJson e))])
  | .forEach target i b =>
      .tagged "For" (.object [("target", .string target), ("iter", i.toJson),
        ("body", .list (listToJson b))])
  | .loop t b => .tagged "While" (.object [("test", t.toJson), ("body", .list (listToJson b))])
  | .pass => .string "Pass"

/-- The items of a statement list. -/
def listToJson : List Stmt → List Json
  | [] => []
  | s :: ss => toJson s :: listToJson ss

end

/-- Reads statements that are nested less than `levels` deep. -/
def readerAt : (levels : Nat) → Reader Stmt
  | 0 => .refuse
  | levels + 1 =>
      let self := readerAt levels
      .variant fun
        | "Return" => some (.content ((Reader.nullable Expr.reader).map .ret))
        | "Assign" => some (.content
            ((Reader.record (.cons "target" .string (.single "value" Expr.reader))).map
              fun (target, e) => .assign target e))
        | "Expr" => some (.content (Expr.reader.map .eval))
        | "If" => some (.content
            ((Reader.record (.cons "test" Expr.reader
                (.cons "body" (.list self) (.single "orelse" (.list self))))).map
              fun (t, b, e) => .branch t b e))
        | "For" => some (.content
            ((Reader.record (.cons "target" .string
                (.cons "iter" Expr.reader (.single "body" (.list self))))).map
              fun (target, i, b) => .forEach target i b))
        | "While" => some (.content
            ((Reader.record (.cons "test" Expr.reader (.single "body" (.list self)))).map
              fun (t, b) => .loop t b))
        | "Pass" => some (.constant .pass)
        | _ => none

/-- Reads statements; the limit on brackets is met before the levels are used up. -/
def reader : Reader Stmt :=
  readerAt (Reader.maxDepth + 1)

end Stmt

end Source

end ArrayKernel
