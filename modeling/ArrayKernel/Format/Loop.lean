import ArrayKernel.Format.Shape
import ArrayKernel.Format.Source
import ArrayKernel.Loop.Block

/-!
The JSON form of loop expressions and blocks.
-/

namespace ArrayKernel.Loop

open Json (Library Reader Problem)

def Var.toJson (v : Var) : Json :=
  .object [("name", .string v.name), ("dtype", v.type.toJson)]

def Var.readerIn (lib : Library) : lib.Reader Var :=
  lib.map (fun (name, type) => ⟨name, type⟩)
    (lib.record (.cons "name" lib.string (.single "dtype" (ElementType.readerIn lib))))

def Var.reader : Reader Var := readerIn .builtin

namespace Expr

mutual

def toJson : Expr → Json
  | .int value type => .tagged "IntImm" (.list [.int value.toInt, type.toJson])
  | .float value type => .tagged "FloatImm" (.list [.real value, type.toJson])
  | .bool value => .tagged "BoolImm" (.bool value)
  | .var v => .tagged "Var" v.toJson
  | .load buffer indices => .tagged "Load" (.list [buffer.toJson, .list (listToJson indices)])
  | .arith op l r => .tagged "Binary" (.list [op.toJson, toJson l, toJson r])
  | .compare op l r => .tagged "Compare" (.list [op.toJson, toJson l, toJson r])
  | .unary op e => .tagged "Unary" (.list [op.toJson, toJson e])

/-- The items of an expression list. -/
def listToJson : List Expr → List Json
  | [] => []
  | e :: es => toJson e :: listToJson es

end

/-- Reads expressions that are nested less than `levels` deep. -/
def readerAt (lib : Library) : (levels : Nat) → lib.Reader Expr
  | 0 => lib.refuse
  | levels + 1 =>
      let self := readerAt lib levels
      lib.variant fun
        | "IntImm" => some (.content (lib.map (fun (value, type) => .int value type)
            (lib.pair lib.int64 (ElementType.readerIn lib))))
        | "FloatImm" => some (.content (lib.map (fun (value, type) => .float value type)
            (lib.pair lib.real (ElementType.readerIn lib))))
        | "BoolImm" => some (.content (lib.map .bool lib.bool))
        | "Var" => some (.content (lib.map .var (Var.readerIn lib)))
        | "Load" => some (.content (lib.map (fun (buffer, indices) => .load buffer indices)
            (lib.pair (Buffer.readerIn lib) (lib.list self))))
        | "Binary" => some (.content (lib.map (fun (op, l, r) => .arith op l r)
            (lib.triple (ArithOp.readerIn lib) self self)))
        | "Compare" => some (.content (lib.map (fun (op, l, r) => .compare op l r)
            (lib.triple (CompareOp.readerIn lib) self self)))
        | "Unary" => some (.content (lib.map (fun (op, e) => .unary op e)
            (lib.pair (UnaryOp.readerIn lib) self)))
        | _ => none

/-- Reads expressions. Every level of nesting opens a bracket, so the library's limit is met before
the levels are used up. -/
def readerIn (lib : Library) : lib.Reader Expr :=
  readerAt lib lib.limit

def reader : Reader Expr := readerIn .builtin

end Expr

def Range.toJson (range : Range) : Json :=
  .object [("start", range.start.toJson), ("end", range.stop.toJson)]

def Range.readerIn (lib : Library) : lib.Reader Range :=
  lib.map (fun (start, stop) => ⟨start, stop⟩)
    (lib.record (.cons "start" (Expr.readerIn lib) (.single "end" (Expr.readerIn lib))))

def Range.reader : Reader Range := readerIn .builtin

def IterVar.toJson (v : IterVar) : Json :=
  .object [("var", v.var.toJson), ("range", v.range.toJson)]

def IterVar.readerIn (lib : Library) : lib.Reader IterVar :=
  lib.map (fun (v, range) => ⟨v, range⟩)
    (lib.record (.cons "var" (Var.readerIn lib) (.single "range" (Range.readerIn lib))))

def IterVar.reader : Reader IterVar := readerIn .builtin

def Region.toJson (region : Region) : Json :=
  .object [("buffer", region.buffer.toJson), ("region", .list (region.ranges.map Range.toJson))]

def Region.readerIn (lib : Library) : lib.Reader Region :=
  lib.map (fun (buffer, ranges) => ⟨buffer, ranges⟩)
    (lib.record (.cons "buffer" (Buffer.readerIn lib)
      (.single "region" (lib.list (Range.readerIn lib)))))

def Region.reader : Reader Region := readerIn .builtin

def Store.toJson (store : Store) : Json :=
  .object [("buffer", store.buffer.toJson), ("indices", .list (Expr.listToJson store.indices)),
    ("value", store.value.toJson)]

def Store.readerIn (lib : Library) : lib.Reader Store :=
  lib.map (fun (buffer, indices, value) => ⟨buffer, indices, value⟩)
    (lib.record (.cons "buffer" (Buffer.readerIn lib)
      (.cons "indices" (lib.list (Expr.readerIn lib)) (.single "value" (Expr.readerIn lib)))))

def Store.reader : Reader Store := readerIn .builtin

namespace Block

def toJson (block : Block) : Json :=
  .object [("iter_vars", .list (block.iterVars.map IterVar.toJson)),
    ("reads", .list (block.reads.map Region.toJson)),
    ("writes", .list (block.writes.map Region.toJson)),
    ("name", .string block.name),
    ("body", block.body.toJson)]

def readerIn (lib : Library) : lib.Reader Block :=
  lib.map (fun (iterVars, reads, writes, name, body) => ⟨iterVars, reads, writes, name, body⟩)
    (lib.record (.cons "iter_vars" (lib.list (IterVar.readerIn lib))
      (.cons "reads" (lib.list (Region.readerIn lib))
        (.cons "writes" (lib.list (Region.readerIn lib))
          (.cons "name" lib.string (.single "body" (Store.readerIn lib)))))))

/-- The text of a block in a library. -/
def printIn (lib : Library) (block : Block) : String :=
  lib.print block.toJson

/-- Reads a block from its text in a library. -/
def parseIn (lib : Library) (text : String) : Except Problem Block :=
  lib.parse (readerIn lib) text

/-- The text of a block. -/
def render (block : Block) : String :=
  block.printIn .builtin

/-- Reads a block from its text. -/
def parse (text : String) : Except Problem Block :=
  parseIn .builtin text

end Block

end ArrayKernel.Loop
