import ArrayKernel.Kernel
import ArrayKernel.Loop.Access
import ArrayKernel.Shape.Ranges

/-!
The lowering of kernels to loop blocks.

A kernel's value is computed one element at a time, at every point of its output. Names of arrays
are not read where they stand: an operator decides the shape at which its operands are read, so a
buffer stays unread until the operator that uses it is known. The read regions are collected in
the order of the reads.
-/

namespace ArrayKernel

open Loop (Expr IterVar Region Block)

/-- What an expression is lowered to, at one point of the iteration space. -/
inductive Lowered where
  /-- A buffer that has not been read yet. -/
  | buffer (source : Buffer)
  /-- An element of an array that operators have computed. -/
  | array (value : Expr) (type : ArrayType)
  | scalar (value : Expr) (type : ElementType)

namespace Lowered

/-- The operand that array operators see. -/
def operand : Lowered → Operand
  | .buffer source => .stored source
  | .array _ type => .computed type
  | .scalar _ type => .scalar type

def shape : Lowered → Shape
  | .buffer source => source.shape
  | .array _ type => type.shape
  | .scalar _ _ => .scalar

/-- Literals are scalars of their own type. -/
def ofLiteral : Source.Literal → Lowered
  | .int value => .scalar (.int value .int64) .int64
  | .float value => .scalar (.float value .float64) .float64
  | .bool value => .scalar (.bool value) .bool

/-- An array in scope is left unread, and a scalar is a variable. -/
def ofEntry : Entry → Lowered
  | .array source => .buffer source
  | .scalar name type => .scalar (.var ⟨name, type⟩) type

end Lowered

/-- Something lowered, with the regions that were read for it. -/
structure Emitted (α : Type) where
  value : α
  reads : List Region

/-- Where expressions are lowered: the environment and the loops around them. -/
structure Site where
  env : Environment
  iterVars : List IterVar
  indexType : ElementType

namespace Site

/-- The loops around a site that run over the last `rank` dimensions. -/
def innermost (site : Site) (rank : Nat) : List IterVar :=
  site.iterVars.drop (site.iterVars.length - rank)

/-- The index of a dimension read under a loop: an extent of one stays at zero under a loop that
is not known to have one iteration only, and any other follows the loop. -/
def index (site : Site) (dim : Dim) (loop : IterVar) : Expr :=
  if dim = .const 1 ∧ loop.range.extent? ≠ some 1 then .int 0 site.indexType else .var loop.var

/-- The indices of an array of shape `access`, which is aligned with the innermost loops. -/
def indices (site : Site) (access : Shape) : List Expr :=
  List.zipWith site.index access.retained (site.innermost access.rank)

/-- Reads a buffer at the current point, as an array of shape `access`. -/
def read (site : Site) (buffer : Buffer) (access : Shape) : Traced (Emitted Expr) :=
  if site.iterVars.length < buffer.rank then
    .fail (.tooManyDims buffer site.iterVars.length)
  else if access.rank ≠ buffer.rank then
    .fail (.accessRank access buffer)
  else do
    let value ← Traced.lift (buffer.load (site.indices access))
    let ranges ← access.traceRanges site.env.symbols site.indexType
    Traced.emit (.read buffer.name access)
    pure ⟨value, [⟨buffer, ranges⟩]⟩

/-- The value of an operand that is used as an array of shape `access`: a buffer is read now. -/
def materialize (site : Site) (access : Shape) : Lowered → Traced (Emitted Expr)
  | .buffer source => site.read source access
  | .array value _ => pure ⟨value, []⟩
  | .scalar value _ => pure ⟨value, []⟩

/-- Applies an array operator: the operands are read, left before right, at the shapes that the
operator table asks for. -/
def applyArray (site : Site) (op : ArrayOp) (lhs rhs : Lowered) : Traced (Emitted Lowered) := do
  let inst ← Traced.lift (site.env.operators.resolve lhs.operand rhs.operand op)
  let l ← site.materialize inst.lhsAccess lhs
  let r ← site.materialize inst.rhsAccess rhs
  pure ⟨.array (.elementwise op l.value r.value) inst.result, l.reads ++ r.reads⟩

/-- Applies a unary operator: a buffer is read at its own shape. -/
def applyUnary (site : Site) (op : UnaryOp) : Lowered → Traced (Emitted Lowered)
  | .buffer source => do
      let e ← site.read source source.shape
      pure ⟨.array (.unary op e.value) ⟨source.shape, op.resultType source.element⟩, e.reads⟩
  | .array value type =>
      pure ⟨.array (.unary op value) ⟨type.shape, op.resultType type.element⟩, []⟩
  | .scalar value type => pure ⟨.scalar (.unary op value) (op.resultType type), []⟩

/-- Lowers an expression; operands come before their operator, and left ones before right ones. -/
def lower (site : Site) : Source.Expr → Traced (Emitted Lowered)
  | .name id =>
      match site.env.scope.find? id with
      | some entry => pure ⟨.ofEntry entry, []⟩
      | none => .fail (.unknownName id)
  | .literal value => pure ⟨.ofLiteral value, []⟩
  | .arith op lhs rhs => do
      let l ← site.lower lhs
      let r ← site.lower rhs
      let e ← site.applyArray (.arith op) l.value r.value
      pure ⟨e.value, l.reads ++ r.reads ++ e.reads⟩
  | .compare lhs [(op, rhs)] => do
      let l ← site.lower lhs
      let r ← site.lower rhs
      let e ← site.applyArray (.compare op) l.value r.value
      pure ⟨e.value, l.reads ++ r.reads ++ e.reads⟩
  | .compare _ [] => .fail .comparisonEmpty
  | .compare _ (first :: second :: others) =>
      .fail (.comparisonChained (first :: second :: others).length)
  | .unary op operand => do
      let o ← site.lower operand
      let e ← site.applyUnary op o.value
      pure ⟨e.value, o.reads ++ e.reads⟩
  | .logic operands => .fail (.expression (Source.Expr.logic operands).kind)
  | .conditional test body orelse =>
      .fail (.expression (Source.Expr.conditional test body orelse).kind)
  | .call callee args => .fail (.expression (Source.Expr.call callee args).kind)
  | .attribute value attr => .fail (.expression (Source.Expr.attribute value attr).kind)
  | .subscript value index => .fail (.expression (Source.Expr.subscript value index).kind)
  | .lambda params body => .fail (.expression (Source.Expr.lambda params body).kind)
  | .tuple items => .fail (.expression (Source.Expr.tuple items).kind)
  | .list items => .fail (.expression (Source.Expr.list items).kind)

/-- The value that is stored in `output`: its shape must be the output's. A buffer that has not
been read by any operator is read at its own shape, if copies are allowed. -/
def finish (site : Site) (copies : Bool) (output : Buffer) (lowered : Lowered) :
    Traced (Emitted Expr) :=
  if lowered.shape.sameRetained output.shape then
    match lowered with
    | .array value _ => pure ⟨value, []⟩
    | .buffer source =>
        if copies then site.read source source.shape else .fail (.bareBuffer source.name)
    | .scalar value _ => pure ⟨value, []⟩
  else .fail (.resultShape output.shape lowered.shape)

end Site

namespace Kernel

/-- Accepts a kernel whose output has the declared shape. -/
def checkDeclared (kernel : Kernel) : Except Fault Unit :=
  if kernel.output.shape = kernel.declared then .ok ()
  else .error (.declaredShape kernel.output.shape kernel.declared)

/-- Lowers a kernel to a block: loops over the output's shape around a store of the returned
value. -/
def lower (kernel : Kernel) (env : Environment) (settings : Settings) : Traced Block := do
  let returned ← Traced.lift kernel.returned
  Traced.lift kernel.checkDeclared
  let ranges ← kernel.output.shape.traceRanges env.symbols settings.indexType
  let iterVars := settings.iterVars ranges
  Traced.emit (.loops kernel.name iterVars.length kernel.output.shape)
  let site : Site := ⟨env, iterVars, settings.indexType⟩
  let lowered ← site.lower returned
  let stored ← site.finish settings.copies kernel.output lowered.value
  let reads := lowered.reads ++ stored.reads
  Traced.emit (.body kernel.name reads.length)
  let body ← Traced.lift (kernel.output.store (iterVars.map fun loop => .var loop.var) stored.value)
  pure ⟨iterVars, reads, [⟨kernel.output, ranges⟩], kernel.name, body⟩

/-- The block of a kernel, or a report that names the kernel. -/
def compile (kernel : Kernel) (env : Environment) (settings : Settings) :
    Except Diagnostic Block :=
  match (kernel.lower env settings).result with
  | .ok block => .ok block
  | .error fault => .error (fault.diagnostic.inKernel kernel.name)

end Kernel

end ArrayKernel
