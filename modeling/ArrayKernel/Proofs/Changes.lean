import ArrayKernel.Proofs.Reads

/-!
Changes of shapes and reads.

A kernel is compared with changed versions of itself, whose blocks are to be changed versions of its
block. Two kinds of changes are enough to say how: of the shapes of buffers, and of the elements
that are read. All else in a value stays as it is.

* `mapShape`: a change of all shapes of buffers, in scopes, kernels and blocks. Ranges and indices
  are left alone.
* `Loop.Expr.mapLoads`: a change of the reads in a value; `Loop.Load.mapShape` is the one that goes
  with a change of shapes.
* `Lowered.change`: both changes, in what is lowered.
-/

namespace ArrayKernel

open Loop (Expr Load Region Store Block)

/-! ### Shapes -/

/-- The buffer with its shape changed. -/
def Buffer.mapShape (f : Shape → Shape) (buffer : Buffer) : Buffer :=
  ⟨buffer.name, ⟨f buffer.shape, buffer.element⟩⟩

namespace Entry

def mapShape (f : Shape → Shape) : Entry → Entry
  | .array buffer => .array (buffer.mapShape f)
  | .scalar name type => .scalar name type

@[simp] theorem name_mapShape (f : Shape → Shape) (entry : Entry) :
    (entry.mapShape f).name = entry.name := by
  cases entry <;> rfl

end Entry

namespace Scope

/-- The scope with the shapes of all buffers changed. -/
def mapShape (f : Shape → Shape) (scope : Scope) : Scope where
  entries := scope.entries.map (Entry.mapShape f)
  nodup := by simpa [Function.comp_def] using scope.nodup

theorem find?_mapShape (f : Shape → Shape) (scope : Scope) (name : String) :
    (scope.mapShape f).find? name = (scope.find? name).map (Entry.mapShape f) := by
  have named : (fun entry : Entry => entry.name == name) ∘ Entry.mapShape f =
      fun entry => entry.name == name := by
    funext entry
    simp
  rw [find?, mapShape, List.find?_map, named]
  rfl

end Scope

/-- The kernel with its output and its declared shape changed. -/
def Kernel.mapShape (f : Shape → Shape) (kernel : Kernel) : Kernel :=
  ⟨kernel.name, kernel.output.mapShape f, f kernel.declared, kernel.body⟩

def ArrayType.mapShape (f : Shape → Shape) (type : ArrayType) : ArrayType :=
  ⟨f type.shape, type.element⟩

namespace Loop

/-- The expression with its reads changed, and everything else as it is. -/
def Expr.mapLoads (g : Load → Load) : Expr → Expr
  | .int value type => .int value type
  | .float value type => .float value type
  | .bool value => .bool value
  | .var v => .var v
  | .load buffer indices => .load (g ⟨buffer, indices⟩).buffer (g ⟨buffer, indices⟩).indices
  | .arith op lhs rhs => .arith op (lhs.mapLoads g) (rhs.mapLoads g)
  | .compare op lhs rhs => .compare op (lhs.mapLoads g) (rhs.mapLoads g)
  | .unary op operand => .unary op (operand.mapLoads g)

@[simp] theorem Expr.mapLoads_elementwise (g : Load → Load) (op : ArrayOp) (lhs rhs : Expr) :
    (elementwise op lhs rhs).mapLoads g = elementwise op (lhs.mapLoads g) (rhs.mapLoads g) := by
  cases op <;> rfl

/-- A read from the buffer with another shape, at the same indices. -/
def Load.mapShape (f : Shape → Shape) (load : Load) : Load :=
  ⟨load.buffer.mapShape f, load.indices⟩

def Region.mapShape (f : Shape → Shape) (region : Region) : Region :=
  ⟨region.buffer.mapShape f, region.ranges⟩

def Store.mapShape (f : Shape → Shape) (store : Store) : Store :=
  ⟨store.buffer.mapShape f, store.indices, store.value.mapLoads (Load.mapShape f)⟩

/-- The block with the shapes of its buffers changed, over the same loops. -/
def Block.mapShape (f : Shape → Shape) (block : Block) : Block :=
  ⟨block.iterVars, block.reads.map (Region.mapShape f), block.writes.map (Region.mapShape f),
    block.name, block.body.mapShape f⟩

end Loop

/-! ### What is lowered -/

namespace Lowered

/-- Something lowered with its shapes and reads changed. -/
def change (f : Shape → Shape) (g : Load → Load) : Lowered → Lowered
  | .buffer source => .buffer (source.mapShape f)
  | .array value type => .array (value.mapLoads g) (type.mapShape f)
  | .scalar value type => .scalar (value.mapLoads g) type

variable {f : Shape → Shape} {g : Load → Load}

@[simp] theorem change_ofEntry (entry : Entry) :
    (ofEntry entry).change f g = ofEntry (entry.mapShape f) := by
  cases entry <;> rfl

@[simp] theorem change_ofLiteral (value : Source.Literal) :
    (ofLiteral value).change f g = ofLiteral value := by
  cases value <;> rfl

@[simp] theorem change_unary (op : UnaryOp) (value : Expr) (lowered : Lowered) :
    (lowered.unary op value).change f g = (lowered.change f g).unary op (value.mapLoads g) := by
  cases lowered <;> rfl

@[simp] theorem valueType_change (lowered : Lowered) :
    (lowered.change f g).valueType = lowered.valueType := by
  cases lowered <;> rfl

theorem shape_change (scalar : f .scalar = .scalar) (lowered : Lowered) :
    (lowered.change f g).shape = f lowered.shape := by
  cases lowered with
  | buffer source => rfl
  | array value type => rfl
  | scalar value type => exact scalar.symm

end Lowered

end ArrayKernel
