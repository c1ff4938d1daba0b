import ArrayKernel.Proofs.Acceptance

/-!
The types of values.

The operators of loop expressions carry no types. Lowering tracks the type of a value beside the
value, and the two are separate data. Here loop expressions are typed by their own parts, without
conversions, and the type that is tracked turns out to be the type that the value has.

* `Loop.Expr.HasType`, `Loop.Expr.Typed`: types of loop expressions and of all parts of them.
* `Site.lower_typed`: lowered expressions are typed as tracked, and have the least shape for their
  arrays.
* `Kernel.compile_stores_own_type`: a block stores a value of one type, and the element type of the
  output has no say in it.
-/

namespace ArrayKernel

open Loop (Expr Region Block)

/-! ### Types of loop expressions -/

namespace Loop.Expr

/-- `e.HasType type`: the operands of an operator are of the same type, and nothing is converted. -/
inductive HasType : Expr → ElementType → Prop where
  | int {value : Int64} {type : ElementType} : HasType (.int value type) type
  | float {value : Binary64} {type : ElementType} : HasType (.float value type) type
  | bool {value : Bool} : HasType (.bool value) .bool
  | var {v : Var} : HasType (.var v) v.type
  | load {buffer : Buffer} {indices : List Expr} : HasType (.load buffer indices) buffer.element
  | arith {op : ArithOp} {lhs rhs : Expr} {type : ElementType} :
      HasType lhs type → HasType rhs type → HasType (.arith op lhs rhs) type
  | compare {op : CompareOp} {lhs rhs : Expr} {type : ElementType} :
      HasType lhs type → HasType rhs type → HasType (.compare op lhs rhs) .bool
  | not {operand : Expr} {type : ElementType} :
      HasType operand type → HasType (.unary .not operand) .bool
  | keep {op : UnaryOp} {operand : Expr} {type : ElementType} : op ≠ .not →
      HasType operand type → HasType (.unary op operand) type

/-- Is the expression an immediate or a variable? -/
def isAtom : Expr → Bool
  | .int .. | .float .. | .bool _ | .var _ => true
  | .load .. | .arith .. | .compare .. | .unary .. => false

/-- The expression is of type `type`, and each part of it is of some type. -/
structure Typed (e : Expr) (type : ElementType) : Prop where
  hasType : e.HasType type
  parts : ∀ part : Expr, part.PartOf e → ∃ type, part.HasType type

namespace HasType

variable {e lhs rhs operand : Expr} {type type' : ElementType}

theorem unique (h : e.HasType type) (h' : e.HasType type') : type = type' := by
  induction h generalizing type' with
  | arith _ _ ih _ =>
      cases h' with
      | arith left _ => exact ih left
  | keep strict _ ih =>
      cases h' with
      | not => exact absurd rfl strict
      | keep _ operand => exact ih operand
  | not =>
      cases h' with
      | not => rfl
      | keep strict _ => exact absurd rfl strict
  | _ =>
      cases h'
      rfl

theorem elementwise (op : ArrayOp) (left : lhs.HasType type) (right : rhs.HasType type) :
    (Expr.elementwise op lhs rhs).HasType (op.resultType type) := by
  cases op with
  | arith op => exact .arith left right
  | compare op => exact .compare left right

theorem unary (op : UnaryOp) (h : operand.HasType type) :
    (Expr.unary op operand).HasType (op.resultType type) := by
  cases op with
  | not => exact .not h
  | _ => exact .keep (by simp) h

end HasType

namespace Typed

variable {lhs rhs operand : Expr} {type : ElementType}

/-- An immediate or a variable has no other part than itself. -/
theorem atom {e : Expr} (h : e.HasType type) (atomic : e.isAtom = true) : e.Typed type := by
  refine ⟨h, ?_⟩
  intro part inside
  cases inside with
  | whole => exact ⟨type, h⟩
  | _ => cases atomic

theorem load (buffer : Buffer) {indices : List Expr}
    (h : ∀ index ∈ indices, ∃ type, index.Typed type) :
    (Expr.load buffer indices).Typed buffer.element := by
  refine ⟨.load, ?_⟩
  intro part inside
  cases inside with
  | whole => exact ⟨_, .load⟩
  | index mem inside =>
      obtain ⟨_, typed⟩ := h _ mem
      exact typed.parts part inside

theorem elementwise (op : ArrayOp) (left : lhs.Typed type) (right : rhs.Typed type) :
    (Expr.elementwise op lhs rhs).Typed (op.resultType type) := by
  have whole := left.hasType.elementwise op right.hasType
  refine ⟨whole, ?_⟩
  intro part inside
  cases op with
  | arith op =>
      cases inside with
      | whole => exact ⟨_, whole⟩
      | arithLeft inside => exact left.parts part inside
      | arithRight inside => exact right.parts part inside
  | compare op =>
      cases inside with
      | whole => exact ⟨_, whole⟩
      | compareLeft inside => exact left.parts part inside
      | compareRight inside => exact right.parts part inside

theorem unary (op : UnaryOp) (h : operand.Typed type) :
    (Expr.unary op operand).Typed (op.resultType type) := by
  have whole := h.hasType.unary op
  refine ⟨whole, ?_⟩
  intro part inside
  cases inside with
  | whole => exact ⟨_, whole⟩
  | unary inside => exact h.parts part inside

end Typed

end Loop.Expr

/-! ### What is lowered -/

def ValueType.element : ValueType → ElementType
  | .scalar element => element
  | .array element => element

/-- The value that was lowered is of the type that is tracked for it. A buffer has no value until it
is read. -/
def Lowered.Typed : Lowered → Prop
  | .buffer _ => True
  | .array value type => value.Typed type.element
  | .scalar value type => value.Typed type

namespace Lowered

theorem typed_ofEntry (entry : Entry) : (ofEntry entry).Typed := by
  cases entry with
  | array buffer => trivial
  | scalar name type => exact Expr.Typed.atom .var rfl

theorem typed_ofLiteral (value : Source.Literal) : (ofLiteral value).Typed := by
  cases value with
  | int value => exact .atom .int rfl
  | float value => exact .atom .float rfl
  | bool value => exact .atom .bool rfl

theorem typed_unary {lowered : Lowered} {value : Expr} (op : UnaryOp)
    (h : value.Typed lowered.valueType.element) : (lowered.unary op value).Typed := by
  cases lowered <;> exact h.unary op

end Lowered

namespace Site

variable {scope : Scope} {symbols : Symbols} {ops : List ArrayOp} {loops : List Loop.IterVar}
  {indexType : ElementType} {e : Source.Expr} {lowered : Lowered} {reads : List Region}

theorem exists_typed_of_mem_indices {site : Site} {access : Shape} {index : Expr}
    (h : index ∈ site.indices access) : ∃ type, index.Typed type := by
  rcases eq_of_mem_indices h with ⟨loop, rfl⟩ | rfl
  · exact ⟨_, .atom .var rfl⟩
  · exact ⟨_, .atom .int rfl⟩

/-- What is read of something lowered is of the type that is tracked for it, at whatever shape it is
read. -/
theorem Materializes.typed {site : Site} {access : Shape} {value : Expr}
    (h : site.Materializes access lowered value reads) (typed : lowered.Typed) :
    value.Typed lowered.valueType.element := by
  cases h with
  | buffer => exact .load _ fun _ => exists_typed_of_mem_indices
  | array => exact typed
  | scalar => exact typed

theorem Lowers.typed (h : Lowers ⟨⟨scope, symbols, .elementwise ops⟩, loops, indexType⟩ e lowered
    reads) : lowered.Typed := by
  induction h with
  | name => exact Lowered.typed_ofEntry _
  | literal => exact Lowered.typed_ofLiteral _
  | elementwise _ _ hinst hlv hrv ihl ihr =>
      obtain ⟨_, element, shape, ltype, rtype, _, rfl⟩ :=
        OperatorTable.resolve_elementwise_eq_ok_iff.mp hinst
      have left := hlv.typed ihl
      have right := hrv.typed ihr
      rw [ltype] at left
      rw [rtype] at right
      exact left.elementwise _ right
  | unary _ hv ih => exact Lowered.typed_unary _ (hv.typed ih)

/-- **Lowered values are typed as tracked, without conversions.** The value and every part of it
have a type, and the type of the value is the one that is tracked; a buffer, which has no value yet,
is of the type that is tracked at whatever shape it is then read. The shape that is tracked is the
least one for all arrays of the expression. -/
theorem lower_typed {out : Emitted Lowered}
    (h : (lower ⟨⟨scope, symbols, .elementwise ops⟩, loops, indexType⟩ e).result = .ok out) :
    out.value.Typed ∧
      (∀ access read,
        (materialize ⟨⟨scope, symbols, .elementwise ops⟩, loops, indexType⟩ access
          out.value).result = .ok read → read.value.Typed out.value.valueType.element) ∧
      Shape.IsCommonBroadcast (e.leaves scope) out.value.shape := by
  have lowers := Lowers.of_lower h
  refine ⟨lowers.typed, ?_, lowers.isCommonBroadcast⟩
  intro access read hread
  exact (materialize_eq_ok_iff.mp hread).typed lowers.typed

/-- A negated sum is true or false, whatever is summed. -/
theorem lower_typed_negated :
    ∃ out, (lower ⟨AddColumn.env, AddColumn.block.iterVars, .int64⟩
        (.unary .not AddColumn.value)).result = .ok out ∧
      out.value.valueType = .array .bool ∧
      (Expr.unary .not AddColumn.block.body.value).Typed .bool ∧
      Shape.IsCommonBroadcast [AddColumn.total.shape, AddColumn.column.shape] out.value.shape := by
  have lowered : (lower ⟨AddColumn.env, AddColumn.block.iterVars, .int64⟩
      (.unary .not AddColumn.value)).result =
        .ok ⟨.array (.unary .not AddColumn.block.body.value) ⟨AddColumn.total.shape, .bool⟩,
          AddColumn.block.reads⟩ := rfl
  obtain ⟨typed, _, common⟩ := lower_typed lowered
  exact ⟨_, lowered, rfl, typed, common⟩

end Site

/-! ### What is stored -/

/-- The buffer with other elements. -/
def Buffer.withElement (element : ElementType) (buffer : Buffer) : Buffer :=
  ⟨buffer.name, ⟨buffer.shape, element⟩⟩

/-- The block with an output of other elements. Its loops, its reads and the value are kept. -/
def Loop.Block.withElement (element : ElementType) (block : Block) : Block :=
  { block with
    writes := block.writes.map fun region => ⟨region.buffer.withElement element, region.ranges⟩
    body := ⟨block.body.buffer.withElement element, block.body.indices, block.body.value⟩ }

namespace Kernel

variable {kernel : Kernel} {env : Environment} {settings : Settings} {block : Block}

/-- The kernel with an output of other elements. -/
def withElement (element : ElementType) (kernel : Kernel) : Kernel :=
  { kernel with output := kernel.output.withElement element }

/-- No rule looks at the elements of the output, under any operator table. -/
theorem Lowers.withElement (h : kernel.Lowers env settings block) (element : ElementType) :
    (kernel.withElement element).Lowers env settings (block.withElement element) := by
  cases h with
  | intro returns declared looped lowered same copies value =>
      exact .intro returns declared looped lowered same copies value

variable {scope : Scope} {symbols : Symbols} {ops : List ArrayOp}

/-- **A block stores a value of the type that the kernel's expression has.** The value is not
converted on the way, and nothing compares its type with the elements of the output: the store is of
one type exactly if the output was declared with it, and with any other elements the same kernel is
compiled to the same block. -/
theorem compile_stores_own_type
    (h : kernel.compile ⟨scope, symbols, .elementwise ops⟩ settings = .ok block) :
    ∃ e type, kernel.body = .ret (some e) ∧ e.HasType scope ops type ∧
      block.body.value.Typed type.element ∧ block.body.buffer = kernel.output ∧
      (block.body.value.HasType kernel.output.element ↔ kernel.output.element = type.element) ∧
      ∀ element, (kernel.withElement element).compile ⟨scope, symbols, .elementwise ops⟩ settings =
        .ok (block.withElement element) := by
  have lowers := compile_eq_ok_iff.mp h
  have frame : ∀ element, (kernel.withElement element).compile ⟨scope, symbols, .elementwise ops⟩
      settings = .ok (block.withElement element) :=
    fun element => compile_eq_ok_iff.mpr (lowers.withElement element)
  obtain @⟨e, _, lowered, value, _, _, returns, _, _, hlowered, _, _, hvalue⟩ := lowers
  have typed : value.Typed lowered.valueType.element := hvalue.typed hlowered.typed
  refine ⟨e, lowered.valueType, returns, hlowered.hasType, typed, rfl, ?_, frame⟩
  constructor
  · intro same
    exact same.unique typed.hasType
  · intro same
    rw [same]
    exact typed.hasType

theorem compile_stores_own_type_addColumn :
    AddColumn.block.body.value.Typed .int64 ∧
      (AddColumn.kernel.withElement .bool).compile AddColumn.env {} =
        .ok (AddColumn.block.withElement .bool) := by
  have compiled : AddColumn.kernel.compile AddColumn.env {} = .ok AddColumn.block := rfl
  obtain ⟨_, _, _, _, typed, _, own, frame⟩ := compile_stores_own_type compiled
  have stored : AddColumn.block.body.value.HasType .int64 := .arith .load .load
  rw [← own.mp stored] at typed
  exact ⟨typed, frame .bool⟩

end Kernel

/-! ### A store that converts -/

namespace Truncation

def source : Buffer := ⟨"x", ⟨⟨[.const 4]⟩, .float32⟩⟩

def output : Buffer := ⟨"out", ⟨⟨[.const 4]⟩, .int32⟩⟩

/-- Copies reals where integers are expected. -/
def kernel : Kernel := ⟨"truncate", output, output.shape, .ret (some (.name "x"))⟩

def env : Environment :=
  ⟨Scope.empty.insert (.array source), .empty, .elementwise ArrayOp.all⟩

end Truncation

/-- The value of a compiled kernel need not be of the type of the output's elements. -/
theorem Kernel.compile_truncation : ∃ block,
    Truncation.kernel.compile Truncation.env {} = .ok block ∧
      block.body.value.HasType .float32 ∧
        ¬ block.body.value.HasType block.body.buffer.element := by
  refine ⟨_, rfl, .load, ?_⟩
  intro converted
  have same : ElementType.int32 = .float32 := converted.unique .load
  cases same

end ArrayKernel
