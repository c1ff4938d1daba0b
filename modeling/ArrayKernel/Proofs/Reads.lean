import ArrayKernel.Proofs.Derivation

/-!
The reads of a lowered value.

`Loop.Expr.loads` lists the elements that an expression reads, in the order in which lowering
materializes operands: an operator's operands are read after everything inside them. Lowering
records one region for each, in this order.

* `Loop.Expr.PartOf`: what stands in an expression.
* `Site.Lowers.recorded`, `Kernel.Lowers.recorded`: each load is recorded as a region of its buffer,
  at the shape that gave its indices. What else is known of loads is a parameter: any relation that
  the operator table keeps (`OperatorTable.Keeps`).
* `OperatorTable.resolve_elementwise_eq_ok_iff`: what an elementwise table answers.
* `Kernel.Lowers.elementwise`: with an elementwise table, every buffer is read at its own shape, and
  that shape broadcasts to the output's.
-/

namespace ArrayKernel

open Loop (Expr Region Block)

namespace Loop

/-- An element of a buffer that an expression reads. -/
structure Load where
  buffer : Buffer
  indices : List Expr

namespace Expr

/-- `part.PartOf e`: `part` stands in `e`, at any depth and also inside of indices. -/
inductive PartOf (part : Expr) : Expr → Prop where
  | whole : PartOf part part
  | index {buffer : Buffer} {indices : List Expr} {index : Expr} : index ∈ indices →
      PartOf part index → PartOf part (.load buffer indices)
  | arithLeft {op : ArithOp} {lhs rhs : Expr} : PartOf part lhs → PartOf part (.arith op lhs rhs)
  | arithRight {op : ArithOp} {lhs rhs : Expr} : PartOf part rhs → PartOf part (.arith op lhs rhs)
  | compareLeft {op : CompareOp} {lhs rhs : Expr} :
      PartOf part lhs → PartOf part (.compare op lhs rhs)
  | compareRight {op : CompareOp} {lhs rhs : Expr} :
      PartOf part rhs → PartOf part (.compare op lhs rhs)
  | unary {op : UnaryOp} {operand : Expr} : PartOf part operand → PartOf part (.unary op operand)

/-- The read that an expression is, if it is one. -/
def pending : Expr → List Load
  | .load buffer indices => [⟨buffer, indices⟩]
  | .int .. | .float .. | .bool _ | .var _ | .arith .. | .compare .. | .unary .. => []

/-- The reads inside an expression that is not a read itself. -/
def settled : Expr → List Load
  | .int .. | .float .. | .bool _ | .var _ | .load .. => []
  | .arith _ lhs rhs => lhs.settled ++ rhs.settled ++ lhs.pending ++ rhs.pending
  | .compare _ lhs rhs => lhs.settled ++ rhs.settled ++ lhs.pending ++ rhs.pending
  | .unary _ operand => operand.settled ++ operand.pending

/-- All reads of an expression, in the order of materialization. -/
def loads (e : Expr) : List Load :=
  e.settled ++ e.pending

@[simp] theorem pending_elementwise (op : ArrayOp) (lhs rhs : Expr) :
    (elementwise op lhs rhs).pending = [] := by
  cases op <;> rfl

@[simp] theorem settled_elementwise (op : ArrayOp) (lhs rhs : Expr) :
    (elementwise op lhs rhs).settled =
      lhs.settled ++ rhs.settled ++ (lhs.pending ++ rhs.pending) := by
  cases op <;> simp [elementwise, settled]

end Expr

end Loop

namespace Lowered

/-- The reads inside the value of something lowered. -/
def settled : Lowered → List Loop.Load
  | .buffer _ => []
  | .array value _ | .scalar value _ => value.settled

/-- Has everything been read but a buffer that stands alone? -/
def IsSettled : Lowered → Prop
  | .buffer _ => True
  | .array value _ | .scalar value _ => value.pending = []

@[simp] theorem settled_unary (op : UnaryOp) (value : Expr) (lowered : Lowered) :
    (lowered.unary op value).settled = value.settled ++ value.pending := by
  cases lowered <;> rfl

theorem isSettled_unary (op : UnaryOp) (value : Expr) (lowered : Lowered) :
    (lowered.unary op value).IsSettled := by
  cases lowered <;> rfl

theorem shape_eq_of_arrayType? {lowered : Lowered} {type : ArrayType}
    (h : lowered.operand.arrayType? = some type) : type.shape = lowered.shape := by
  cases lowered <;> cases h <;> rfl

end Lowered

/-- What a table answers for operands is what it answers for their array types. -/
theorem OperatorTable.resolve_eq_ok_iff {table : OperatorTable} {lhs rhs : Operand} {op : ArrayOp}
    {inst : OperatorInstance} :
    table.resolve lhs rhs op = .ok inst ↔
      ∃ l r, lhs.arrayType? = some l ∧ rhs.arrayType? = some r ∧ table l r op = some inst := by
  unfold resolve
  split
  · next l r hl hr =>
      simp only [hl, hr, Option.some.injEq, exists_eq_left', ↓existsAndEq, true_and]
      split <;> simp_all
  · next none =>
      simp only [reduceCtorEq, false_iff, not_exists, not_and]
      intro l r hl hr
      exact absurd hr (none l r hl)

/-! ### Reads are recorded -/

/-- A relation of the shape of a value, a buffer that is read for it and the shape of this read,
which holds of bare buffers and is kept by the operators of a table. -/
structure OperatorTable.Keeps (table : OperatorTable) (R : Shape → Buffer → Shape → Prop) :
    Prop where
  own : ∀ source : Buffer, R source.shape source source.shape
  lhs : ∀ {source : Buffer} {r : ArrayType} {op : ArrayOp} {inst : OperatorInstance},
    table source.type r op = some inst → R inst.result.shape source inst.lhsAccess
  rhs : ∀ {l : ArrayType} {source : Buffer} {op : ArrayOp} {inst : OperatorInstance},
    table l source.type op = some inst → R inst.result.shape source inst.rhsAccess
  left : ∀ {l r : ArrayType} {op : ArrayOp} {inst : OperatorInstance}, table l r op = some inst →
    ∀ {source : Buffer} {access : Shape}, R l.shape source access →
      R inst.result.shape source access
  right : ∀ {l r : ArrayType} {op : ArrayOp} {inst : OperatorInstance}, table l r op = some inst →
    ∀ {source : Buffer} {access : Shape}, R r.shape source access →
      R inst.result.shape source access

/-- Every table keeps the relation that says nothing. -/
theorem OperatorTable.keeps_true (table : OperatorTable) : table.Keeps fun _ _ _ => True where
  own _ := trivial
  lhs _ := trivial
  rhs _ := trivial
  left _ _ _ _ := trivial
  right _ _ _ _ := trivial

namespace Site

variable {site : Site}

/-- The load was made at a shape that is related to its buffer, and `region` records it. -/
def Recorded (site : Site) (R : Buffer → Shape → Prop) (load : Loop.Load) (region : Region) :
    Prop :=
  ∃ access, load.indices = site.indices access ∧ site.ReadsAt load.buffer access region ∧
    R load.buffer access

theorem Recorded.imp {R S : Buffer → Shape → Prop}
    (weaken : ∀ source access, R source access → S source access) {load : Loop.Load}
    {region : Region} (h : site.Recorded R load region) : site.Recorded S load region := by
  obtain ⟨access, indices, reads, related⟩ := h
  exact ⟨access, indices, reads, weaken _ _ related⟩

/-- What materializing adds to the reads: nothing inside the value, and the value's own read. -/
theorem Materializes.recorded {R S : Buffer → Shape → Prop} {access : Shape} {lowered : Lowered}
    {value : Expr} {reads reads' : List Region} (h : site.Materializes access lowered value reads')
    (settled : lowered.IsSettled)
    (inside : List.Forall₂ (site.Recorded R) lowered.settled reads)
    (weaken : ∀ source access, R source access → S source access)
    (own : ∀ source, lowered = .buffer source → S source access) :
    List.Forall₂ (site.Recorded S) value.settled reads ∧
      List.Forall₂ (site.Recorded S) value.pending reads' := by
  have inside := inside.imp fun _ _ => Recorded.imp weaken
  cases h with
  | buffer reads => exact ⟨inside, .cons ⟨access, rfl, reads, own _ rfl⟩ .nil⟩
  | array =>
      simp only [Lowered.IsSettled] at settled
      exact ⟨inside, by simp [settled]⟩
  | scalar =>
      simp only [Lowered.IsSettled] at settled
      exact ⟨inside, by simp [settled]⟩

theorem Lowers.isSettled {e : Source.Expr} {lowered : Lowered} {reads : List Region}
    (h : site.Lowers e lowered reads) : lowered.IsSettled := by
  cases h with
  | name => rename_i entry _; cases entry <;> trivial
  | literal => rename_i value; cases value <;> rfl
  | elementwise => exact Loop.Expr.pending_elementwise ..
  | unary => exact Lowered.isSettled_unary ..

/-- **Every load is recorded, in order**, whatever the operator table. -/
theorem Lowers.recorded {R : Shape → Buffer → Shape → Prop}
    (keeps : site.env.operators.Keeps R) {e : Source.Expr} {lowered : Lowered}
    {reads : List Region} (h : site.Lowers e lowered reads) :
    List.Forall₂ (site.Recorded (R lowered.shape)) lowered.settled reads := by
  induction h with
  | name => rename_i entry _; cases entry <;> exact .nil
  | literal => rename_i value; cases value <;> exact .nil
  | elementwise hl hr hinst hlv hrv ihl ihr =>
      obtain ⟨lt, rt, hlt, hrt, answer⟩ := OperatorTable.resolve_eq_ok_iff.mp hinst
      obtain ⟨inl, atl⟩ := hlv.recorded hl.isSettled ihl
        (fun _ _ related => keeps.left answer (by rwa [Lowered.shape_eq_of_arrayType? hlt]))
        (by rintro source rfl; cases hlt; exact keeps.lhs answer)
      obtain ⟨inr, atr⟩ := hrv.recorded hr.isSettled ihr
        (fun _ _ related => keeps.right answer (by rwa [Lowered.shape_eq_of_arrayType? hrt]))
        (by rintro source rfl; cases hrt; exact keeps.rhs answer)
      simp only [Lowered.settled, Loop.Expr.settled_elementwise]
      exact List.rel_append (List.rel_append inl inr) (List.rel_append atl atr)
  | unary ho hv ih =>
      obtain ⟨ino, ato⟩ := hv.recorded ho.isSettled ih (fun _ _ => id)
        (by rintro source rfl; exact keeps.own source)
      simpa using List.rel_append ino ato

end Site

/-- The reads of a whole block: those inside the returned value, and its own if it is a buffer. -/
theorem Kernel.Lowers.recorded {kernel : Kernel} {env : Environment} {settings : Settings}
    {R : Shape → Buffer → Shape → Prop} (keeps : env.operators.Keeps R) {block : Block}
    (h : kernel.Lowers env settings block) :
    ∃ ranges shape, kernel.output.shape.ranges env.symbols settings.indexType = .ok ranges ∧
      block.iterVars = settings.iterVars ranges ∧ shape.retained = kernel.output.shape.retained ∧
      List.Forall₂ ((site env settings ranges).Recorded (R shape)) block.body.value.loads
        block.reads := by
  obtain @⟨e, ranges, lowered, value, reads, reads', _, _, hranges, hlowered, same, _, hvalue⟩ := h
  obtain ⟨inside, own⟩ := hvalue.recorded hlowered.isSettled (hlowered.recorded keeps)
    (fun _ _ => id) (by rintro source rfl; exact keeps.own source)
  exact ⟨ranges, lowered.shape, hranges, rfl, same, List.rel_append inside own⟩

/-! ### Elementwise tables -/

theorem OperatorTable.elementwise_eq_some_iff {ops : List ArrayOp} {l r : ArrayType} {op : ArrayOp}
    {inst : OperatorInstance} :
    elementwise ops l r op = some inst ↔
      op ∈ ops ∧ l.element = r.element ∧ ∃ shape, l.shape.broadcast r.shape = some shape ∧
        inst = ⟨⟨shape, op.resultType l.element⟩, l.shape, r.shape⟩ := by
  unfold elementwise
  split
  · next known => simp [known, Option.map_eq_some_iff, eq_comm (a := inst)]
  · next unknown =>
      simp only [reduceCtorEq, false_iff, not_and, not_exists]
      intro mem same
      exact absurd ⟨mem, same⟩ unknown

/-- The type of a value: is it a scalar or an array, and of what elements? -/
inductive ValueType where
  | scalar (element : ElementType)
  | array (element : ElementType)
deriving DecidableEq

namespace ValueType

/-- Changes the element type. -/
def map (f : ElementType → ElementType) : ValueType → ValueType
  | .scalar element => .scalar (f element)
  | .array element => .array (f element)

end ValueType

namespace Lowered

/-- The type of something lowered. -/
def valueType : Lowered → ValueType
  | .buffer source => .array source.element
  | .array _ type => .array type.element
  | .scalar _ type => .scalar type

theorem valueType_eq_of_arrayType? {lowered : Lowered} {type : ArrayType}
    (h : lowered.operand.arrayType? = some type) : lowered.valueType = .array type.element := by
  cases lowered <;> cases h <;> rfl

theorem arrayType?_eq_of_valueType {lowered : Lowered} {element : ElementType}
    (h : lowered.valueType = .array element) :
    lowered.operand.arrayType? = some ⟨lowered.shape, element⟩ := by
  cases lowered <;> cases h <;> rfl

end Lowered

/-- **What an elementwise operator does with operands**: they are arrays of the same elements whose
shapes broadcast, and each is read at its own shape. -/
theorem OperatorTable.resolve_elementwise_eq_ok_iff {ops : List ArrayOp} {l r : Lowered}
    {op : ArrayOp} {inst : OperatorInstance} :
    (elementwise ops).resolve l.operand r.operand op = .ok inst ↔
      op ∈ ops ∧ ∃ element shape, l.valueType = .array element ∧ r.valueType = .array element ∧
        l.shape.broadcast r.shape = some shape ∧
        inst = ⟨⟨shape, op.resultType element⟩, l.shape, r.shape⟩ := by
  rw [resolve_eq_ok_iff]
  constructor
  · rintro ⟨lt, rt, hlt, hrt, answer⟩
    obtain ⟨known, same, shape, hshape, rfl⟩ := elementwise_eq_some_iff.mp answer
    have ltype := Lowered.valueType_eq_of_arrayType? hlt
    have rtype := Lowered.valueType_eq_of_arrayType? hrt
    rw [← same] at rtype
    rw [Lowered.shape_eq_of_arrayType? hlt, Lowered.shape_eq_of_arrayType? hrt] at hshape ⊢
    exact ⟨known, lt.element, shape, ltype, rtype, hshape, rfl⟩
  · rintro ⟨known, element, shape, ltype, rtype, hshape, rfl⟩
    exact ⟨_, _, Lowered.arrayType?_eq_of_valueType ltype, Lowered.arrayType?_eq_of_valueType rtype,
      elementwise_eq_some_iff.mpr ⟨known, rfl, shape, hshape, rfl⟩⟩

/-- Elementwise operators read buffers at their own shapes, which broadcast to the result's. -/
theorem OperatorTable.elementwise_keeps (ops : List ArrayOp) :
    (elementwise ops).Keeps fun shape source access =>
      access = source.shape ∧ source.shape.BroadcastsTo shape where
  own source := ⟨rfl, .refl _⟩
  lhs answer := by
    obtain ⟨_, _, shape, hshape, rfl⟩ := elementwise_eq_some_iff.mp answer
    exact ⟨rfl, (Shape.broadcastsTo_of_broadcast hshape).1⟩
  rhs answer := by
    obtain ⟨_, _, shape, hshape, rfl⟩ := elementwise_eq_some_iff.mp answer
    exact ⟨rfl, (Shape.broadcastsTo_of_broadcast hshape).2⟩
  left answer := by
    obtain ⟨_, _, shape, hshape, rfl⟩ := elementwise_eq_some_iff.mp answer
    rintro source access ⟨own, below⟩
    exact ⟨own, below.trans (Shape.broadcastsTo_of_broadcast hshape).1⟩
  right answer := by
    obtain ⟨_, _, shape, hshape, rfl⟩ := elementwise_eq_some_iff.mp answer
    rintro source access ⟨own, below⟩
    exact ⟨own, below.trans (Shape.broadcastsTo_of_broadcast hshape).2⟩

/-- A block of elementwise operators reads every buffer at its own shape, which broadcasts to the
output's. -/
theorem Kernel.Lowers.elementwise {kernel : Kernel} {scope : Scope} {symbols : Symbols}
    {ops : List ArrayOp} {settings : Settings} {block : Block}
    (h : kernel.Lowers ⟨scope, symbols, .elementwise ops⟩ settings block) :
    ∃ ranges, kernel.output.shape.ranges symbols settings.indexType = .ok ranges ∧
      block.iterVars = settings.iterVars ranges ∧
      List.Forall₂ ((site ⟨scope, symbols, .elementwise ops⟩ settings ranges).Recorded
        fun source access => access = source.shape ∧
          source.shape.BroadcastsTo kernel.output.shape) block.body.value.loads block.reads := by
  obtain ⟨ranges, shape, hranges, hloops, same, recorded⟩ :=
    h.recorded (OperatorTable.elementwise_keeps ops)
  refine ⟨ranges, hranges, hloops, recorded.imp fun _ _ => Site.Recorded.imp ?_⟩
  rintro source access ⟨own, below⟩
  exact ⟨own, below.trans (.of_retained_eq same)⟩

end ArrayKernel
