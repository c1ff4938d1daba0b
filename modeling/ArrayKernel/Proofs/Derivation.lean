import ArrayKernel.Kernel.Lowering
import ArrayKernel.Proofs.Ranges

/-!
Lowering as a relation.

`Site.Lowers` and `Kernel.Lowers` are inductive descriptions of successful lowerings, for any
operator table. They have one rule for each form of expression and leave out everything about
events, faults and the order of checks. Reading is in one place, `Site.Materializes`: the operands
of an operator and the value of the kernel get their elements by it alone.

* `Site.lower_eq_ok_iff`, `Kernel.compile_eq_ok_iff`: the functions succeed exactly with what the
  relations derive. Later proofs go by induction on derivations.
* `AddColumn`: a kernel that reads what it writes, broadcasts and has a symbolic extent, with its
  block. It is the running example of the modules that follow; `Copy` is the one for single shapes.
-/

namespace ArrayKernel

open Loop (Expr IterVar Region Block)

/-- A traced computation in two parts succeeds if both do. -/
theorem Traced.result_bind_eq_ok_iff {α β : Type} {x : Traced α} {f : α → Traced β} {b : β} :
    (x >>= f).result = .ok b ↔ ∃ a, x.result = .ok a ∧ (f a).result = .ok b := by
  rw [result_bind]
  cases x.result <;> simp [Except.bind]

theorem Buffer.load_eq_ok_iff {buffer : Buffer} {indices : List Expr} {e : Expr} :
    buffer.load indices = .ok e ↔ indices.length = buffer.rank ∧ e = .load buffer indices := by
  unfold load checkIndices
  split <;> simp_all [Bind.bind, Except.bind, eq_comm]

theorem Buffer.store_eq_ok_iff {buffer : Buffer} {indices : List Expr} {value : Expr}
    {store : Loop.Store} :
    buffer.store indices value = .ok store ↔
      indices.length = buffer.rank ∧ store = ⟨buffer, indices, value⟩ := by
  unfold Buffer.store checkIndices
  split <;> simp_all [Bind.bind, Except.bind, eq_comm]

namespace Site

variable {site : Site}

/-! ### Reads -/

/-- A read of `buffer` as an array of shape `access` is possible, and is recorded as `region`. -/
structure ReadsAt (site : Site) (buffer : Buffer) (access : Shape) (region : Region) : Prop where
  rank_le : buffer.rank ≤ site.iterVars.length
  rank_eq : access.rank = buffer.rank
  buffer_eq : region.buffer = buffer
  ranges_eq : access.ranges site.env.symbols site.indexType = .ok region.ranges

theorem length_indices {access : Shape} (h : access.rank ≤ site.iterVars.length) :
    (site.indices access).length = access.rank := by
  have loops : site.iterVars.length - (site.iterVars.length - access.rank) = access.rank := by omega
  simp only [indices, innermost, List.length_zipWith, List.length_drop, loops]
  exact Nat.min_self _

/-- An index is the counter of its loop, or zero. -/
theorem index_eq (site : Site) (dim : Dim) (loop : Loop.IterVar) :
    site.index dim loop = .var loop.var ∨ site.index dim loop = .int 0 site.indexType := by
  unfold index
  split_ifs
  · exact .inr rfl
  · exact .inl rfl

/-- All indices are counters and zeros. -/
theorem eq_of_mem_indices {access : Shape} {index : Expr} (h : index ∈ site.indices access) :
    (∃ loop : Loop.IterVar, index = .var loop.var) ∨ index = .int 0 site.indexType := by
  rw [indices, ← List.map_uncurry_zip_eq_zipWith] at h
  obtain ⟨⟨dim, loop⟩, _, rfl⟩ := List.mem_map.mp h
  exact (site.index_eq dim loop).imp_left fun counter => ⟨loop, counter⟩

theorem read_eq_ok_iff {buffer : Buffer} {access : Shape} {e : Emitted Expr} :
    (site.read buffer access).result = .ok e ↔
      ∃ region, site.ReadsAt buffer access region ∧
        e = ⟨.load buffer (site.indices access), [region]⟩ := by
  unfold read
  split_ifs with many ranks
  · simp only [Traced.result_fail, reduceCtorEq, false_iff, not_exists, not_and]
    intro region reads
    exact absurd reads.rank_le (Nat.not_le.mpr many)
  · simp only [Traced.result_fail, reduceCtorEq, false_iff, not_exists, not_and]
    intro region reads
    exact absurd reads.rank_eq ranks
  · have count : (site.indices access).length = buffer.rank := by
      rw [length_indices (by omega)]
      exact not_not.mp ranks
    simp only [Traced.result_bind_eq_ok_iff, Traced.result_lift, Buffer.load_eq_ok_iff, count,
      Shape.result_traceRanges, Traced.result_emit, Traced.result_pure, Except.ok.injEq, true_and,
      exists_eq_left, exists_const]
    constructor
    · rintro ⟨ranges, hranges, rfl⟩
      exact ⟨⟨buffer, ranges⟩, ⟨Nat.not_lt.mp many, not_not.mp ranks, rfl, hranges⟩, rfl⟩
    · rintro ⟨⟨_, ranges⟩, ⟨_, _, rfl, hranges⟩, rfl⟩
      exact ⟨ranges, hranges, rfl⟩

/-- The value of something lowered that is used as an array of shape `access`, and what is read
for it. -/
inductive Materializes (site : Site) (access : Shape) :
    Lowered → Expr → List Region → Prop where
  | buffer {source : Buffer} {region : Region} : site.ReadsAt source access region →
      Materializes site access (.buffer source) (.load source (site.indices access)) [region]
  | array {value : Expr} {type : ArrayType} : Materializes site access (.array value type) value []
  | scalar {value : Expr} {type : ElementType} :
      Materializes site access (.scalar value type) value []

theorem materialize_eq_ok_iff {access : Shape} {lowered : Lowered} {e : Emitted Expr} :
    (site.materialize access lowered).result = .ok e ↔
      site.Materializes access lowered e.value e.reads := by
  obtain ⟨value, reads⟩ := e
  cases lowered with
  | buffer source =>
      rw [materialize, read_eq_ok_iff]
      constructor
      · rintro ⟨region, hread, ⟨⟩⟩
        exact .buffer hread
      · rintro ⟨hread⟩
        exact ⟨_, hread, rfl⟩
  | array value' type =>
      simp only [materialize, Traced.result_pure, Except.ok.injEq, Emitted.mk.injEq]
      constructor
      · rintro ⟨rfl, rfl⟩; exact .array
      · rintro ⟨⟩; exact ⟨rfl, rfl⟩
  | scalar value' type =>
      simp only [materialize, Traced.result_pure, Except.ok.injEq, Emitted.mk.injEq]
      constructor
      · rintro ⟨rfl, rfl⟩; exact .scalar
      · rintro ⟨⟩; exact ⟨rfl, rfl⟩

end Site

/-! ### Expressions -/

/-- The application of an array operator to two expressions. -/
def Source.Expr.elementwise : ArrayOp → Source.Expr → Source.Expr → Source.Expr
  | .arith op, lhs, rhs => .arith op lhs rhs
  | .compare op, lhs, rhs => .compare lhs [(op, rhs)]

/-- The application of a unary operator to something lowered, given its element. -/
def Lowered.unary (op : UnaryOp) (value : Expr) : Lowered → Lowered
  | .buffer source => .array (.unary op value) ⟨source.shape, op.resultType source.element⟩
  | .array _ type => .array (.unary op value) ⟨type.shape, op.resultType type.element⟩
  | .scalar _ type => .scalar (.unary op value) (op.resultType type)

@[simp] theorem Lowered.shape_unary (op : UnaryOp) (value : Expr) (lowered : Lowered) :
    (lowered.unary op value).shape = lowered.shape := by
  cases lowered <;> rfl

namespace Site

variable {site : Site}

/-- `site.Lowers e lowered reads`: the expression `e` is lowered to `lowered`, and `reads` are the
regions that are read for it. -/
inductive Lowers (site : Site) : Source.Expr → Lowered → List Region → Prop where
  | name {id : String} {entry : Entry} : site.env.scope.find? id = some entry →
      Lowers site (.name id) (.ofEntry entry) []
  | literal {value : Source.Literal} : Lowers site (.literal value) (.ofLiteral value) []
  | elementwise {op : ArrayOp} {lhs rhs : Source.Expr} {l r : Lowered} {lv rv : Expr}
      {ls rs ls' rs' : List Region} {inst : OperatorInstance} :
      Lowers site lhs l ls → Lowers site rhs r rs →
      site.env.operators.resolve l.operand r.operand op = .ok inst →
      site.Materializes inst.lhsAccess l lv ls' → site.Materializes inst.rhsAccess r rv rs' →
      Lowers site (.elementwise op lhs rhs) (.array (.elementwise op lv rv) inst.result)
        (ls ++ rs ++ (ls' ++ rs'))
  | unary {op : UnaryOp} {operand : Source.Expr} {o : Lowered} {v : Expr} {os os' : List Region} :
      Lowers site operand o os → site.Materializes o.shape o v os' →
      Lowers site (.unary op operand) (o.unary op v) (os ++ os')

theorem applyArray_eq_ok_iff {op : ArrayOp} {l r : Lowered} {e : Emitted Lowered} :
    (site.applyArray op l r).result = .ok e ↔
      ∃ inst lv ls rv rs, site.env.operators.resolve l.operand r.operand op = .ok inst ∧
        site.Materializes inst.lhsAccess l lv ls ∧ site.Materializes inst.rhsAccess r rv rs ∧
        e = ⟨.array (.elementwise op lv rv) inst.result, ls ++ rs⟩ := by
  simp only [applyArray, Traced.result_bind_eq_ok_iff, Traced.result_lift, Traced.result_pure,
    materialize_eq_ok_iff, Except.ok.injEq]
  constructor
  · rintro ⟨inst, hinst, ⟨lv, ls⟩, hl, ⟨rv, rs⟩, hr, rfl⟩
    exact ⟨inst, lv, ls, rv, rs, hinst, hl, hr, rfl⟩
  · rintro ⟨inst, lv, ls, rv, rs, hinst, hl, hr, rfl⟩
    exact ⟨inst, hinst, ⟨lv, ls⟩, hl, ⟨rv, rs⟩, hr, rfl⟩

theorem applyUnary_eq_ok_iff {op : UnaryOp} {o : Lowered} {e : Emitted Lowered} :
    (site.applyUnary op o).result = .ok e ↔
      ∃ v os, site.Materializes o.shape o v os ∧ e = ⟨o.unary op v, os⟩ := by
  cases o with
  | buffer source =>
      simp only [applyUnary, Traced.result_bind_eq_ok_iff, Traced.result_pure, read_eq_ok_iff,
        Except.ok.injEq]
      constructor
      · rintro ⟨_, ⟨region, hread, rfl⟩, rfl⟩
        exact ⟨_, _, .buffer hread, rfl⟩
      · rintro ⟨_, _, ⟨hread⟩, rfl⟩
        exact ⟨_, ⟨_, hread, rfl⟩, rfl⟩
  | array value type =>
      simp only [applyUnary, Traced.result_pure, Except.ok.injEq]
      constructor
      · rintro rfl; exact ⟨_, _, .array, rfl⟩
      · rintro ⟨_, _, ⟨⟩, rfl⟩; rfl
  | scalar value type =>
      simp only [applyUnary, Traced.result_pure, Except.ok.injEq]
      constructor
      · rintro rfl; exact ⟨_, _, .scalar, rfl⟩
      · rintro ⟨_, _, ⟨⟩, rfl⟩; rfl

/-- Operands, the operator, and the reads of its operands: the three steps of an application. -/
theorem lower_elementwise_eq_ok_iff {op : ArrayOp} {lhs rhs : Source.Expr} {e : Emitted Lowered} :
    (site.lower (.elementwise op lhs rhs)).result = .ok e ↔
      ∃ l r a, (site.lower lhs).result = .ok l ∧ (site.lower rhs).result = .ok r ∧
        (site.applyArray op l.value r.value).result = .ok a ∧
        e = ⟨a.value, l.reads ++ r.reads ++ a.reads⟩ := by
  cases op <;>
  · simp only [Source.Expr.elementwise, lower, Traced.result_bind_eq_ok_iff, Traced.result_pure,
      Except.ok.injEq]
    constructor
    · rintro ⟨l, hl, r, hr, a, ha, rfl⟩; exact ⟨l, r, a, hl, hr, ha, rfl⟩
    · rintro ⟨l, r, a, hl, hr, ha, rfl⟩; exact ⟨l, hl, r, hr, a, ha, rfl⟩

theorem lower_unary_eq_ok_iff {op : UnaryOp} {operand : Source.Expr} {e : Emitted Lowered} :
    (site.lower (.unary op operand)).result = .ok e ↔
      ∃ o a, (site.lower operand).result = .ok o ∧ (site.applyUnary op o.value).result = .ok a ∧
        e = ⟨a.value, o.reads ++ a.reads⟩ := by
  simp only [lower, Traced.result_bind_eq_ok_iff, Traced.result_pure, Except.ok.injEq]
  constructor
  · rintro ⟨o, ho, a, ha, rfl⟩; exact ⟨o, a, ho, ha, rfl⟩
  · rintro ⟨o, a, ho, ha, rfl⟩; exact ⟨o, ho, a, ha, rfl⟩

/-- The elementwise case of `Lowers.of_lower`, for both kinds of operators. -/
theorem Lowers.of_lower_elementwise {op : ArrayOp} {lhs rhs : Source.Expr}
    (hlhs : ∀ l, (site.lower lhs).result = .ok l → site.Lowers lhs l.value l.reads)
    (hrhs : ∀ r, (site.lower rhs).result = .ok r → site.Lowers rhs r.value r.reads)
    {e : Emitted Lowered} (h : (site.lower (.elementwise op lhs rhs)).result = .ok e) :
    site.Lowers (.elementwise op lhs rhs) e.value e.reads := by
  obtain ⟨l, r, a, hl, hr, ha, rfl⟩ := lower_elementwise_eq_ok_iff.mp h
  obtain ⟨inst, lv, ls, rv, rs, hinst, hlv, hrv, rfl⟩ := applyArray_eq_ok_iff.mp ha
  exact .elementwise (hlhs l hl) (hrhs r hr) hinst hlv hrv

theorem Lowers.of_lower {e : Source.Expr} {out : Emitted Lowered}
    (h : (site.lower e).result = .ok out) : site.Lowers e out.value out.reads := by
  induction e using Site.lower.induct site generalizing out with
  | case1 id entry found =>
      simp only [lower, found, Traced.result_pure, Except.ok.injEq] at h
      subst h
      exact .name found
  | case2 id unknown => simp [lower, unknown] at h
  | case3 value =>
      simp only [lower, Traced.result_pure, Except.ok.injEq] at h
      subst h
      exact .literal
  | case4 op lhs rhs ihl ihr =>
      have h : (site.lower (.elementwise (.arith op) lhs rhs)).result = .ok out := h
      exact .of_lower_elementwise (fun _ => ihl) (fun _ => ihr) h
  | case5 lhs op rhs ihl ihr =>
      have h : (site.lower (.elementwise (.compare op) lhs rhs)).result = .ok out := h
      exact .of_lower_elementwise (fun _ => ihl) (fun _ => ihr) h
  | case8 op operand ih =>
      obtain ⟨o, a, ho, ha, rfl⟩ := lower_unary_eq_ok_iff.mp h
      obtain ⟨v, os, hv, rfl⟩ := applyUnary_eq_ok_iff.mp ha
      exact .unary (ih ho) hv
  | _ => simp [lower] at h

/-- **Lowering succeeds exactly with what is derived.** -/
theorem lower_eq_ok_iff {e : Source.Expr} {lowered : Lowered} {reads : List Region} :
    (site.lower e).result = .ok ⟨lowered, reads⟩ ↔ site.Lowers e lowered reads := by
  refine ⟨fun h => Lowers.of_lower h, fun h => ?_⟩
  induction h with
  | name found => simp [lower, found]
  | literal => simp [lower]
  | elementwise _ _ hinst hlv hrv ihl ihr =>
      exact lower_elementwise_eq_ok_iff.mpr ⟨_, _, _, ihl, ihr,
        applyArray_eq_ok_iff.mpr ⟨_, _, _, _, _, hinst, hlv, hrv, rfl⟩, rfl⟩
  | unary _ hv ih =>
      exact lower_unary_eq_ok_iff.mpr ⟨_, _, ih,
        applyUnary_eq_ok_iff.mpr ⟨_, _, hv, rfl⟩, rfl⟩

/-- A buffer that is not read yet comes from a name alone. -/
theorem Lowers.eq_name {e : Source.Expr} {source : Buffer} {reads : List Region}
    (h : site.Lowers e (.buffer source) reads) :
    ∃ id, e = .name id ∧ site.env.scope.find? id = some (.array source) := by
  generalize hl : Lowered.buffer source = lowered at h
  cases h with
  | name found =>
      rename_i id entry
      cases entry with
      | array buffer => cases hl; exact ⟨id, rfl, found⟩
      | scalar name type => cases hl
  | literal => rename_i value; cases value <;> cases hl
  | elementwise => cases hl
  | unary _ _ => rename_i o _ _ _ _ _; cases o <;> cases hl

/-- A name is lowered to what it stands for. -/
theorem Lowers.eq_ofEntry {id : String} {lowered : Lowered} {reads : List Region}
    (h : site.Lowers (.name id) lowered reads) :
    ∃ entry, site.env.scope.find? id = some entry ∧ lowered = .ofEntry entry := by
  have h := lower_eq_ok_iff.mpr h
  unfold lower at h
  split at h
  · next entry found =>
      cases h
      exact ⟨entry, found, rfl⟩
  · cases h

end Site

/-! ### Kernels -/

namespace Site

variable {site : Site}

theorem finish_eq_ok_iff {copies : Bool} {output : Buffer} {lowered : Lowered}
    {e : Emitted Expr} :
    (site.finish copies output lowered).result = .ok e ↔
      lowered.shape.retained = output.shape.retained ∧
        (∀ source, lowered = .buffer source → copies = true) ∧
        site.Materializes lowered.shape lowered e.value e.reads := by
  rw [← materialize_eq_ok_iff, ← Shape.sameRetained_iff]
  by_cases same : lowered.shape.sameRetained output.shape = true
  · cases lowered with
    | buffer source =>
        -- The value of a copied buffer is materialized like any operand.
        simp only [Lowered.shape] at same
        cases copies <;> simp [finish, Lowered.shape, same, materialize]
    | array value type => simp [finish, same, materialize]
    | scalar value type => simp [finish, same, materialize]
  · simp [finish, same]

end Site

namespace Kernel

/-- The place of a kernel's value: under the loops over its output. -/
def site (env : Environment) (settings : Settings) (ranges : List Loop.Range) : Site :=
  ⟨env, settings.iterVars ranges, settings.indexType⟩

/-- `kernel.Lowers env settings block`: the kernel is lowered to `block`. -/
inductive Lowers (kernel : Kernel) (env : Environment) (settings : Settings) : Block → Prop where
  | intro {e : Source.Expr} {ranges : List Loop.Range} {lowered : Lowered} {value : Expr}
      {reads reads' : List Region} :
      kernel.body = .ret (some e) →
      kernel.output.shape = kernel.declared →
      kernel.output.shape.ranges env.symbols settings.indexType = .ok ranges →
      (site env settings ranges).Lowers e lowered reads →
      lowered.shape.retained = kernel.output.shape.retained →
      (∀ source, lowered = .buffer source → settings.copies = true) →
      (site env settings ranges).Materializes lowered.shape lowered value reads' →
      Lowers kernel env settings
        ⟨settings.iterVars ranges, reads ++ reads', [⟨kernel.output, ranges⟩], kernel.name,
          ⟨kernel.output, (settings.iterVars ranges).map fun loop => .var loop.var, value⟩⟩

theorem returned_eq_ok_iff {kernel : Kernel} {e : Source.Expr} :
    kernel.returned = .ok e ↔ kernel.body = .ret (some e) := by
  unfold returned
  split <;> simp_all

theorem checkDeclared_eq_ok_iff {kernel : Kernel} :
    kernel.checkDeclared = .ok () ↔ kernel.output.shape = kernel.declared := by
  unfold checkDeclared
  split <;> simp_all

theorem lower_eq_ok_iff {kernel : Kernel} {env : Environment} {settings : Settings}
    {block : Block} :
    (kernel.lower env settings).result = .ok block ↔ kernel.Lowers env settings block := by
  simp only [lower, Traced.result_bind_eq_ok_iff, Traced.result_lift, Traced.result_emit,
    Traced.result_pure, Shape.result_traceRanges, returned_eq_ok_iff, Buffer.store_eq_ok_iff,
    Except.ok.injEq, Site.finish_eq_ok_iff]
  constructor
  · rintro ⟨e, he, _, hdeclared, ranges, hranges, _, _, ⟨lowered, reads⟩, hlowered,
      ⟨value, reads'⟩, ⟨same, copies, hvalue⟩, _, _, _, ⟨_, rfl⟩, rfl⟩
    exact .intro he (checkDeclared_eq_ok_iff.mp hdeclared) hranges
      (Site.lower_eq_ok_iff.mp hlowered) same copies hvalue
  · rintro @⟨e, ranges, lowered, value, reads, reads', he, hdeclared, hranges, hlowered, same,
      copies, hvalue⟩
    refine ⟨e, he, (), checkDeclared_eq_ok_iff.mpr hdeclared, ranges, hranges, (), trivial,
      ⟨lowered, reads⟩, Site.lower_eq_ok_iff.mpr hlowered, ⟨value, reads'⟩,
      ⟨same, copies, hvalue⟩, (), trivial, _, ⟨?_, rfl⟩, rfl⟩
    -- The store's check never fails: there is one loop for each retained dimension.
    simp [Settings.iterVars, Shape.length_of_ranges_eq_ok hranges, Buffer.rank]

/-- **A kernel is compiled exactly to the block that is derived for it.** -/
theorem compile_eq_ok_iff {kernel : Kernel} {env : Environment} {settings : Settings}
    {block : Block} :
    kernel.compile env settings = .ok block ↔ kernel.Lowers env settings block := by
  rw [← lower_eq_ok_iff, compile]
  cases (kernel.lower env settings).result <;> simp

/-- A block stores in the kernel's output, at the counters of its loops. -/
theorem Lowers.body_eq {kernel : Kernel} {env : Environment} {settings : Settings} {block : Block}
    (h : kernel.Lowers env settings block) :
    block.body.buffer = kernel.output ∧
      block.body.indices = block.iterVars.map fun loop => .var loop.var := by
  cases h
  exact ⟨rfl, rfl⟩

/-- A block loops over the ranges of the kernel's output, and they are the region that it writes. -/
theorem Lowers.loops_eq {kernel : Kernel} {env : Environment} {settings : Settings} {block : Block}
    (h : kernel.Lowers env settings block) :
    ∃ ranges, kernel.output.shape.ranges env.symbols settings.indexType = .ok ranges ∧
      block.iterVars = settings.iterVars ranges ∧ block.writes = [⟨kernel.output, ranges⟩] := by
  cases h with
  | intro _ _ hranges => exact ⟨_, hranges, rfl, rfl⟩

end Kernel

/-! ### A kernel in place -/

namespace AddColumn

def total : Buffer := ⟨"total", ⟨⟨[.symbol "n", .const 3]⟩, .int64⟩⟩

def column : Buffer := ⟨"column", ⟨⟨[.symbol "n", .const 1]⟩, .int64⟩⟩

def value : Source.Expr := .arith .add (.name "total") (.name "column")

/-- Adds a column to every column of a total, which is read and written. -/
def kernel : Kernel := ⟨"add_column", total, total.shape, .ret (some value)⟩

def scope : Scope := (Scope.empty.insert (.array total)).insert (.array column)

def symbols : Symbols := Symbols.empty.bindVar "n" .int64

def env : Environment := ⟨scope, symbols, .elementwise [.arith .add]⟩

/-- The range of the rows. -/
def rows : Loop.Range := .upTo (.var ⟨"n", .int64⟩) .int64

/-- The range of as many columns. -/
def columns (count : Int64) : Loop.Range := .upTo (.int count .int64) .int64

def row : Loop.Var := ⟨"__iter_0", .int64⟩

def position : Loop.Var := ⟨"__iter_1", .int64⟩

/-- The column has one position only, and is read there under every iteration of its loop. -/
def block : Block :=
  ⟨[⟨row, rows⟩, ⟨position, columns 3⟩],
    [⟨total, [rows, columns 3]⟩, ⟨column, [rows, columns 1]⟩], [⟨total, [rows, columns 3]⟩],
    "add_column",
    ⟨total, [.var row, .var position],
      .arith .add (.load total [.var row, .var position])
        (.load column [.var row, .int 0 .int64])⟩⟩

example : kernel.compile env {} = .ok block := rfl

end AddColumn

/-! ### A copy -/

namespace Copy

/-- Copies an array of the given shape. -/
def kernel (shape : Shape) : Kernel :=
  ⟨"copy", ⟨"out", ⟨shape, .float32⟩⟩, shape, .ret (some (.name "x"))⟩

def env (shape : Shape) (symbols : Symbols) : Environment :=
  ⟨Scope.empty.insert (.array ⟨"x", ⟨shape, .float32⟩⟩), symbols, .elementwise ArrayOp.all⟩

end Copy

end ArrayKernel
