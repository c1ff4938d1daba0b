import ArrayKernel.Proofs.Reads

/-!
Which kernels are compiled.

Lowering interleaves its checks with the walk over an expression, and an operator looks at the
shapes of its two operands only. `Kernel.Acceptable` states the conditions without any walk over
shapes: an expression is well typed, and the retained dimensions of the output are the least shape
that the shapes of *all* arrays in it broadcast to.

* `Source.Expr.HasType`: the type of an expression, which leaves shapes aside.
* `Site.Lowers.hasType`, `Site.Lowers.isCommonBroadcast`: what is lowered is well typed, and its
  shape is the least one for its arrays.
* `Source.Expr.HasType.exists_lowers`: a well-typed expression is lowered under any loops that all
  of its arrays fit. No check on reads can fail there.
* `Kernel.compile_ok_iff_acceptable`: a kernel is compiled exactly if it is acceptable.
-/

namespace ArrayKernel

open Loop (Expr Region Block)

/-! ### Types -/

def Entry.valueType : Entry → ValueType
  | .array buffer => .array buffer.element
  | .scalar _ type => .scalar type

namespace Source.Expr

/-- `e.HasType scope ops type`: the names in `e` are in scope, and array operators are among `ops`
and combine two arrays of the same elements. -/
inductive HasType (scope : Scope) (ops : List ArrayOp) : Source.Expr → ValueType → Prop where
  | name {id : String} {entry : Entry} : scope.find? id = some entry →
      HasType scope ops (.name id) entry.valueType
  | literal {value : Literal} : HasType scope ops (.literal value) (.scalar value.type)
  | elementwise {op : ArrayOp} {lhs rhs : Source.Expr} {element : ElementType} : op ∈ ops →
      HasType scope ops lhs (.array element) → HasType scope ops rhs (.array element) →
      HasType scope ops (.elementwise op lhs rhs) (.array (op.resultType element))
  | unary {op : UnaryOp} {operand : Source.Expr} {type : ValueType} :
      HasType scope ops operand type →
      HasType scope ops (.unary op operand) (type.map op.resultType)

/-- The shapes of the arrays in an expression. -/
def leaves (scope : Scope) : Source.Expr → List Shape
  | .name id =>
      match scope.find? id with
      | some (.array source) => [source.shape]
      | _ => []
  | .arith _ lhs rhs => lhs.leaves scope ++ rhs.leaves scope
  | .compare lhs [(_, rhs)] => lhs.leaves scope ++ rhs.leaves scope
  | .unary _ operand => operand.leaves scope
  | _ => []

@[simp] theorem leaves_elementwise (scope : Scope) (op : ArrayOp) (lhs rhs : Source.Expr) :
    (elementwise op lhs rhs).leaves scope = lhs.leaves scope ++ rhs.leaves scope := by
  cases op <;> simp [elementwise, leaves]

/-- There are no arrays in a scalar. -/
theorem HasType.leaves_eq_nil {scope : Scope} {ops : List ArrayOp} {e : Source.Expr}
    {element : ElementType} (h : e.HasType scope ops (.scalar element)) : e.leaves scope = [] := by
  generalize htype : ValueType.scalar element = type at h
  induction h generalizing element with
  | name found =>
      rename_i id entry
      cases entry with
      | array buffer => cases htype
      | scalar name type => simp [leaves, found]
  | literal => simp [leaves]
  | elementwise => cases htype
  | unary h ih =>
      rename_i op operand type
      cases type with
      | scalar element' => simpa [leaves] using ih rfl
      | array element' => cases htype

end Source.Expr

/-! ### What is lowered -/

namespace Lowered

@[simp] theorem valueType_ofEntry (entry : Entry) :
    (ofEntry entry).valueType = entry.valueType := by
  cases entry <;> rfl

@[simp] theorem valueType_ofLiteral (value : Source.Literal) :
    (ofLiteral value).valueType = .scalar value.type := by
  cases value <;> rfl

@[simp] theorem valueType_unary (op : UnaryOp) (value : Expr) (lowered : Lowered) :
    (lowered.unary op value).valueType = lowered.valueType.map op.resultType := by
  cases lowered <;> rfl

theorem exists_eq_scalar {lowered : Lowered} {element : ElementType}
    (h : lowered.valueType = .scalar element) : ∃ value, lowered = .scalar value element := by
  cases lowered <;> cases h
  exact ⟨_, rfl⟩

end Lowered

namespace Site

variable {scope : Scope} {symbols : Symbols} {ops : List ArrayOp} {loops : List Loop.IterVar}
  {index : ElementType} {settings : Settings} {ranges : List Loop.Range} {e : Source.Expr}
  {lowered : Lowered} {reads : List Region}

/-- **What is lowered is well typed.** -/
theorem Lowers.hasType
    (h : Lowers ⟨⟨scope, symbols, .elementwise ops⟩, loops, index⟩ e lowered reads) :
    e.HasType scope ops lowered.valueType := by
  induction h with
  | name found =>
      rw [Lowered.valueType_ofEntry]
      exact .name found
  | literal =>
      rw [Lowered.valueType_ofLiteral]
      exact .literal
  | elementwise _ _ hinst _ _ ihl ihr =>
      obtain ⟨known, element, shape, ltype, rtype, _, rfl⟩ :=
        OperatorTable.resolve_elementwise_eq_ok_iff.mp hinst
      rw [ltype] at ihl
      rw [rtype] at ihr
      exact .elementwise known ihl ihr
  | unary _ _ ih =>
      rw [Lowered.valueType_unary]
      exact .unary ih

/-- **The shape of what is lowered is the least one for its arrays**, in whatever order operators
combine them. -/
theorem Lowers.isCommonBroadcast
    (h : Lowers ⟨⟨scope, symbols, .elementwise ops⟩, loops, index⟩ e lowered reads) :
    Shape.IsCommonBroadcast (e.leaves scope) lowered.shape := by
  induction h with
  | name found =>
      rename_i id entry
      have found : scope.find? id = some entry := found
      cases entry with
      | array source =>
          simp only [Source.Expr.leaves, found]
          exact Shape.isCommonBroadcast_singleton source.shape
      | scalar name type =>
          simp only [Source.Expr.leaves, found]
          exact Shape.isCommonBroadcast_nil
  | literal =>
      rename_i value
      cases value <;> exact Shape.isCommonBroadcast_nil
  | elementwise _ _ hinst _ _ ihl ihr =>
      obtain ⟨_, element, shape, _, _, hshape, rfl⟩ :=
        OperatorTable.resolve_elementwise_eq_ok_iff.mp hinst
      rw [Source.Expr.leaves_elementwise]
      exact ihl.append ihr hshape
  | unary _ _ ih =>
      rw [Lowered.shape_unary]
      simpa [Source.Expr.leaves] using ih

/-- Under loops that it fits, anything lowered can be read: the loops are many enough, and each of
its dimensions is addressable because it is one or a dimension of the output. -/
theorem exists_materializes (env : Environment) {output : Shape}
    (hranges : output.ranges env.symbols settings.indexType = .ok ranges)
    (below : lowered.shape.BroadcastsTo output) :
    ∃ value reads,
      (Kernel.site env settings ranges).Materializes lowered.shape lowered value reads := by
  cases lowered with
  | buffer source =>
      obtain ⟨own, hown⟩ := below.exists_ranges hranges
      have loops : (settings.iterVars ranges).length = output.rank := by
        simp [Settings.iterVars, Shape.length_of_ranges_eq_ok hranges]
      have rank_le : source.rank ≤ (settings.iterVars ranges).length := by
        rw [loops]
        exact below.rank_le
      have possible : (Kernel.site env settings ranges).ReadsAt source source.shape ⟨source, own⟩ :=
        ⟨rank_le, rfl, rfl, hown⟩
      exact ⟨_, _, .buffer possible⟩
  | array value type => exact ⟨value, [], .array⟩
  | scalar value type => exact ⟨value, [], .scalar⟩

end Site

/-- **A well-typed expression is lowered** under any loops that all of its arrays fit. -/
theorem Source.Expr.HasType.exists_lowers {scope : Scope} {symbols : Symbols} {ops : List ArrayOp}
    {settings : Settings} {ranges : List Loop.Range} {output : Shape} {e : Source.Expr}
    {type : ValueType}
    (hranges : output.ranges symbols settings.indexType = .ok ranges)
    (h : e.HasType scope ops type) (below : ∀ s ∈ e.leaves scope, s.BroadcastsTo output) :
    ∃ lowered reads,
      (Kernel.site ⟨scope, symbols, .elementwise ops⟩ settings ranges).Lowers e lowered reads ∧
        lowered.valueType = type := by
  induction h with
  | name found =>
      rename_i id entry
      exact ⟨.ofEntry entry, [], .name found, Lowered.valueType_ofEntry entry⟩
  | literal =>
      rename_i value
      exact ⟨.ofLiteral value, [], .literal, Lowered.valueType_ofLiteral value⟩
  | elementwise known hlhs hrhs ihl ihr =>
      rename_i op lhs rhs element
      rw [Source.Expr.leaves_elementwise] at below
      obtain ⟨below, below'⟩ := List.forall_mem_append.mp below
      obtain ⟨l, ls, hl, ltype⟩ := ihl below
      obtain ⟨r, rs, hr, rtype⟩ := ihr below'
      have lbelow := hl.isCommonBroadcast.2 output below
      have rbelow := hr.isCommonBroadcast.2 output below'
      obtain ⟨shape, hshape, _⟩ := Shape.exists_broadcast lbelow rbelow
      obtain ⟨lv, ls', hlv⟩ :=
        Site.exists_materializes ⟨scope, symbols, .elementwise ops⟩ hranges lbelow
      obtain ⟨rv, rs', hrv⟩ :=
        Site.exists_materializes ⟨scope, symbols, .elementwise ops⟩ hranges rbelow
      have resolved := OperatorTable.resolve_elementwise_eq_ok_iff.mpr
        ⟨known, element, shape, ltype, rtype, hshape, rfl⟩
      exact ⟨_, _, .elementwise hl hr resolved hlv hrv, rfl⟩
  | unary _ ih =>
      rename_i op operand type
      obtain ⟨o, os, ho, otype⟩ := ih below
      obtain ⟨v, os', hv⟩ := Site.exists_materializes ⟨scope, symbols, .elementwise ops⟩ hranges
        (ho.isCommonBroadcast.2 output below)
      refine ⟨_, _, .unary ho hv, ?_⟩
      rw [Lowered.valueType_unary, otype]

/-! ### Acceptable kernels -/

/-- The conditions under which a kernel that returns `e` is compiled. -/
structure Kernel.Acceptable (kernel : Kernel) (scope : Scope) (symbols : Symbols)
    (ops : List ArrayOp) (settings : Settings) (e : Source.Expr) : Prop where
  returns : kernel.body = .ret (some e)
  declared : kernel.output.shape = kernel.declared
  addressable : ∀ dim ∈ kernel.output.shape.retained, dim.Addressable symbols
  /-- A scalar is stored in an output of rank zero, and an array in one whose retained dimensions
  are the least common broadcast of all arrays in the expression. -/
  fits : (∃ element, e.HasType scope ops (.scalar element)) ∧ kernel.output.rank = 0 ∨
    (∃ element, e.HasType scope ops (.array element)) ∧
      Shape.IsCommonBroadcast (e.leaves scope) ⟨kernel.output.shape.retained⟩
  /-- A bare array is copied only if copies are allowed. -/
  copies : ∀ id source, e = .name id → scope.find? id = some (.array source) →
    settings.copies = true

namespace Kernel

variable {kernel : Kernel} {scope : Scope} {symbols : Symbols} {ops : List ArrayOp}
  {settings : Settings}

theorem Lowers.acceptable {block : Block}
    (h : kernel.Lowers ⟨scope, symbols, .elementwise ops⟩ settings block) :
    ∃ e, kernel.Acceptable scope symbols ops settings e := by
  obtain @⟨e, ranges, lowered, value, reads, reads', he, hdeclared, hranges, hlowered, same, copies,
    hvalue⟩ := h
  refine ⟨e, he, hdeclared, Shape.exists_ranges_iff.mp ⟨ranges, hranges⟩, ?_, ?_⟩
  · have typed := hlowered.hasType
    cases htype : lowered.valueType with
    | scalar element =>
        rw [htype] at typed
        obtain ⟨value, rfl⟩ := Lowered.exists_eq_scalar htype
        refine .inl ⟨⟨element, typed⟩, ?_⟩
        rw [Buffer.rank, Shape.rank, ← same]
        rfl
    | array element =>
        rw [htype] at typed
        refine .inr ⟨⟨element, typed⟩, hlowered.isCommonBroadcast.congr ?_⟩
        rw [Shape.retained_retained]
        exact same
  · intro id source bare found
    subst bare
    obtain ⟨entry, found', rfl⟩ := hlowered.eq_ofEntry
    have same : some (.array source) = some entry := found.symm.trans found'
    cases same
    exact copies source rfl

theorem Acceptable.exists_lowers {e : Source.Expr}
    (h : kernel.Acceptable scope symbols ops settings e) :
    ∃ block, kernel.Lowers ⟨scope, symbols, .elementwise ops⟩ settings block := by
  have looped : ∃ ranges, kernel.output.shape.ranges symbols settings.indexType = .ok ranges :=
    Shape.exists_ranges_iff.mpr h.addressable
  obtain ⟨ranges, hranges⟩ := looped
  have lowers : ∃ lowered reads,
      (site ⟨scope, symbols, .elementwise ops⟩ settings ranges).Lowers e lowered reads ∧
        lowered.shape.retained = kernel.output.shape.retained := by
    rcases h.fits with ⟨⟨element, typed⟩, rank⟩ | ⟨⟨element, typed⟩, common⟩
    · obtain ⟨lowered, reads, hlowered, type⟩ :=
        typed.exists_lowers hranges (by simp [typed.leaves_eq_nil])
      obtain ⟨value, rfl⟩ := Lowered.exists_eq_scalar type
      exact ⟨_, reads, hlowered, (List.eq_nil_of_length_eq_zero rank).symm⟩
    · have common := common.congr kernel.output.shape.retained_retained
      obtain ⟨lowered, reads, hlowered, _⟩ := typed.exists_lowers hranges common.1
      exact ⟨lowered, reads, hlowered, hlowered.isCommonBroadcast.retained_eq common⟩
  obtain ⟨lowered, reads, hlowered, same⟩ := lowers
  obtain ⟨value, reads', hvalue⟩ :=
    Site.exists_materializes ⟨scope, symbols, .elementwise ops⟩ hranges (.of_retained_eq same)
  refine ⟨_, .intro h.returns h.declared hranges hlowered same ?_ hvalue⟩
  intro source bare
  subst bare
  obtain ⟨id, rfl, found⟩ := hlowered.eq_name
  exact h.copies id source rfl found

/-- **A kernel is compiled exactly if it is acceptable.** -/
theorem compile_ok_iff_acceptable :
    (∃ block, kernel.compile ⟨scope, symbols, .elementwise ops⟩ settings = .ok block) ↔
      ∃ e, kernel.Acceptable scope symbols ops settings e := by
  simp only [compile_eq_ok_iff]
  constructor
  · rintro ⟨block, h⟩
    exact h.acceptable
  · rintro ⟨e, h⟩
    exact h.exists_lowers

end Kernel

end ArrayKernel
