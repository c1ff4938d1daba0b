import ArrayKernel.Proofs.Acceptance
import ArrayKernel.Proofs.Lockstep

/-!
What a refused kernel is reported for.

Lowering stops at the first check that fails, and the checks of an expression are spread over its
nodes: those of an operator come after those of everything inside its operands. So the fault of an
expression is the fault of one node, the first one in post-order that is not lowered, and neither
what was read before it nor what follows it plays any part.

* `FirstOf`: the first element of a list that has a property.
* `Shape.ranges_eq_error_iff`: a shape without ranges is refused for its first dimension that has
  none.
* `Site.Refuses`: the checks of a node that can fail once its operands are lowered.
* `Site.firstOf_of_lower`: the fault of an expression is that of its first faulty node.
* `Kernel.Refuses.of_lower`: all ways in which a kernel can be refused, in the order of its checks.
* `Kernel.compile_reports_first_fault`: what follows for diagnostics.
-/

namespace ArrayKernel

open Loop (Expr Range Region Block)

/-! ### First elements -/

section FirstOf

variable {α : Type} {good bad bad' : α → Prop} {x : α} {xs ys : List α}

/-- Some element of the list is `bad`, and all elements before it are `good`. -/
def FirstOf (good bad : α → Prop) (xs : List α) : Prop :=
  ∃ before x after, xs = before ++ x :: after ∧ (∀ y ∈ before, good y) ∧ bad x

theorem FirstOf.exists_mem (h : FirstOf good bad xs) : ∃ x ∈ xs, bad x := by
  obtain ⟨before, x, after, rfl, _, found⟩ := h
  exact ⟨x, by simp, found⟩

theorem FirstOf.imp (h : FirstOf good bad xs) (weaken : ∀ x, bad x → bad' x) :
    FirstOf good bad' xs := by
  obtain ⟨before, x, after, split, passed, found⟩ := h
  exact ⟨before, x, after, split, passed, weaken x found⟩

theorem firstOf_singleton (h : bad x) : FirstOf good bad [x] :=
  ⟨[], x, [], rfl, by simp, h⟩

theorem FirstOf.append (h : FirstOf good bad xs) (ys : List α) : FirstOf good bad (xs ++ ys) := by
  obtain ⟨before, x, after, rfl, passed, found⟩ := h
  exact ⟨before, x, after ++ ys, by simp, passed, found⟩

/-- What is first among later elements is first if all earlier ones are good. -/
theorem FirstOf.behind (h : FirstOf good bad ys) (passed : ∀ x ∈ xs, good x) :
    FirstOf good bad (xs ++ ys) := by
  obtain ⟨before, x, after, rfl, passed', found⟩ := h
  refine ⟨xs ++ before, x, after, by simp, ?_, found⟩
  intro y mem
  rcases List.mem_append.mp mem with mem | mem
  · exact passed y mem
  · exact passed' y mem

theorem firstOf_cons_iff : FirstOf good bad (x :: xs) ↔ bad x ∨ good x ∧ FirstOf good bad xs := by
  constructor
  · rintro ⟨before, y, after, split, passed, found⟩
    cases before with
    | nil =>
        cases split
        exact .inl found
    | cons first before =>
        cases split
        rw [List.forall_mem_cons] at passed
        exact .inr ⟨passed.1, before, y, after, rfl, passed.2, found⟩
  · rintro (found | ⟨passed, others⟩)
    · exact (firstOf_singleton found).append xs
    · have passed : ∀ y ∈ [x], good y := by simpa using passed
      exact others.behind passed

end FirstOf

/-! ### Ranges -/

/-- Why no loop can run over a dimension of `shape`. -/
inductive Dim.Refused (symbols : Symbols) (shape : Shape) : Dim → Fault → Prop where
  | unaddressable {extent : UInt64} : 2 ^ 63 ≤ extent.toNat →
      Refused symbols shape (.const extent) (.unaddressable extent shape)
  | unbound {name : String} : symbols.find? name = none →
      Refused symbols shape (.symbol name) (.unboundSymbol name shape)

section Ranges

variable {symbols : Symbols} {index : ElementType} {shape : Shape} {fault : Fault}

theorem Dim.Refused.not_addressable {dim : Dim} (h : dim.Refused symbols shape fault) :
    ¬dim.Addressable symbols := by
  intro addressable
  cases h with
  | unaddressable large => exact absurd (Nat.lt_of_le_sub_one (by decide) addressable) (by omega)
  | unbound unbound =>
      obtain ⟨stop, bound⟩ := addressable
      rw [unbound] at bound
      cases bound

theorem Dim.Refused.unique {dim : Dim} {fault' : Fault} (h : dim.Refused symbols shape fault)
    (k : dim.Refused symbols shape fault') : fault = fault' := by
  cases h <;> cases k <;> rfl

theorem Dim.ranges_eq_error_iff {dims : List Dim} :
    Dim.ranges shape symbols index dims = .error fault ↔
      FirstOf (Addressable symbols) (fun dim => dim.Refused symbols shape fault) dims := by
  induction dims with
  | nil => simp [Dim.ranges, FirstOf]
  | cons dim dims ih =>
      rw [firstOf_cons_iff, ← ih]
      -- After a dimension that passes the others decide, and one that does not decides alone.
      have pass {range : Range} (passed : dim.Addressable symbols) :
          (do let others ← Dim.ranges shape symbols index dims
              .ok (range :: others) : Except Fault (List Range)) = .error fault ↔
            dim.Refused symbols shape fault ∨
              dim.Addressable symbols ∧ Dim.ranges shape symbols index dims = .error fault := by
        have accepted : ¬dim.Refused symbols shape fault :=
          fun refused => refused.not_addressable passed
        simp only [accepted, passed, false_or, true_and]
        cases Dim.ranges shape symbols index dims <;> simp [Bind.bind, Except.bind]
      have stop {fault' : Fault} (refused : dim.Refused symbols shape fault') :
          (.error fault' : Except Fault (List Range)) = .error fault ↔
            dim.Refused symbols shape fault ∨
              dim.Addressable symbols ∧ Dim.ranges shape symbols index dims = .error fault := by
        constructor
        · rintro ⟨⟩
          exact .inl refused
        · rintro (refused' | ⟨passed, _⟩)
          · rw [refused.unique refused']
          · exact absurd passed refused.not_addressable
      cases dim with
      | const extent =>
          rw [Dim.ranges]
          split
          · next small => exact pass (Nat.le_sub_one_of_lt small)
          · next large => exact stop (.unaddressable (Nat.not_lt.mp large))
      | symbol name =>
          rw [Dim.ranges]
          split
          · next bound => exact pass ⟨_, bound⟩
          · next unbound => exact stop (.unbound unbound)
      | elided =>
          have accepted : ¬Dim.elided.Refused symbols shape fault := by rintro ⟨⟩
          simp only [Dim.ranges, accepted, Addressable, false_or, true_and]

/-- **A shape without ranges is refused for its first dimension that has none.** -/
theorem Shape.ranges_eq_error_iff :
    shape.ranges symbols index = .error fault ↔
      FirstOf (Dim.Addressable symbols) (fun dim => dim.Refused symbols shape fault) shape.dims :=
  Dim.ranges_eq_error_iff

end Ranges

/-! ### Nodes -/

/-- A traced computation in two parts fails in the first or, after it, in the second. -/
theorem Traced.result_bind_eq_error_iff {α β : Type} {x : Traced α} {f : α → Traced β}
    {fault : Fault} :
    (x >>= f).result = .error fault ↔
      x.result = .error fault ∨ ∃ a, x.result = .ok a ∧ (f a).result = .error fault := by
  rw [result_bind]
  cases x.result <;> simp [Except.bind]

namespace Source.Expr

/-- The nodes of an expression in the order in which lowering finishes them: operands before their
operator. There is nothing to lower below a construct that kernels may not use, or below a
comparison that has not two operands. -/
def visited : Source.Expr → List Source.Expr
  | .arith op lhs rhs => lhs.visited ++ (rhs.visited ++ [.arith op lhs rhs])
  | .compare lhs [(op, rhs)] => lhs.visited ++ (rhs.visited ++ [.compare lhs [(op, rhs)]])
  | .unary op operand => operand.visited ++ [.unary op operand]
  | e => [e]

/-- Is the construct outside of what kernels may use? -/
def isForeign : Source.Expr → Bool
  | .logic _ | .conditional .. | .call .. | .attribute .. | .subscript .. | .lambda .. | .tuple _
  | .list _ => true
  | .arith .. | .unary .. | .compare .. | .name _ | .literal _ => false

@[simp] theorem visited_elementwise (op : ArrayOp) (lhs rhs : Source.Expr) :
    (elementwise op lhs rhs).visited =
      lhs.visited ++ (rhs.visited ++ [elementwise op lhs rhs]) := by
  cases op <;> simp [elementwise, visited]

end Source.Expr

namespace Site

variable {site : Site} {e : Source.Expr} {fault : Fault}

/-- The expression is lowered. -/
def Accepts (site : Site) (e : Source.Expr) : Prop :=
  ∃ out, (site.lower e).result = .ok out

/-- The operator at a node asks for the buffer `source`, which one of its operands is, as an array
of shape `access`. -/
inductive Asks (site : Site) : Source.Expr → Buffer → Shape → Prop where
  | left {op : ArrayOp} {lhs rhs : Source.Expr} {source : Buffer} {r : Lowered}
      {ls rs : List Region} {inst : OperatorInstance} :
      site.Lowers lhs (.buffer source) ls → site.Lowers rhs r rs →
      site.env.operators.resolve (.stored source) r.operand op = .ok inst →
      Asks site (.elementwise op lhs rhs) source inst.lhsAccess
  | right {op : ArrayOp} {lhs rhs : Source.Expr} {source : Buffer} {l : Lowered}
      {ls rs : List Region} {inst : OperatorInstance} :
      site.Lowers lhs l ls → site.Lowers rhs (.buffer source) rs →
      site.env.operators.resolve l.operand (.stored source) op = .ok inst →
      Asks site (.elementwise op lhs rhs) source inst.rhsAccess
  | unary {op : UnaryOp} {operand : Source.Expr} {source : Buffer} {os : List Region} :
      site.Lowers operand (.buffer source) os →
      Asks site (.unary op operand) source source.shape

/-- The operands of a node are lowered, and a check of the node itself fails. -/
inductive Refuses (site : Site) : Source.Expr → Fault → Prop where
  | unknown {id : String} : site.env.scope.find? id = none →
      Refuses site (.name id) (.unknownName id)
  | foreign {e : Source.Expr} : e.isForeign = true → Refuses site e (.expression e.kind)
  | unpaired {first : Source.Expr} : Refuses site (.compare first []) .comparisonEmpty
  | chained {first : Source.Expr} {others : List (CompareOp × Source.Expr)} : 1 < others.length →
      Refuses site (.compare first others) (.comparisonChained others.length)
  | operator {op : ArrayOp} {lhs rhs : Source.Expr} {l r : Lowered} {ls rs : List Region}
      {fault : Fault} : site.Lowers lhs l ls → site.Lowers rhs r rs →
      site.env.operators.resolve l.operand r.operand op = .error fault →
      Refuses site (.elementwise op lhs rhs) fault
  | read {node : Source.Expr} {source : Buffer} {access : Shape} {fault : Fault} :
      site.Asks node source access → (site.read source access).result = .error fault →
      Refuses site node fault

/-- Only buffers can fail to be materialized. -/
theorem eq_buffer_of_materialize {access : Shape} {lowered : Lowered}
    (h : (site.materialize access lowered).result = .error fault) :
    ∃ source, lowered = .buffer source ∧ (site.read source access).result = .error fault := by
  cases lowered with
  | buffer source => exact ⟨source, rfl, h⟩
  | array value type => cases h
  | scalar value type => cases h

theorem refuses_of_applyArray {op : ArrayOp} {lhs rhs : Source.Expr} {l r : Lowered}
    {ls rs : List Region} (hl : site.Lowers lhs l ls) (hr : site.Lowers rhs r rs)
    (h : (site.applyArray op l r).result = .error fault) :
    site.Refuses (.elementwise op lhs rhs) fault := by
  rcases Traced.result_bind_eq_error_iff.mp h with unresolved | ⟨inst, hinst, h⟩
  · exact .operator hl hr unresolved
  rcases Traced.result_bind_eq_error_iff.mp h with unread | ⟨lv, _, h⟩
  · obtain ⟨source, rfl, unread⟩ := eq_buffer_of_materialize unread
    exact .read (.left hl hr hinst) unread
  rcases Traced.result_bind_eq_error_iff.mp h with unread | ⟨rv, _, ⟨⟩⟩
  obtain ⟨source, rfl, unread⟩ := eq_buffer_of_materialize unread
  exact .read (.right hl hr hinst) unread

theorem refuses_of_applyUnary {op : UnaryOp} {operand : Source.Expr} {o : Lowered}
    {os : List Region} (ho : site.Lowers operand o os)
    (h : (site.applyUnary op o).result = .error fault) :
    site.Refuses (.unary op operand) fault := by
  cases o with
  | buffer source =>
      rcases Traced.result_bind_eq_error_iff.mp h with unread | ⟨_, _, ⟨⟩⟩
      exact .read (.unary ho) unread
  | array value type => cases h
  | scalar value type => cases h

/-! ### Expressions -/

/-- All nodes of an expression that is lowered are lowered. -/
theorem Lowers.accepts_visited {lowered : Lowered} {reads : List Region}
    (h : site.Lowers e lowered reads) : ∀ node ∈ e.visited, site.Accepts node := by
  have whole : site.Accepts e := ⟨_, lower_eq_ok_iff.mpr h⟩
  induction h with
  | name _ => simpa [Source.Expr.visited] using whole
  | literal => simpa [Source.Expr.visited] using whole
  | elementwise hl hr _ _ _ ihl ihr =>
      rw [Source.Expr.visited_elementwise]
      intro node mem
      rcases List.mem_append.mp mem with mem | mem
      · exact ihl ⟨_, lower_eq_ok_iff.mpr hl⟩ node mem
      rcases List.mem_append.mp mem with mem | mem
      · exact ihr ⟨_, lower_eq_ok_iff.mpr hr⟩ node mem
      · rw [List.mem_singleton.mp mem]
        exact whole
  | unary ho _ ih =>
      rw [Source.Expr.visited]
      intro node mem
      rcases List.mem_append.mp mem with mem | mem
      · exact ih ⟨_, lower_eq_ok_iff.mpr ho⟩ node mem
      · rw [List.mem_singleton.mp mem]
        exact whole

/-- The node fails with the fault when it is lowered alone, by a check of its own. -/
def Blames (site : Site) (fault : Fault) (node : Source.Expr) : Prop :=
  (site.lower node).result = .error fault ∧ site.Refuses node fault

/-- The elementwise case of `firstOf_of_lower`, for both kinds of operators. -/
theorem firstOf_of_lower_elementwise (op : ArrayOp) {lhs rhs : Source.Expr}
    (hlhs : (site.lower lhs).result = .error fault →
      FirstOf site.Accepts (site.Blames fault) lhs.visited)
    (hrhs : (site.lower rhs).result = .error fault →
      FirstOf site.Accepts (site.Blames fault) rhs.visited)
    (h : (site.lower (.elementwise op lhs rhs)).result = .error fault) :
    FirstOf site.Accepts (site.Blames fault) (Source.Expr.elementwise op lhs rhs).visited := by
  have steps : (site.lower lhs).result = .error fault ∨
      ∃ l, (site.lower lhs).result = .ok l ∧ ((site.lower rhs).result = .error fault ∨
        ∃ r, (site.lower rhs).result = .ok r ∧
          (site.applyArray op l.value r.value).result = .error fault) := by
    cases op <;>
      simpa only [Source.Expr.elementwise, lower, Traced.result_bind_eq_error_iff,
        Traced.result_pure, reduceCtorEq, and_false, exists_false, or_false] using h
  rw [Source.Expr.visited_elementwise]
  rcases steps with failed | ⟨l, hl, failed | ⟨r, hr, failed⟩⟩
  · exact (hlhs failed).append _
  · exact ((hrhs failed).append _).behind (Lowers.of_lower hl).accepts_visited
  · have refused := refuses_of_applyArray (Lowers.of_lower hl) (Lowers.of_lower hr) failed
    have own : FirstOf site.Accepts (site.Blames fault) [.elementwise op lhs rhs] :=
      firstOf_singleton ⟨h, refused⟩
    exact (own.behind (Lowers.of_lower hr).accepts_visited).behind
      (Lowers.of_lower hl).accepts_visited

/-- **The fault of an expression is that of its first faulty node**, lowered alone. -/
theorem firstOf_of_lower (h : (site.lower e).result = .error fault) :
    FirstOf site.Accepts (site.Blames fault) e.visited := by
  induction e using Site.lower.induct site with
  | case1 id entry found => simp [lower, found] at h
  | case2 id unknown =>
      have same : Fault.unknownName id = fault := by simpa [lower, unknown] using h
      subst same
      exact firstOf_singleton ⟨h, .unknown unknown⟩
  | case3 value => simp [lower] at h
  | case4 op lhs rhs ihl ihr => exact firstOf_of_lower_elementwise (.arith op) ihl ihr h
  | case5 lhs op rhs ihl ihr => exact firstOf_of_lower_elementwise (.compare op) ihl ihr h
  | case6 lhs =>
      have same : Fault.comparisonEmpty = fault := by simpa [lower] using h
      subst same
      exact firstOf_singleton ⟨h, .unpaired⟩
  | case7 lhs first second others =>
      have same : Fault.comparisonChained (first :: second :: others).length = fault := by
        simpa [lower] using h
      subst same
      exact firstOf_singleton ⟨h, .chained (by simp)⟩
  | case8 op operand ih =>
      have steps : (site.lower operand).result = .error fault ∨
          ∃ o, (site.lower operand).result = .ok o ∧
            (site.applyUnary op o.value).result = .error fault := by
        simpa only [lower, Traced.result_bind_eq_error_iff, Traced.result_pure, reduceCtorEq,
          and_false, exists_false, or_false] using h
      rw [Source.Expr.visited]
      rcases steps with failed | ⟨o, ho, failed⟩
      · exact (ih failed).append _
      · have refused := refuses_of_applyUnary (Lowers.of_lower ho) failed
        have own : FirstOf site.Accepts (site.Blames fault) [.unary op operand] :=
          firstOf_singleton ⟨h, refused⟩
        exact own.behind (Lowers.of_lower ho).accepts_visited
  | _ =>
      simp only [lower, Traced.result_fail, Except.error.injEq] at h
      subst h
      exact firstOf_singleton ⟨by simp [lower], .foreign rfl⟩

end Site

/-! ### Codes -/

/-- Does the shape have a symbol without a meaning? -/
def Shape.HasUnbound (symbols : Symbols) (shape : Shape) : Prop :=
  ∃ name, .symbol name ∈ shape.dims ∧ symbols.find? name = none

theorem Shape.code_of_ranges {shape : Shape} {symbols : Symbols} {index : ElementType}
    {fault : Fault} (h : shape.ranges symbols index = .error fault) :
    fault.code = .shapeMismatch ∨ fault.code = .unboundSymbol ∧ shape.HasUnbound symbols := by
  obtain ⟨dim, mem, refused⟩ := (ranges_eq_error_iff.mp h).exists_mem
  cases refused with
  | unaddressable _ => exact .inl rfl
  | unbound unbound => exact .inr ⟨rfl, _, mem, unbound⟩

theorem OperatorTable.code_of_resolve {table : OperatorTable} {lhs rhs : Operand} {op : ArrayOp}
    {fault : Fault} (h : table.resolve lhs rhs op = .error fault) :
    fault.code = .unsupportedOperand := by
  unfold resolve at h
  split at h
  · split at h
    · cases h
    · cases h
      rfl
  · cases h
    rfl

namespace Site

variable {site : Site} {fault : Fault}

/-- The check of the indices cannot fail: ranks were compared before. -/
theorem code_of_read {source : Buffer} {access : Shape}
    (h : (site.read source access).result = .error fault) :
    fault.code = .shapeMismatch ∨
      fault.code = .unboundSymbol ∧ access.HasUnbound site.env.symbols := by
  unfold read at h
  split_ifs at h with many ranks
  · cases h
    exact .inl rfl
  · cases h
    exact .inl rfl
  · rcases Traced.result_bind_eq_error_iff.mp h with unloaded | ⟨_, _, h⟩
    · have count : (site.indices access).length = source.rank := by
        rw [length_indices (by omega)]
        exact not_not.mp ranks
      rw [Traced.result_lift, Buffer.load_eq_ok_iff.mpr ⟨count, rfl⟩] at unloaded
      cases unloaded
    · rcases Traced.result_bind_eq_error_iff.mp h with unranged | ⟨_, _, ⟨⟩⟩
      rw [Shape.result_traceRanges] at unranged
      exact Shape.code_of_ranges unranged

/-- A node that is reported for an unknown name is that name, and one that is reported for an
unbound symbol asks for a buffer at a shape with such a symbol. -/
theorem Refuses.code_cases {node : Source.Expr} (h : site.Refuses node fault) :
    (fault.code = .unknownName ∧ ∃ id, node = .name id ∧ site.env.scope.find? id = none) ∨
      (fault.code = .unboundSymbol ∧
        ∃ source access, site.Asks node source access ∧ access.HasUnbound site.env.symbols) ∨
      fault.code ∈ [.unsupportedSyntax, .unsupportedOperand, .shapeMismatch] := by
  cases h with
  | unknown unknown => exact .inl ⟨rfl, _, rfl, unknown⟩
  | foreign _ => exact .inr (.inr (by simp [Fault.code]))
  | unpaired => exact .inr (.inr (by simp [Fault.code]))
  | chained _ => exact .inr (.inr (by simp [Fault.code]))
  | operator _ _ unresolved =>
      exact .inr (.inr (by simp [OperatorTable.code_of_resolve unresolved]))
  | read asks unread =>
      rcases code_of_read unread with shape | ⟨symbol, unbound⟩
      · exact .inr (.inr (by simp [shape]))
      · exact .inr (.inl ⟨symbol, _, _, asks, unbound⟩)

end Site

/-! ### Kernels -/

namespace AddColumn

def misspelledValue : Source.Expr :=
  .arith .add (.name "total") (.arith .mul (.name "colum") (.name "total"))

/-- A kernel with two faults: neither `colum` nor products are known in the environment. -/
def misspelled : Kernel := ⟨"add_column", total, total.shape, .ret (some misspelledValue)⟩

end AddColumn

namespace Kernel

variable {kernel : Kernel} {env : Environment} {settings : Settings} {ranges : List Range}
  {fault : Fault}

/-- A value that was lowered is not stored: it has not the output's shape, or it is a buffer that
may not be copied. -/
inductive Withholds (kernel : Kernel) (settings : Settings) : Lowered → Fault → Prop where
  | shape {lowered : Lowered} : lowered.shape.retained ≠ kernel.output.shape.retained →
      Withholds kernel settings lowered (.resultShape kernel.output.shape lowered.shape)
  | copy {source : Buffer} : source.shape.retained = kernel.output.shape.retained →
      settings.copies = false → Withholds kernel settings (.buffer source) (.bareBuffer source.name)

theorem Withholds.code_mem {lowered : Lowered} (h : kernel.Withholds settings lowered fault) :
    fault.code ∈ [.unsupportedSyntax, .unsupportedOperand, .shapeMismatch] := by
  cases h <;> simp [Fault.code]

/-- A buffer of the output's shape can be read under the loops over the output, so a copy that is
allowed does not fail. -/
theorem withholds_of_finish {lowered : Lowered}
    (hranges : kernel.output.shape.ranges env.symbols settings.indexType = .ok ranges)
    (h : ((site env settings ranges).finish settings.copies kernel.output lowered).result =
      .error fault) : kernel.Withholds settings lowered fault := by
  by_cases same : lowered.shape.retained = kernel.output.shape.retained
  · have below : lowered.shape.BroadcastsTo kernel.output.shape := .of_retained_eq same
    obtain ⟨value, reads, hvalue⟩ := Site.exists_materializes env hranges below
    have forbidden : ¬∀ source, lowered = .buffer source → settings.copies = true := by
      intro copies
      rw [(Site.finish_eq_ok_iff (e := ⟨value, reads⟩)).mpr ⟨same, copies, hvalue⟩] at h
      cases h
    cases lowered with
    | buffer source =>
        have copies : settings.copies = false := by simpa using forbidden
        have reported : Fault.bareBuffer source.name = fault := by
          simpa [Site.finish, Shape.sameRetained_iff.mpr same, copies] using h
        subst reported
        exact .copy same copies
    | array value type => simp at forbidden
    | scalar value type => simp at forbidden
  · have reported : Fault.resultShape kernel.output.shape lowered.shape = fault := by
      simpa [Site.finish, Shape.sameRetained_iff, same] using h
    subst reported
    exact .shape same

/-- The ways in which a kernel is refused, in the order of its checks. -/
inductive Refuses (kernel : Kernel) (env : Environment) (settings : Settings) : Fault → Prop where
  | statement {fault : Fault} : kernel.returned = .error fault → Refuses kernel env settings fault
  | declared : kernel.output.shape ≠ kernel.declared →
      Refuses kernel env settings (.declaredShape kernel.output.shape kernel.declared)
  | loops {fault : Fault} :
      kernel.output.shape.ranges env.symbols settings.indexType = .error fault →
      Refuses kernel env settings fault
  | value {e : Source.Expr} {ranges : List Range} {fault : Fault} :
      kernel.body = .ret (some e) →
      kernel.output.shape.ranges env.symbols settings.indexType = .ok ranges →
      ((site env settings ranges).lower e).result = .error fault →
      Refuses kernel env settings fault
  | store {e : Source.Expr} {ranges : List Range} {out : Emitted Lowered} {fault : Fault} :
      kernel.body = .ret (some e) →
      kernel.output.shape.ranges env.symbols settings.indexType = .ok ranges →
      ((site env settings ranges).lower e).result = .ok out →
      kernel.Withholds settings out.value fault →
      Refuses kernel env settings fault

theorem Refuses.of_lower (h : (kernel.lower env settings).result = .error fault) :
    kernel.Refuses env settings fault := by
  unfold lower at h
  rcases Traced.result_bind_eq_error_iff.mp h with failed | ⟨e, returned, h⟩
  · exact .statement failed
  have returned := returned_eq_ok_iff.mp returned
  rcases Traced.result_bind_eq_error_iff.mp h with failed | ⟨_, _, h⟩
  · rw [Traced.result_lift, checkDeclared] at failed
    split at failed
    · cases failed
    · next differs =>
        cases failed
        exact .declared differs
  rcases Traced.result_bind_eq_error_iff.mp h with failed | ⟨ranges, hranges, h⟩
  · rw [Shape.result_traceRanges] at failed
    exact .loops failed
  rw [Shape.result_traceRanges] at hranges
  rcases Traced.result_bind_eq_error_iff.mp h with ⟨⟨⟩⟩ | ⟨_, _, h⟩
  rcases Traced.result_bind_eq_error_iff.mp h with failed | ⟨out, hout, h⟩
  · exact .value returned hranges failed
  rcases Traced.result_bind_eq_error_iff.mp h with failed | ⟨stored, _, h⟩
  · exact .store returned hranges hout (withholds_of_finish hranges failed)
  rcases Traced.result_bind_eq_error_iff.mp h with ⟨⟨⟩⟩ | ⟨_, _, h⟩
  rcases Traced.result_bind_eq_error_iff.mp h with failed | ⟨_, _, ⟨⟩⟩
  rw [Traced.result_lift, kernel.store_eq_ok stored.value hranges] at failed
  cases failed

theorem exists_refuses_of_compile {diagnostic : Diagnostic}
    (h : kernel.compile env settings = .error diagnostic) :
    ∃ fault, kernel.Refuses env settings fault ∧
      diagnostic = fault.diagnostic.inKernel kernel.name := by
  unfold compile at h
  split at h
  · cases h
  · next fault failed =>
      cases h
      exact ⟨fault, .of_lower failed, rfl⟩

/-- Once the loops over the output are made, only the value and its store can be refused. -/
theorem Refuses.after_loops {e : Source.Expr} (h : kernel.Refuses env settings fault)
    (returns : kernel.body = .ret (some e)) (declared : kernel.output.shape = kernel.declared)
    (hranges : kernel.output.shape.ranges env.symbols settings.indexType = .ok ranges) :
    ((site env settings ranges).lower e).result = .error fault ∨
      ∃ out, ((site env settings ranges).lower e).result = .ok out ∧
        kernel.Withholds settings out.value fault := by
  cases h with
  | statement failed =>
      rw [returned_eq_ok_iff.mpr returns] at failed
      cases failed
  | declared differs => exact absurd declared differs
  | loops failed =>
      rw [hranges] at failed
      cases failed
  | value returns' hranges' failed =>
      cases returns.symm.trans returns'
      cases hranges.symm.trans hranges'
      exact .inl failed
  | store returns' hranges' hout withheld =>
      cases returns.symm.trans returns'
      cases hranges.symm.trans hranges'
      exact .inr ⟨_, hout, withheld⟩

/-- Some operator in the returned value asks for one of its operands as an array of shape
`access`. -/
def AsksAt (kernel : Kernel) (env : Environment) (settings : Settings) (access : Shape) : Prop :=
  ∃ e ranges node source, kernel.body = .ret (some e) ∧
    kernel.output.shape.ranges env.symbols settings.indexType = .ok ranges ∧ node ∈ e.visited ∧
    (site env settings ranges).Asks node source access

/-- What a kernel has to do with the code that it is reported under. -/
theorem Refuses.code_cases (h : kernel.Refuses env settings fault) :
    (fault.code = .emptyReturn ∧ kernel.body = .ret none) ∨
      (fault.code = .unknownName ∧ ∃ e id, kernel.body = .ret (some e) ∧ .name id ∈ e.visited ∧
        env.scope.find? id = none) ∨
      (fault.code = .unboundSymbol ∧ ∃ shape : Shape,
        (shape = kernel.output.shape ∨ kernel.AsksAt env settings shape) ∧
          shape.HasUnbound env.symbols) ∨
      fault.code ∈ [.unsupportedSyntax, .unsupportedOperand, .shapeMismatch] := by
  cases h with
  | statement failed =>
      unfold returned at failed
      split at failed
      · cases failed
      · next empty =>
          cases failed
          exact .inl ⟨rfl, empty⟩
      · cases failed
        exact .inr (.inr (.inr (by simp [Fault.code])))
  | declared _ => exact .inr (.inr (.inr (by simp [Fault.code])))
  | loops failed =>
      rcases Shape.code_of_ranges failed with shape | ⟨symbol, unbound⟩
      · exact .inr (.inr (.inr (by simp [shape])))
      · exact .inr (.inr (.inl ⟨symbol, _, .inl rfl, unbound⟩))
  | value returned hranges failed =>
      obtain ⟨node, mem, _, refused⟩ := (Site.firstOf_of_lower failed).exists_mem
      rcases refused.code_cases with
        ⟨name, id, rfl, unknown⟩ | ⟨symbol, source, access, asks, unbound⟩ | other
      · exact .inr (.inl ⟨name, _, id, returned, mem, unknown⟩)
      · have asked : kernel.AsksAt env settings access :=
          ⟨_, _, node, source, returned, hranges, mem, asks⟩
        exact .inr (.inr (.inl ⟨symbol, access, .inr asked, unbound⟩))
      · exact .inr (.inr (.inr other))
  | store _ _ _ withheld => exact .inr (.inr (.inr withheld.code_mem))

/-- **A kernel is reported for its first fault**, under any operator table. Once the loops over its
output are made, a value that is not lowered is reported for the first of its nodes, operands before
operators and left before right, that is not lowered, and with the fault that this node has alone. A
value that is lowered is reported for its shape, or as a copy that is not allowed; a copy that is
allowed does not fail to be read. Hence an unknown name is reported only if a name in the value is
not in scope, an unbound symbol only if there is one in the output's shape or in a shape at which an
operand is read, and a missing value exactly if there is none. -/
theorem compile_reports_first_fault (kernel : Kernel) (env : Environment) (settings : Settings) :
    (∀ diagnostic, kernel.compile env settings = .error diagnostic →
      (∀ e ranges, kernel.body = .ret (some e) → kernel.output.shape = kernel.declared →
        kernel.output.shape.ranges env.symbols settings.indexType = .ok ranges →
        (∀ fault, ((site env settings ranges).lower e).result = .error fault →
          FirstOf (site env settings ranges).Accepts
              (fun node => ((site env settings ranges).lower node).result = .error fault)
              e.visited ∧
            diagnostic = fault.diagnostic.inKernel kernel.name) ∧
        ∀ out, ((site env settings ranges).lower e).result = .ok out →
          ∃ fault, kernel.Withholds settings out.value fault ∧
            diagnostic = fault.diagnostic.inKernel kernel.name) ∧
      (diagnostic.code = .unknownName →
        ∃ e id, kernel.body = .ret (some e) ∧ .name id ∈ e.visited ∧ env.scope.find? id = none) ∧
      (diagnostic.code = .unboundSymbol →
        ∃ shape : Shape, (shape = kernel.output.shape ∨ kernel.AsksAt env settings shape) ∧
          shape.HasUnbound env.symbols)) ∧
    ((∃ diagnostic, kernel.compile env settings = .error diagnostic ∧
      diagnostic.code = .emptyReturn) ↔ kernel.body = .ret none) := by
  constructor
  · intro diagnostic h
    obtain ⟨fault, refused, rfl⟩ := exists_refuses_of_compile h
    refine ⟨?_, ?_, ?_⟩
    · intro e ranges returns declared hranges
      rcases refused.after_loops returns declared hranges with failed | ⟨out, hout, withheld⟩
      · rw [failed]
        constructor
        · rintro _ ⟨⟩
          exact ⟨(Site.firstOf_of_lower failed).imp fun _ blamed => blamed.1, rfl⟩
        · rintro _ ⟨⟩
      · rw [hout]
        constructor
        · rintro _ ⟨⟩
        · rintro _ ⟨⟩
          exact ⟨fault, withheld, rfl⟩
    · intro code
      have code : fault.code = .unknownName := code
      simpa [code] using refused.code_cases
    · intro code
      have code : fault.code = .unboundSymbol := code
      simpa [code] using refused.code_cases
  · constructor
    · rintro ⟨diagnostic, h, code⟩
      obtain ⟨fault, refused, rfl⟩ := exists_refuses_of_compile h
      have code : fault.code = .emptyReturn := code
      simpa [code] using refused.code_cases
    · intro empty
      have returned : kernel.returned = .error .emptyReturn := by simp [Kernel.returned, empty]
      have failed : (kernel.lower env settings).result = .error .emptyReturn := by
        unfold lower
        exact Traced.result_bind_eq_error_iff.mpr (.inl returned)
      exact ⟨_, by rw [compile, failed], rfl⟩

/-- The name is reported: it comes before the product, and after the total, which is lowered. -/
theorem compile_reports_first_fault_misspelled :
    AddColumn.misspelled.compile AddColumn.env {} =
        .error ((Fault.unknownName "colum").diagnostic.inKernel "add_column") ∧
      FirstOf (site AddColumn.env {} [AddColumn.rows, AddColumn.columns 3]).Accepts
        (fun node => ((site AddColumn.env {} [AddColumn.rows, AddColumn.columns 3]).lower
          node).result = .error (.unknownName "colum"))
        [.name "total", .name "colum", .name "total", .arith .mul (.name "colum") (.name "total"),
          AddColumn.misspelledValue] ∧
      ∃ e id, AddColumn.misspelled.body = .ret (some e) ∧ .name id ∈ e.visited ∧
        AddColumn.scope.find? id = none := by
  have refused : AddColumn.misspelled.compile AddColumn.env {} =
      .error ((Fault.unknownName "colum").diagnostic.inKernel "add_column") := rfl
  obtain ⟨first, unknown, _⟩ :=
    (compile_reports_first_fault AddColumn.misspelled AddColumn.env {}).1 _ refused
  have decided := first AddColumn.misspelledValue [AddColumn.rows, AddColumn.columns 3] rfl rfl rfl
  exact ⟨refused, (decided.1 _ rfl).1, unknown rfl⟩

end Kernel

end ArrayKernel
