import ArrayKernel.Proofs.Changes

/-!
Two lowerings in step.

Some changes to a kernel and to what it is lowered against show in the block and in the messages,
but in nothing that lowering decides: the second run takes the branches of the first one, fails
where the first one fails, and records the same steps. Such runs are compared here, whatever their
outcome. Shapes may differ by a change that keeps the retained dimensions (`Shape.Faithful`), reads
by any change of loads, and the read regions by any relation.

* `Fault.mapShape`, `Event.mapShape`: a change of shapes in messages. The code of a fault stays.
* `Traced.InStep`: two computations have the same events and the same outcome, up to a change of
  shapes. `Traced.InStep.bind` composes them.
* `Site.Follows`: what has to be known of two sites. `Site.Follows.lower` then compares how they
  lower an expression.
* `Kernel.lower_inStep`: the same for kernels.
-/

namespace ArrayKernel

open Loop (Expr Load Range Region Block)

/-! ### Changing the shapes in messages -/

def Operand.mapShape (f : Shape → Shape) : Operand → Operand
  | .stored buffer => .stored (buffer.mapShape f)
  | .computed type => .computed (type.mapShape f)
  | .scalar type => .scalar type

def OperatorInstance.mapShape (f : Shape → Shape) (inst : OperatorInstance) : OperatorInstance :=
  ⟨inst.result.mapShape f, f inst.lhsAccess, f inst.rhsAccess⟩

/-- The fault with all shapes in it changed. -/
def Fault.mapShape (f : Shape → Shape) : Fault → Fault
  | .scalarOperand op lhs rhs => .scalarOperand op (lhs.mapShape f) (rhs.mapShape f)
  | .noOperator op lhs rhs => .noOperator op (lhs.mapShape f) (rhs.mapShape f)
  | .declaredShape output declared => .declaredShape (f output) (f declared)
  | .resultShape output result => .resultShape (f output) (f result)
  | .tooManyDims buffer loops => .tooManyDims (buffer.mapShape f) loops
  | .accessRank access buffer => .accessRank (f access) (buffer.mapShape f)
  | .indexCount count buffer => .indexCount count (buffer.mapShape f)
  | .unaddressable extent shape => .unaddressable extent (f shape)
  | .unboundSymbol name shape => .unboundSymbol name (f shape)
  | fault => fault

/-- The event with the shape in it changed. -/
def Event.mapShape (f : Shape → Shape) : Event → Event
  | .ranges shape retained => .ranges (f shape) retained
  | .read buffer access => .read buffer (f access)
  | .loops kernel count output => .loops kernel count (f output)
  | .body kernel reads => .body kernel reads

section MapShape

variable (f : Shape → Shape)

@[simp] theorem Operand.arrayType?_mapShape (operand : Operand) :
    (operand.mapShape f).arrayType? = operand.arrayType?.map (ArrayType.mapShape f) := by
  cases operand <;> rfl

@[simp] theorem Lowered.operand_change (g : Load → Load) (lowered : Lowered) :
    (lowered.change f g).operand = lowered.operand.mapShape f := by
  cases lowered <;> rfl

/-- A fault keeps its code under a change of shapes. -/
@[simp] theorem Fault.code_mapShape (fault : Fault) : (fault.mapShape f).code = fault.code := by
  cases fault <;> rfl

end MapShape

/-- A change of shapes that keeps the retained dimensions of each. -/
structure Shape.Faithful (f : Shape → Shape) : Prop where
  scalar : f .scalar = .scalar
  retained_eq : ∀ s : Shape, (f s).retained = s.retained

theorem Shape.Faithful.rank_eq {f : Shape → Shape} (faithful : Shape.Faithful f) (s : Shape) :
    (f s).rank = s.rank := by
  rw [Shape.rank, faithful.retained_eq, Shape.rank]

/-! ### Outcomes and computations -/

section InStep

variable {α β γ δ : Type} {f : Shape → Shape} {R : α → β → Prop} {S : γ → δ → Prop}

/-- Two outcomes are both values, which are related, or both faults, which differ in shapes only. -/
inductive SameOutcome (f : Shape → Shape) (R : α → β → Prop) :
    Except Fault α → Except Fault β → Prop where
  | ok {a : α} {b : β} : R a b → SameOutcome f R (.ok a) (.ok b)
  | error (fault : Fault) : SameOutcome f R (.error fault) (.error (fault.mapShape f))

theorem SameOutcome.imp {R' : α → β → Prop} {x : Except Fault α} {y : Except Fault β}
    (h : SameOutcome f R x y) (weaken : ∀ a b, R a b → R' a b) : SameOutcome f R' x y := by
  cases h with
  | ok related => exact .ok (weaken _ _ related)
  | error fault => exact .error fault

namespace Traced

variable {x : Traced α} {y : Traced β}

/-- Two computations go in step: up to a change of shapes they have the same events and outcome. -/
structure InStep (f : Shape → Shape) (R : α → β → Prop) (x : Traced α) (y : Traced β) : Prop where
  events : y.events = x.events.map (Event.mapShape f)
  result : SameOutcome f R x.result y.result

theorem InStep.imp {R' : α → β → Prop} (h : InStep f R x y) (weaken : ∀ a b, R a b → R' a b) :
    InStep f R' x y :=
  ⟨h.events, h.result.imp weaken⟩

theorem InStep.pure {a : α} {b : β} (h : R a b) :
    InStep f R (Pure.pure a : Traced α) (Pure.pure b) :=
  ⟨rfl, .ok h⟩

theorem InStep.fail (fault : Fault) : InStep f R (fail fault) (fail (fault.mapShape f)) :=
  ⟨rfl, .error fault⟩

theorem InStep.emit (event : Event) :
    InStep f (fun _ _ => True) (emit event) (emit (event.mapShape f)) :=
  ⟨rfl, .ok trivial⟩

theorem InStep.lift {x : Except Fault α} {y : Except Fault β} (h : SameOutcome f R x y) :
    InStep f R (lift x) (lift y) :=
  ⟨rfl, h⟩

/-- **Computations in two parts go in step if their parts do.** The second parts may rely on what
the first ones returned. -/
theorem InStep.bind {next : α → Traced γ} {next' : β → Traced δ} (h : InStep f R x y)
    (k : ∀ a b, x.result = .ok a → y.result = .ok b → R a b → InStep f S (next a) (next' b)) :
    InStep f S (x >>= next) (y >>= next') := by
  obtain ⟨events, result⟩ := h
  generalize hx : x.result = outcome, hy : y.result = outcome' at result
  cases result with
  | ok related =>
      have step := k _ _ hx hy related
      constructor
      · rw [events_bind_of_ok hx, events_bind_of_ok hy, events, step.events, List.map_append]
      · rw [result_bind, result_bind, hx, hy]
        exact step.result
  | error fault =>
      constructor
      · rw [events_bind_of_error hx, events_bind_of_error hy, events]
      · rw [result_bind, result_bind, hx, hy]
        exact .error fault

end Traced

end InStep

/-! ### Expressions -/

/-- The second emission is the first one with its value changed and related regions. -/
def Emitted.Like {α : Type} (change : α → α) (G : Region → Region → Prop)
    (out out' : Emitted α) : Prop :=
  out'.value = change out.value ∧ List.Forall₂ G out.reads out'.reads

/-- `site'` has as many loops as `site` and answers the same requests, up to a change `f` of shapes.
Elements are read there by a change `g` of loads, and their regions are related. -/
structure Site.Follows (f : Shape → Shape) (g : Load → Load) (G : Region → Region → Prop)
    (site site' : Site) : Prop where
  length_eq : site'.iterVars.length = site.iterVars.length
  find?_eq : ∀ id, site'.env.scope.find? id = (site.env.scope.find? id).map (Entry.mapShape f)
  operators_eq : ∀ l r op, site'.env.operators (l.mapShape f) (r.mapShape f) op =
    (site.env.operators l r op).map (OperatorInstance.mapShape f)
  load_eq : ∀ buffer access,
    g ⟨buffer, site.indices access⟩ = ⟨buffer.mapShape f, site'.indices (f access)⟩
  ranges : ∀ access : Shape, SameOutcome f
    (fun ranges ranges' => ∀ buffer : Buffer, G ⟨buffer, ranges⟩ ⟨buffer.mapShape f, ranges'⟩)
    (access.ranges site.env.symbols site.indexType)
    ((f access).ranges site'.env.symbols site'.indexType)

/-- What is recorded about ranges is in step if the ranges are. -/
theorem Shape.traceRanges_inStep {f : Shape → Shape} (faithful : Shape.Faithful f)
    {R : List Range → List Range → Prop} {shape : Shape} {symbols symbols' : Symbols}
    {index index' : ElementType}
    (h : SameOutcome f R (shape.ranges symbols index) ((f shape).ranges symbols' index')) :
    Traced.InStep f R (shape.traceRanges symbols index)
      ((f shape).traceRanges symbols' index') := by
  refine (Traced.InStep.lift h).bind ?_
  intro ranges ranges' hranges hranges' related
  have count : ranges'.length = ranges.length := by
    rw [length_of_ranges_eq_ok hranges, length_of_ranges_eq_ok hranges', faithful.rank_eq]
  rw [count]
  refine (Traced.InStep.emit (.ranges shape ranges.length)).bind ?_
  intro _ _ _ _ _
  exact .pure related

namespace OperatorTable

/-- A table that follows another one refuses the same operands. -/
theorem resolve_sameOutcome {f : Shape → Shape} {table table' : OperatorTable}
    (h : ∀ l r op, table' (l.mapShape f) (r.mapShape f) op =
      (table l r op).map (OperatorInstance.mapShape f)) (lhs rhs : Operand) (op : ArrayOp) :
    SameOutcome f (fun inst inst' => inst' = inst.mapShape f) (table.resolve lhs rhs op)
      (table'.resolve (lhs.mapShape f) (rhs.mapShape f) op) := by
  unfold resolve
  rw [Operand.arrayType?_mapShape, Operand.arrayType?_mapShape]
  cases lhs.arrayType? with
  | none => exact .error (.scalarOperand op lhs rhs)
  | some l =>
      cases rhs.arrayType? with
      | none => exact .error (.scalarOperand op lhs rhs)
      | some r =>
          simp only [Option.map_some, h]
          cases table l r op with
          | none => exact .error (.noOperator op lhs rhs)
          | some inst => exact .ok rfl

end OperatorTable

namespace Site

variable {f : Shape → Shape} {g : Load → Load} {G : Region → Region → Prop} {site site' : Site}

theorem Follows.read (h : Follows f g G site site') (faithful : Shape.Faithful f)
    (buffer : Buffer) (access : Shape) :
    Traced.InStep f (Emitted.Like (Loop.Expr.mapLoads g) G) (site.read buffer access)
      (site'.read (buffer.mapShape f) (f access)) := by
  have rank : (buffer.mapShape f).rank = buffer.rank := faithful.rank_eq buffer.shape
  have accessRank : (f access).rank = access.rank := faithful.rank_eq access
  unfold Site.read
  rw [h.length_eq, rank, accessRank]
  split_ifs with many ranks
  · exact .fail (.tooManyDims buffer site.iterVars.length)
  · exact .fail (.accessRank access buffer)
  · -- Both loads pass their check: there are as many indices as dimensions.
    have same : access.rank = buffer.rank := not_not.mp ranks
    have fits : access.rank ≤ site.iterVars.length := by omega
    have count : (site.indices access).length = buffer.rank := (length_indices fits).trans same
    have count' : (site'.indices (f access)).length = (buffer.mapShape f).rank := by
      rw [length_indices (by rw [accessRank, h.length_eq]; exact fits), accessRank, rank, same]
    have loads : SameOutcome f (fun value value' => value' = value.mapLoads g)
        (buffer.load (site.indices access))
        ((buffer.mapShape f).load (site'.indices (f access))) := by
      rw [Buffer.load_eq_ok_iff.mpr ⟨count, rfl⟩, Buffer.load_eq_ok_iff.mpr ⟨count', rfl⟩]
      exact .ok (by rw [Loop.Expr.mapLoads, h.load_eq])
    refine (Traced.InStep.lift loads).bind ?_
    rintro value _ _ _ rfl
    refine (Shape.traceRanges_inStep faithful (h.ranges access)).bind ?_
    intro ranges ranges' _ _ related
    refine (Traced.InStep.emit (.read buffer.name access)).bind ?_
    intro _ _ _ _ _
    exact .pure ⟨rfl, .cons (related buffer) .nil⟩

theorem Follows.materialize (h : Follows f g G site site') (faithful : Shape.Faithful f)
    (access : Shape) (lowered : Lowered) :
    Traced.InStep f (Emitted.Like (Loop.Expr.mapLoads g) G) (site.materialize access lowered)
      (site'.materialize (f access) (lowered.change f g)) := by
  cases lowered with
  | buffer source => exact h.read faithful source access
  | array value type => exact .pure ⟨rfl, .nil⟩
  | scalar value type => exact .pure ⟨rfl, .nil⟩

theorem Follows.applyArray (h : Follows f g G site site') (faithful : Shape.Faithful f)
    (op : ArrayOp) (l r : Lowered) :
    Traced.InStep f (Emitted.Like (Lowered.change f g) G) (site.applyArray op l r)
      (site'.applyArray op (l.change f g) (r.change f g)) := by
  have resolved := OperatorTable.resolve_sameOutcome h.operators_eq l.operand r.operand op
  rw [← Lowered.operand_change f g, ← Lowered.operand_change f g] at resolved
  refine (Traced.InStep.lift resolved).bind ?_
  rintro inst _ _ _ rfl
  refine (h.materialize faithful inst.lhsAccess l).bind ?_
  rintro lv lv' _ _ ⟨hl, ls⟩
  refine (h.materialize faithful inst.rhsAccess r).bind ?_
  rintro rv rv' _ _ ⟨hr, rs⟩
  refine .pure ⟨?_, List.rel_append ls rs⟩
  rw [hl, hr, Lowered.change, Loop.Expr.mapLoads_elementwise]
  rfl

theorem Follows.applyUnary (h : Follows f g G site site') (faithful : Shape.Faithful f)
    (op : UnaryOp) (lowered : Lowered) :
    Traced.InStep f (Emitted.Like (Lowered.change f g) G) (site.applyUnary op lowered)
      (site'.applyUnary op (lowered.change f g)) := by
  cases lowered with
  | buffer source =>
      refine (h.read faithful source source.shape).bind ?_
      rintro e e' _ _ ⟨hvalue, hreads⟩
      refine .pure ⟨?_, hreads⟩
      rw [hvalue]
      rfl
  | array value type => exact .pure ⟨rfl, .nil⟩
  | scalar value type => exact .pure ⟨rfl, .nil⟩

/-- The elementwise case of `Follows.lower`, for both kinds of operators. -/
theorem Follows.lower_elementwise (h : Follows f g G site site') (faithful : Shape.Faithful f)
    (op : ArrayOp) {lhs rhs : Source.Expr}
    (hlhs : Traced.InStep f (Emitted.Like (Lowered.change f g) G) (site.lower lhs)
      (site'.lower lhs))
    (hrhs : Traced.InStep f (Emitted.Like (Lowered.change f g) G) (site.lower rhs)
      (site'.lower rhs)) :
    Traced.InStep f (Emitted.Like (Lowered.change f g) G) (site.lower (.elementwise op lhs rhs))
      (site'.lower (.elementwise op lhs rhs)) := by
  cases op <;>
  · simp only [Source.Expr.elementwise, Site.lower]
    refine hlhs.bind ?_
    rintro l ⟨_, ls'⟩ _ _ ⟨rfl, ls⟩
    refine hrhs.bind ?_
    rintro r ⟨_, rs'⟩ _ _ ⟨rfl, rs⟩
    refine (h.applyArray faithful _ l.value r.value).bind ?_
    rintro e ⟨_, es'⟩ _ _ ⟨rfl, es⟩
    exact .pure ⟨rfl, List.rel_append (List.rel_append ls rs) es⟩

/-- **Lowering goes in step at sites that follow each other**, on every expression. -/
theorem Follows.lower (h : Follows f g G site site') (faithful : Shape.Faithful f)
    (e : Source.Expr) :
    Traced.InStep f (Emitted.Like (Lowered.change f g) G) (site.lower e) (site'.lower e) := by
  induction e using Site.lower.induct site with
  | case1 id entry found =>
      have found' : site'.env.scope.find? id = some (entry.mapShape f) := by
        rw [h.find?_eq, found]
        rfl
      simp only [Site.lower, found, found']
      exact .pure ⟨(Lowered.change_ofEntry entry).symm, .nil⟩
  | case2 id unknown =>
      have unknown' : site'.env.scope.find? id = none := by
        rw [h.find?_eq, unknown]
        rfl
      simp only [Site.lower, unknown, unknown']
      exact .fail (.unknownName id)
  | case3 value =>
      simp only [Site.lower]
      exact .pure ⟨(Lowered.change_ofLiteral value).symm, .nil⟩
  | case4 op lhs rhs ihl ihr => exact h.lower_elementwise faithful (.arith op) ihl ihr
  | case5 lhs op rhs ihl ihr => exact h.lower_elementwise faithful (.compare op) ihl ihr
  | case8 op operand ih =>
      simp only [Site.lower]
      refine ih.bind ?_
      rintro o ⟨_, os'⟩ _ _ ⟨rfl, os⟩
      refine (h.applyUnary faithful op o.value).bind ?_
      rintro e ⟨_, es'⟩ _ _ ⟨rfl, es⟩
      exact .pure ⟨rfl, List.rel_append os es⟩
  | _ =>
      simp only [Site.lower]
      exact .fail _

theorem Follows.finish (h : Follows f g G site site') (faithful : Shape.Faithful f) (copies : Bool)
    (output : Buffer) (lowered : Lowered) :
    Traced.InStep f (Emitted.Like (Loop.Expr.mapLoads g) G) (site.finish copies output lowered)
      (site'.finish copies (output.mapShape f) (lowered.change f g)) := by
  have shape : (lowered.change f g).shape = f lowered.shape :=
    Lowered.shape_change faithful.scalar lowered
  have same : (f lowered.shape).sameRetained (output.mapShape f).shape =
      lowered.shape.sameRetained output.shape := by
    rw [Shape.sameRetained, Shape.sameRetained, faithful.retained_eq]
    exact congrArg _ (faithful.retained_eq output.shape)
  unfold Site.finish
  rw [shape, same]
  by_cases fits : lowered.shape.sameRetained output.shape = true
  · rw [if_pos fits, if_pos fits]
    cases lowered with
    | buffer source =>
        cases copies with
        | true => exact h.read faithful source source.shape
        | false => exact .fail (.bareBuffer source.name)
    | array value type => exact .pure ⟨rfl, .nil⟩
    | scalar value type => exact .pure ⟨rfl, .nil⟩
  · rw [if_neg fits, if_neg fits]
    exact .fail (.resultShape output.shape lowered.shape)

end Site

/-! ### Kernels -/

namespace Kernel

/-- The store of a value at the counters of the loops over the kernel's output. -/
def storeOf (kernel : Kernel) (settings : Settings) (ranges : List Range) (value : Expr) :
    Loop.Store :=
  ⟨kernel.output, (settings.iterVars ranges).map fun loop => .var loop.var, value⟩

/-- The block that stores a value at every point of the kernel's output. -/
def blockOf (kernel : Kernel) (settings : Settings) (ranges : List Range) (reads : List Region)
    (value : Expr) : Block :=
  ⟨settings.iterVars ranges, reads, [⟨kernel.output, ranges⟩], kernel.name,
    kernel.storeOf settings ranges value⟩

/-- The blocks of two lowerings in step: each loops over the ranges of its own output, their regions
are related, and the reads in the second value are changed. -/
inductive BlocksInStep (f : Shape → Shape) (g : Load → Load) (G : Region → Region → Prop)
    (kernel : Kernel) (env env' : Environment) (settings settings' : Settings) :
    Block → Block → Prop where
  | intro {ranges ranges' : List Range} {reads reads' : List Region} {value : Expr} :
      kernel.output.shape.ranges env.symbols settings.indexType = .ok ranges →
      (f kernel.output.shape).ranges env'.symbols settings'.indexType = .ok ranges' →
      List.Forall₂ G reads reads' →
      BlocksInStep f g G kernel env env' settings settings'
        (kernel.blockOf settings ranges reads value)
        ((kernel.mapShape f).blockOf settings' ranges' reads' (value.mapLoads g))

variable {f : Shape → Shape} {g : Load → Load} {G : Region → Region → Prop} {kernel : Kernel}
  {env env' : Environment} {settings settings' : Settings}

theorem returned_sameOutcome (f : Shape → Shape) (kernel : Kernel) :
    SameOutcome f Eq kernel.returned (kernel.mapShape f).returned := by
  show SameOutcome f Eq kernel.returned kernel.returned
  unfold Kernel.returned
  split
  · exact .ok rfl
  · exact .error .emptyReturn
  · exact .error (.statement _)

theorem checkDeclared_sameOutcome
    (declared : f kernel.output.shape = f kernel.declared ↔ kernel.output.shape = kernel.declared) :
    SameOutcome f Eq kernel.checkDeclared (kernel.mapShape f).checkDeclared := by
  show SameOutcome f Eq (if kernel.output.shape = kernel.declared then _ else _)
    (if f kernel.output.shape = f kernel.declared then _ else _)
  rw [if_congr declared rfl rfl]
  split_ifs
  · exact .ok rfl
  · exact .error (.declaredShape kernel.output.shape kernel.declared)

/-- A block's store passes its check: there is one loop for each dimension of the output. -/
theorem store_eq_ok (kernel : Kernel) {symbols : Symbols} {ranges : List Range} (value : Expr)
    (hranges : kernel.output.shape.ranges symbols settings.indexType = .ok ranges) :
    kernel.output.store ((settings.iterVars ranges).map fun loop => .var loop.var) value =
      .ok (kernel.storeOf settings ranges value) := by
  refine Buffer.store_eq_ok_iff.mpr ⟨?_, rfl⟩
  simp [Settings.iterVars, Shape.length_of_ranges_eq_ok hranges, Buffer.rank]

/-- **Kernels are lowered in step** if the ranges of their outputs are in step and the sites under
the loops over them follow each other. -/
theorem lower_inStep (faithful : Shape.Faithful f) (copies : settings'.copies = settings.copies)
    (declared : f kernel.output.shape = f kernel.declared ↔ kernel.output.shape = kernel.declared)
    (loops : SameOutcome f (fun _ _ => True)
      (kernel.output.shape.ranges env.symbols settings.indexType)
      ((f kernel.output.shape).ranges env'.symbols settings'.indexType))
    (follows : ∀ {ranges ranges' : List Range},
      kernel.output.shape.ranges env.symbols settings.indexType = .ok ranges →
      (f kernel.output.shape).ranges env'.symbols settings'.indexType = .ok ranges' →
      Site.Follows f g G (site env settings ranges) (site env' settings' ranges')) :
    Traced.InStep f (BlocksInStep f g G kernel env env' settings settings')
      (kernel.lower env settings) ((kernel.mapShape f).lower env' settings') := by
  unfold Kernel.lower
  refine (Traced.InStep.lift (kernel.returned_sameOutcome f)).bind ?_
  rintro e _ _ _ rfl
  refine (Traced.InStep.lift (checkDeclared_sameOutcome declared)).bind ?_
  intro _ _ _ _ _
  refine (Shape.traceRanges_inStep faithful loops).bind ?_
  intro ranges ranges' hranges hranges' _
  rw [Shape.result_traceRanges] at hranges hranges'
  have follows := follows hranges hranges'
  have count : (settings'.iterVars ranges').length = (settings.iterVars ranges).length :=
    follows.length_eq
  simp only [count]
  refine (Traced.InStep.emit (.loops kernel.name _ kernel.output.shape)).bind ?_
  intro _ _ _ _ _
  refine (follows.lower faithful e).bind ?_
  rintro lowered ⟨_, reads'⟩ _ _ ⟨rfl, hreads⟩
  rw [copies]
  refine (follows.finish faithful settings.copies kernel.output lowered.value).bind ?_
  rintro stored ⟨_, own'⟩ _ _ ⟨rfl, hown⟩
  have regions : List.Forall₂ G (lowered.reads ++ stored.reads) (reads' ++ own') :=
    List.rel_append hreads hown
  simp only [← regions.length_eq]
  refine (Traced.InStep.emit (.body kernel.name _)).bind ?_
  intro _ _ _ _ _
  -- The last check is the store's, and it does not fail in either run.
  rw [kernel.store_eq_ok stored.value hranges,
    (kernel.mapShape f).store_eq_ok (stored.value.mapLoads g) hranges']
  have stores : SameOutcome f
      (fun body body' => body = kernel.storeOf settings ranges stored.value ∧
        body' = (kernel.mapShape f).storeOf settings' ranges' (stored.value.mapLoads g))
      (.ok _) (.ok _) := .ok ⟨rfl, rfl⟩
  refine (Traced.InStep.lift stores).bind ?_
  rintro _ _ _ _ ⟨rfl, rfl⟩
  exact .pure (.intro hranges hranges' regions)

/-- Kernels that are lowered in step are both compiled, or both reported for the same fault up to
the shapes in it. -/
theorem compile_of_inStep {R : Block → Block → Prop} {kernel' : Kernel}
    (h : Traced.InStep f R (kernel.lower env settings) (kernel'.lower env' settings')) :
    (∃ block block', kernel.compile env settings = .ok block ∧
        kernel'.compile env' settings' = .ok block' ∧ R block block') ∨
      ∃ fault : Fault,
        kernel.compile env settings = .error (fault.diagnostic.inKernel kernel.name) ∧
          kernel'.compile env' settings' =
            .error ((fault.mapShape f).diagnostic.inKernel kernel'.name) := by
  have outcome := h.result
  unfold Kernel.compile
  generalize (kernel.lower env settings).result = x, (kernel'.lower env' settings').result = y at *
  cases outcome with
  | ok related => exact .inl ⟨_, _, rfl, rfl, related⟩
  | error fault => exact .inr ⟨fault, rfl, rfl⟩

end Kernel

end ArrayKernel
