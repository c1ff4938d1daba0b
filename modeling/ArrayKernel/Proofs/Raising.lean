import ArrayKernel.Proofs.Footprint
import Mathlib.Data.List.Induction

/-!
From values back to expressions.

A value differs from the expression that it was lowered from by what lowering adds: indices, element
types, and buffers in place of their names. `Loop.Expr.raise` takes all of this away.

* `Scope.find?_ofEntries`: a name stands for what was last declared under it.
* `Site.Lowers.raise_eq`: what is lowered is raised to the expression that it comes from.
* `Site.Lowers.permitted`: an expression that is lowered holds no construct that kernels may not
  use, at any depth.
* `Kernel.compile_raises_to_source`: the value of a compiled block is raised to the kernel's body,
  and its reads are from the buffers that the names in it stand for.
-/

namespace ArrayKernel

open Loop (Expr Load Region Block)

/-! ### Scopes by declarations -/

namespace Scope

/-- The scope after the given declarations, the first one first. -/
def ofEntries (entries : List Entry) : Scope :=
  entries.foldl insert empty

theorem find?_insert (scope : Scope) (entry : Entry) (name : String) :
    (scope.insert entry).find? name =
      if entry.name = name then some entry else scope.find? name := by
  split_ifs with same
  · subst same
    exact find?_insert_self scope entry
  · exact find?_insert_of_ne same

/-- A name stands for the last of its declarations. -/
theorem find?_ofEntries (entries : List Entry) (name : String) :
    (ofEntries entries).find? name = entries.reverse.find? fun entry => entry.name == name := by
  induction entries using List.reverseRecOn with
  | nil => rfl
  | append_singleton entries entry ih =>
      have last : ofEntries (entries ++ [entry]) = (ofEntries entries).insert entry := by
        simp [ofEntries]
      rw [last, find?_insert, ih, List.reverse_append, List.reverse_singleton,
        List.singleton_append, List.find?_cons]
      by_cases same : entry.name = name
      · simp [same]
      · have differs : (entry.name == name) = false := by simpa using same
        simp [same, differs]

/-- Does the buffer's own name stand for it? -/
def Holds (scope : Scope) (buffer : Buffer) : Prop :=
  scope.find? buffer.name = some (.array buffer)

end Scope

/-! ### The nodes of expressions -/

namespace Source.Expr

mutual

/-- All nodes of an expression: itself, and those of its parts from left to right. -/
def nodes : Source.Expr → List Source.Expr
  | .arith op lhs rhs => .arith op lhs rhs :: (lhs.nodes ++ rhs.nodes)
  | .unary op operand => .unary op operand :: operand.nodes
  | .compare first others => .compare first others :: (first.nodes ++ nodesOfComparisons others)
  | .name id => [.name id]
  | .literal value => [.literal value]
  | .logic operands => .logic operands :: nodesOfList operands
  | .conditional test body orelse =>
      .conditional test body orelse :: (test.nodes ++ body.nodes ++ orelse.nodes)
  | .call callee args => .call callee args :: nodesOfList args
  | .attribute value attr => .attribute value attr :: value.nodes
  | .subscript value index => .subscript value index :: (value.nodes ++ index.nodes)
  | .lambda params body => .lambda params body :: body.nodes
  | .tuple items => .tuple items :: nodesOfList items
  | .list items => .list items :: nodesOfList items

/-- The nodes of a list of expressions. -/
def nodesOfList : List Source.Expr → List Source.Expr
  | [] => []
  | e :: es => e.nodes ++ nodesOfList es

/-- The nodes of the operands that follow the first one of a comparison. -/
def nodesOfComparisons : List (CompareOp × Source.Expr) → List Source.Expr
  | [] => []
  | (_, e) :: others => e.nodes ++ nodesOfComparisons others

end

/-- May the node stand in a kernel, whatever its parts are? Names must be in scope, and comparisons
have two operands. -/
def permitted (scope : Scope) : Source.Expr → Bool
  | .name id => (scope.find? id).isSome
  | .literal _ | .arith .. | .unary .. => true
  | .compare _ others => others.length == 1
  | .logic _ | .conditional .. | .call .. | .attribute .. | .subscript .. | .lambda .. | .tuple _
  | .list _ => false

@[simp] theorem nodes_elementwise (op : ArrayOp) (lhs rhs : Source.Expr) :
    (elementwise op lhs rhs).nodes = elementwise op lhs rhs :: (lhs.nodes ++ rhs.nodes) := by
  cases op <;> simp [elementwise, nodes, nodesOfComparisons]

theorem permitted_elementwise (scope : Scope) (op : ArrayOp) (lhs rhs : Source.Expr) :
    (elementwise op lhs rhs).permitted scope = true := by
  cases op <;> rfl

end Source.Expr

/-! ### Raising -/

/-- The expression that a value was lowered from: a read is a name of its buffer, and immediates are
literals. -/
def Loop.Expr.raise : Expr → Source.Expr
  | .int value _ => .literal (.int value)
  | .float value _ => .literal (.float value)
  | .bool value => .literal (.bool value)
  | .var v => .name v.name
  | .load buffer _ => .name buffer.name
  | .arith op lhs rhs => .arith op lhs.raise rhs.raise
  | .compare op lhs rhs => .compare lhs.raise [(op, rhs.raise)]
  | .unary op operand => .unary op operand.raise

@[simp] theorem Loop.Expr.raise_elementwise (op : ArrayOp) (lhs rhs : Expr) :
    (elementwise op lhs rhs).raise = .elementwise op lhs.raise rhs.raise := by
  cases op <;> rfl

namespace Lowered

/-- The expression of something lowered. -/
def raise : Lowered → Source.Expr
  | .buffer source => .name source.name
  | .array value _ | .scalar value _ => value.raise

/-- The buffers of something lowered, which are read in its value or not read yet. -/
def buffers : Lowered → List Buffer
  | .buffer source => [source]
  | .array value _ | .scalar value _ => value.loads.map Load.buffer

@[simp] theorem raise_ofEntry (entry : Entry) : (ofEntry entry).raise = .name entry.name := by
  cases entry <;> rfl

@[simp] theorem raise_ofLiteral (value : Source.Literal) :
    (ofLiteral value).raise = .literal value := by
  cases value <;> rfl

@[simp] theorem raise_unary (op : UnaryOp) (value : Expr) (lowered : Lowered) :
    (lowered.unary op value).raise = .unary op value.raise := by
  cases lowered <;> rfl

theorem buffers_unary (op : UnaryOp) (value : Expr) (lowered : Lowered) :
    (lowered.unary op value).buffers = value.loads.map Load.buffer := by
  cases lowered <;> simp [unary, buffers, Loop.Expr.loads, Loop.Expr.settled, Loop.Expr.pending]

end Lowered

namespace Site

variable {site : Site} {e : Source.Expr} {lowered : Lowered} {access : Shape} {value : Expr}
  {reads : List Region}

theorem Materializes.raise_eq (h : site.Materializes access lowered value reads) :
    value.raise = lowered.raise := by
  cases h <;> rfl

theorem Materializes.map_buffer_loads (h : site.Materializes access lowered value reads) :
    value.loads.map Load.buffer = lowered.buffers := by
  cases h <;> rfl

/-- **What is lowered is raised to the expression that it comes from.** -/
theorem Lowers.raise_eq (h : site.Lowers e lowered reads) : lowered.raise = e := by
  induction h with
  | name found => rw [Lowered.raise_ofEntry, Scope.name_eq_of_find? found]
  | literal => exact Lowered.raise_ofLiteral _
  | elementwise _ _ _ hlv hrv ihl ihr =>
      rw [Lowered.raise, Loop.Expr.raise_elementwise, hlv.raise_eq, hrv.raise_eq, ihl, ihr]
  | unary _ hv ih => rw [Lowered.raise_unary, hv.raise_eq, ih]

/-- Nothing in an expression that is lowered is outside of what kernels may use. -/
theorem Lowers.permitted (h : site.Lowers e lowered reads) :
    ∀ node ∈ e.nodes, node.permitted site.env.scope = true := by
  induction h with
  | name found => simp [Source.Expr.nodes, Source.Expr.permitted, found]
  | literal => simp [Source.Expr.nodes, Source.Expr.permitted]
  | elementwise _ _ _ _ _ ihl ihr =>
      intro node mem
      rw [Source.Expr.nodes_elementwise, List.mem_cons, List.mem_append] at mem
      rcases mem with rfl | left | right
      · exact Source.Expr.permitted_elementwise ..
      · exact ihl node left
      · exact ihr node right
  | unary _ _ ih =>
      intro node mem
      rw [Source.Expr.nodes, List.mem_cons] at mem
      rcases mem with rfl | inner
      · rfl
      · exact ih node inner

/-- Everything that is read is in scope, under its own name. -/
theorem Lowers.holds (h : site.Lowers e lowered reads) :
    ∀ buffer ∈ lowered.buffers, site.env.scope.Holds buffer := by
  induction h with
  | name found =>
      rename_i id entry
      cases entry with
      | array source =>
          -- A scope finds a buffer under the buffer's own name only.
          intro buffer mem
          have same : buffer = source := by simpa [Lowered.ofEntry, Lowered.buffers] using mem
          subst same
          have named : buffer.name = id := Scope.name_eq_of_find? found
          rw [Scope.Holds, named]
          exact found
      | scalar name type => exact fun _ mem => absurd mem List.not_mem_nil
  | literal =>
      rename_i value
      cases value <;> exact fun _ mem => absurd mem List.not_mem_nil
  | elementwise _ _ _ hlv hrv ihl ihr =>
      intro buffer mem
      obtain ⟨load, inside, rfl⟩ := List.mem_map.mp mem
      rcases (Loop.Expr.mem_loads_elementwise _).mp inside with left | right
      · exact ihl _ (hlv.map_buffer_loads ▸ List.mem_map_of_mem left)
      · exact ihr _ (hrv.map_buffer_loads ▸ List.mem_map_of_mem right)
  | unary _ hv ih =>
      rw [Lowered.buffers_unary, hv.map_buffer_loads]
      exact ih

end Site

namespace Kernel

variable {kernel : Kernel} {env : Environment} {settings : Settings} {block : Block}

theorem Lowers.body_eq_raise (h : kernel.Lowers env settings block) :
    kernel.body = .ret (some block.body.value.raise) := by
  obtain @⟨e, ranges, lowered, value, reads, reads', he, _, _, hlowered, _, _, hvalue⟩ := h
  rw [he, hvalue.raise_eq, hlowered.raise_eq]

theorem Lowers.permitted_raise (h : kernel.Lowers env settings block) :
    ∀ node ∈ block.body.value.raise.nodes, node.permitted env.scope = true := by
  obtain @⟨e, ranges, lowered, value, reads, reads', _, _, _, hlowered, _, _, hvalue⟩ := h
  rw [hvalue.raise_eq, hlowered.raise_eq]
  exact hlowered.permitted

theorem Lowers.holds_buffer (h : kernel.Lowers env settings block) {load : Load}
    (occurs : load.OccursIn block.body.value) : env.scope.Holds load.buffer := by
  have mem := (h.occursIn_iff load).mp occurs
  obtain @⟨e, ranges, lowered, value, reads, reads', _, _, _, hlowered, _, _, hvalue⟩ := h
  exact hlowered.holds _ (hvalue.map_buffer_loads ▸ List.mem_map_of_mem mem)

/-- **A compiled value can be raised back to the source**, under any operator table and after any
declarations. The kernel returns the raised value, which holds only what kernels may use and names
that are declared, and every read is of the buffer that was last declared under its name. -/
theorem compile_raises_to_source {entries : List Entry} {symbols : Symbols}
    {operators : OperatorTable}
    (h : kernel.compile ⟨.ofEntries entries, symbols, operators⟩ settings = .ok block) :
    kernel.body = .ret (some block.body.value.raise) ∧
      (∀ node ∈ block.body.value.raise.nodes,
        node.permitted (.ofEntries entries) = true) ∧
      ∀ load : Load, load.OccursIn block.body.value →
        (entries.reverse.find? fun entry => entry.name == load.buffer.name) =
          some (.array load.buffer) := by
  have derived := compile_eq_ok_iff.mp h
  refine ⟨derived.body_eq_raise, derived.permitted_raise, ?_⟩
  intro load occurs
  rw [← Scope.find?_ofEntries]
  exact derived.holds_buffer occurs

/-- The value is a sum of two names, and a scalar that was declared before the column is not what
the second one stands for. -/
theorem compile_raises_to_source_addColumn :
    AddColumn.kernel.body = .ret (some AddColumn.block.body.value.raise) ∧
      ([.scalar "column" .bool, .array AddColumn.total, .array AddColumn.column].reverse.find?
        fun entry : Entry => entry.name == "column") = some (.array AddColumn.column) := by
  have compiled : AddColumn.kernel.compile ⟨.ofEntries [.scalar "column" .bool,
      .array AddColumn.total, .array AddColumn.column], AddColumn.symbols,
      .elementwise [.arith .add]⟩ {} = .ok AddColumn.block := rfl
  obtain ⟨returned, _, declared⟩ := compile_raises_to_source compiled
  exact ⟨returned, declared ⟨AddColumn.column, _⟩ (.arithRight .whole)⟩

end Kernel

end ArrayKernel
