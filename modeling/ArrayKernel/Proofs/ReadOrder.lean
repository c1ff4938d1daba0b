import ArrayKernel.Proofs.Raising

/-!
The order of reads.

The regions that a block reads are a side effect of lowering: a buffer is read by the operator that
uses it, after everything inside both operands. `Loop.Expr.loads` computes the same sequence from
the value alone. It is no plain traversal of the value, but it lists the same reads as one does.

* `Loop.Expr.occurrences`: the reads of an expression from left to right, as often as they occur.
* `Loop.Expr.perm_occurrences`: the order of materialization rearranges them.
* `Kernel.Lowers.map_buffer_reads`: the regions of a block are of its loads' buffers, in order.
* `Site.Lowers.countP_nodes`: names of arrays are as many as the reads made and still to be made.
* `Kernel.compile_reads_in_order`: all of this for a compiled block.
-/

namespace ArrayKernel

open Loop (Expr Load Region Block)

/-! ### Occurrences -/

namespace Loop.Expr

mutual

/-- Every read in an expression, from left to right. Those in the indices of a read follow it. -/
def occurrences : Expr → List Load
  | .int .. | .float .. | .bool _ | .var _ => []
  | .load buffer indices => ⟨buffer, indices⟩ :: occurrencesOfList indices
  | .arith _ lhs rhs => lhs.occurrences ++ rhs.occurrences
  | .compare _ lhs rhs => lhs.occurrences ++ rhs.occurrences
  | .unary _ operand => operand.occurrences

/-- Every read in a list of expressions. -/
def occurrencesOfList : List Expr → List Load
  | [] => []
  | e :: es => e.occurrences ++ occurrencesOfList es

end

@[simp] theorem occurrences_elementwise (op : ArrayOp) (lhs rhs : Expr) :
    (elementwise op lhs rhs).occurrences = lhs.occurrences ++ rhs.occurrences := by
  cases op <;> simp [elementwise, occurrences]

/-- The reads of the left operand itself move before everything inside the right one. -/
theorem perm_occurrences_elementwise (op : ArrayOp) {lhs rhs : Expr}
    (left : lhs.loads.Perm lhs.occurrences) (right : rhs.loads.Perm rhs.occurrences) :
    (elementwise op lhs rhs).loads.Perm (elementwise op lhs rhs).occurrences := by
  have apart : (elementwise op lhs rhs).loads.Perm (lhs.loads ++ rhs.loads) := by
    simp only [loads, settled_elementwise, pending_elementwise, List.append_nil, List.append_assoc]
    exact (List.perm_append_comm_assoc _ _ _).append_left _
  rw [occurrences_elementwise]
  exact apart.trans (left.append right)

/-- **The order of materialization rearranges the reads of an expression**, if no index reads. -/
theorem perm_occurrences : ∀ {e : Expr},
    (∀ load ∈ e.loads, occurrencesOfList load.indices = []) → e.loads.Perm e.occurrences
  | .load buffer indices, flat => by
      have none := flat ⟨buffer, indices⟩ (mem_loads_load.mpr rfl)
      simp [loads, settled, pending, occurrences, none]
  | .arith op lhs rhs, flat => by
      apply perm_occurrences_elementwise (.arith op)
      · exact perm_occurrences fun load mem =>
          flat load ((mem_loads_elementwise (.arith op)).mpr (.inl mem))
      · exact perm_occurrences fun load mem =>
          flat load ((mem_loads_elementwise (.arith op)).mpr (.inr mem))
  | .compare op lhs rhs, flat => by
      apply perm_occurrences_elementwise (.compare op)
      · exact perm_occurrences fun load mem =>
          flat load ((mem_loads_elementwise (.compare op)).mpr (.inl mem))
      · exact perm_occurrences fun load mem =>
          flat load ((mem_loads_elementwise (.compare op)).mpr (.inr mem))
  | .unary op operand, flat => by
      have inner : operand.loads.Perm operand.occurrences := perm_occurrences fun load mem =>
        flat load (mem_loads_unary.mpr mem)
      rw [occurrences]
      simpa [loads, settled, pending] using inner
  | .int .., _ | .float .., _ | .bool _, _ | .var _, _ => by
      simp [loads, settled, pending, occurrences]

end Loop.Expr

/-- Indices are counters and zeros, and there is no read in a list of them. -/
theorem Site.occurrencesOfList_indices (site : Site) (access : Shape) :
    Loop.Expr.occurrencesOfList (site.indices access) = [] := by
  unfold indices
  generalize access.retained = dims
  generalize site.innermost access.rank = loops
  induction dims generalizing loops with
  | nil => rfl
  | cons dim dims ih =>
      cases loops with
      | nil => rfl
      | cons loop loops =>
          have index : (site.index dim loop).occurrences = [] := by
            unfold Site.index
            split_ifs <;> rfl
          rw [List.zipWith_cons_cons, Loop.Expr.occurrencesOfList, index, ih]
          rfl

/-! ### Names of arrays -/

/-- Is the node a name that stands for an array? -/
def Source.Expr.isArrayName (scope : Scope) : Source.Expr → Bool
  | .name id =>
      match scope.find? id with
      | some (.array _) => true
      | some (.scalar ..) | none => false
  | _ => false

theorem Source.Expr.isArrayName_elementwise (scope : Scope) (op : ArrayOp)
    (lhs rhs : Source.Expr) : (elementwise op lhs rhs).isArrayName scope = false := by
  cases op <;> rfl

/-- How many reads of something lowered are still to be made? -/
def Lowered.unread : Lowered → Nat
  | .buffer _ => 1
  | .array .. | .scalar .. => 0

@[simp] theorem Lowered.unread_array (value : Expr) (type : ArrayType) :
    (array value type).unread = 0 := rfl

@[simp] theorem Lowered.unread_unary (op : UnaryOp) (value : Expr) (lowered : Lowered) :
    (lowered.unary op value).unread = 0 := by
  cases lowered <;> rfl

namespace Site

variable {site : Site}

theorem Materializes.length_reads {access : Shape} {lowered : Lowered} {value : Expr}
    {reads : List Region} (h : site.Materializes access lowered value reads) :
    reads.length = lowered.unread := by
  cases h <;> rfl

/-- **Each name of an array is read once**, by the operator above it, or is still to be read. -/
theorem Lowers.countP_nodes {e : Source.Expr} {lowered : Lowered} {reads : List Region}
    (h : site.Lowers e lowered reads) :
    e.nodes.countP (Source.Expr.isArrayName site.env.scope) = reads.length + lowered.unread := by
  induction h with
  | name found =>
      rename_i id entry
      cases entry with
      | array source =>
          have isArray : (Source.Expr.name id).isArrayName site.env.scope = true := by
            simp [Source.Expr.isArrayName, found]
          simp [Source.Expr.nodes, isArray, Lowered.ofEntry, Lowered.unread]
      | scalar name type =>
          have isScalar : (Source.Expr.name id).isArrayName site.env.scope = false := by
            simp [Source.Expr.isArrayName, found]
          simp [Source.Expr.nodes, isScalar, Lowered.ofEntry, Lowered.unread]
  | literal =>
      rename_i value
      cases value <;>
        simp [Source.Expr.nodes, Source.Expr.isArrayName, Lowered.ofLiteral, Lowered.unread]
  | elementwise _ _ _ hlv hrv ihl ihr =>
      -- What was unread in the operands is what the operator reads.
      have left := hlv.length_reads
      have right := hrv.length_reads
      simp only [Source.Expr.nodes_elementwise, List.countP_cons, List.countP_append,
        Source.Expr.isArrayName_elementwise, ihl, ihr, List.length_append, Lowered.unread_array,
        Bool.false_eq_true, if_false]
      omega
  | unary _ hv ih =>
      have read := hv.length_reads
      simp only [Source.Expr.nodes, List.countP_cons, Source.Expr.isArrayName, ih,
        List.length_append, Lowered.unread_unary, Bool.false_eq_true, if_false]
      omega

end Site

/-! ### Compiled blocks -/

namespace Kernel

variable {kernel : Kernel} {env : Environment} {settings : Settings} {block : Block}

/-- The regions of a block are of the buffers of its loads, in order. -/
theorem Lowers.map_buffer_reads (h : kernel.Lowers env settings block) :
    block.reads.map Region.buffer = block.body.value.loads.map Load.buffer := by
  obtain ⟨ranges, _, _, _, _, recorded⟩ := h.recorded env.operators.keeps_true
  have same : List.Forall₂ (fun load region => load.buffer = region.buffer)
      block.body.value.loads block.reads := by
    refine recorded.imp ?_
    rintro load region ⟨access, _, reads, _⟩
    exact reads.buffer_eq.symm
  rw [← List.forall₂_eq_eq_eq, List.forall₂_map_left_iff, List.forall₂_map_right_iff]
  exact same.flip.imp fun _ _ => Eq.symm

/-- The order of materialization rearranges the reads of a compiled value. -/
theorem Lowers.perm_occurrences (h : kernel.Lowers env settings block) :
    block.body.value.loads.Perm block.body.value.occurrences := by
  obtain ⟨ranges, _, _, _, _, recorded⟩ := h.recorded env.operators.keeps_true
  apply Loop.Expr.perm_occurrences
  intro load mem
  obtain ⟨_, _, access, indices, _⟩ := exists_of_forall₂ recorded mem
  rw [indices]
  exact Site.occurrencesOfList_indices _ access

theorem Lowers.length_reads (h : kernel.Lowers env settings block) {e : Source.Expr}
    (returns : kernel.body = .ret (some e)) :
    block.reads.length = e.nodes.countP (Source.Expr.isArrayName env.scope) := by
  obtain @⟨e', ranges, lowered, value, reads, reads', hbody, _, _, hlowered, _, _, hvalue⟩ := h
  have returned : e' = e := by simpa [hbody] using returns
  subst returned
  rw [List.length_append, hvalue.length_reads]
  exact hlowered.countP_nodes.symm

/-- **The regions that a block reads are its loads, in the order of materialization**, under any
operator table. They are the reads that occur in its value, none of them lost or repeated, and as
many as the names of arrays in the expression that the kernel returns. -/
theorem compile_reads_in_order {e : Source.Expr} (returns : kernel.body = .ret (some e))
    (h : kernel.compile env settings = .ok block) :
    block.reads.map Region.buffer = block.body.value.loads.map Load.buffer ∧
      (block.reads.map Region.buffer).Perm (block.body.value.occurrences.map Load.buffer) ∧
      block.reads.length = e.nodes.countP (Source.Expr.isArrayName env.scope) := by
  have derived := compile_eq_ok_iff.mp h
  have inOrder := derived.map_buffer_reads
  refine ⟨inOrder, ?_, derived.length_reads returns⟩
  rw [inOrder]
  exact derived.perm_occurrences.map Load.buffer

/-- In `column + (total + column)` the first name is read after the two in parentheses. -/
theorem compile_reads_in_order_addColumn :
    ∃ block, (⟨"twice", AddColumn.total, AddColumn.total.shape,
        .ret (some (.arith .add (.name "column") AddColumn.value))⟩ : Kernel).compile
          AddColumn.env {} = .ok block ∧
      block.reads.map Region.buffer = [AddColumn.total, AddColumn.column, AddColumn.column] := by
  have compiled : (⟨"twice", AddColumn.total, AddColumn.total.shape,
      .ret (some (.arith .add (.name "column") AddColumn.value))⟩ : Kernel).compile
        AddColumn.env {} = .ok _ := rfl
  exact ⟨_, compiled, (compile_reads_in_order rfl compiled).1⟩

end Kernel

end ArrayKernel
