import ArrayKernel.Proofs.Footprint
import ArrayKernel.Proofs.Writes

/-!
Blocks that run in place.

A block may read the buffer that it writes. Run one point after the other, a later iteration could
then see what an earlier one has stored. It never does in a compiled block: every read of the output
is at the point of its own iteration.

* `Loop.Block.Pointwise`: each point is stored at its own cell, and reads of the output are there.
* `Loop.Block.Pointwise.run_eq_written`: such a block has the same effect in every order, namely
  that of all iterations at once.
* `Kernel.compile_runs_in_any_order`: compiled blocks are pointwise, and their points are the cells
  of the output.
-/

namespace ArrayKernel

open Loop (Expr Load Interpretation Memory Block)

namespace Loop

variable {V : Type}

/-! ### Running a block -/

/-- Replaces the value of one cell of a buffer. -/
def Memory.write (memory : Memory V) (buffer : Buffer) (cell : List Int) (value : V) : Memory V :=
  fun other cell' => if other = buffer ∧ cell' = cell then value else memory other cell'

/-- One iteration: the value is computed, and then stored. -/
def Block.step (I : Interpretation V) (block : Block) (memory : Memory V) (point : List Int) :
    Memory V :=
  memory.write block.body.buffer
    (Expr.evalIndices I memory (block.counters point) block.body.indices)
    (block.body.value.eval I memory (block.counters point))

/-- Runs a block at the given points, one after the other. -/
def Block.run (I : Interpretation V) (block : Block) (order : List (List Int))
    (memory : Memory V) : Memory V :=
  order.foldl (block.step I) memory

/-- The memory in which the given points have been stored, each with the value that is computed from
`memory` itself. -/
def Block.written (I : Interpretation V) (block : Block) (points : List (List Int))
    (memory : Memory V) : Memory V :=
  fun buffer cell =>
    if buffer = block.body.buffer ∧ cell ∈ points then
      block.body.value.eval I memory (block.counters cell)
    else memory buffer cell

variable {I : Interpretation V} {memory memory' : Memory V} {counters : Counters}

/-- The value of an expression depends on the elements that it reads alone. -/
theorem Expr.eval_congr : ∀ {e : Expr},
    (∀ load ∈ e.loads, memory load.buffer (load.cell I memory counters) =
      memory' load.buffer (load.cell I memory' counters)) →
    e.eval I memory counters = e.eval I memory' counters
  | .load buffer indices, same => by
      simpa only [Expr.eval, Load.cell] using same ⟨buffer, indices⟩ (Expr.mem_loads_load.mpr rfl)
  | .arith op lhs rhs, same => by
      have left : lhs.eval I memory counters = lhs.eval I memory' counters := eval_congr
        fun load mem => same load ((Expr.mem_loads_elementwise (.arith op)).mpr (.inl mem))
      have right : rhs.eval I memory counters = rhs.eval I memory' counters := eval_congr
        fun load mem => same load ((Expr.mem_loads_elementwise (.arith op)).mpr (.inr mem))
      rw [Expr.eval, Expr.eval, left, right]
  | .compare op lhs rhs, same => by
      have left : lhs.eval I memory counters = lhs.eval I memory' counters := eval_congr
        fun load mem => same load ((Expr.mem_loads_elementwise (.compare op)).mpr (.inl mem))
      have right : rhs.eval I memory counters = rhs.eval I memory' counters := eval_congr
        fun load mem => same load ((Expr.mem_loads_elementwise (.compare op)).mpr (.inr mem))
      rw [Expr.eval, Expr.eval, left, right]
  | .unary op operand, same => by
      have inner : operand.eval I memory counters = operand.eval I memory' counters := eval_congr
        fun load mem => same load (Expr.mem_loads_unary.mpr mem)
      rw [Expr.eval, Expr.eval, inner]
  | .int .., _ | .float .., _ | .bool _, _ | .var _, _ => by simp [Expr.eval]

/-! ### Pointwise blocks -/

/-- At each point, the block stores at the cell of the point, and where it reads the buffer that it
writes, it reads there. The memory has no influence on any of its cells. -/
structure Block.Pointwise (block : Block) (I : Interpretation V) (ends : Expr → Int) : Prop where
  stored : ∀ point ∈ block.points ends, ∀ memory : Memory V,
    Expr.evalIndices I memory (block.counters point) block.body.indices = point
  steady : ∀ load ∈ block.body.value.loads, ∀ point ∈ block.points ends,
    ∀ memory memory' : Memory V, load.cell I memory (block.counters point) =
      load.cell I memory' (block.counters point)
  own : ∀ load ∈ block.body.value.loads, load.buffer = block.body.buffer →
    ∀ point ∈ block.points ends, ∀ memory : Memory V,
      load.cell I memory (block.counters point) = point

namespace Block.Pointwise

variable {block : Block} {ends : Expr → Int}

/-- No stored point is seen at another one. -/
theorem eval_written (h : block.Pointwise I ends) {finished : List (List Int)} {point : List Int}
    (hpoint : point ∈ block.points ends) (fresh : point ∉ finished) :
    block.body.value.eval I (block.written I finished memory) (block.counters point) =
      block.body.value.eval I memory (block.counters point) := by
  apply Expr.eval_congr
  intro load mem
  rw [h.steady load mem point hpoint (block.written I finished memory) memory, written, if_neg]
  rintro ⟨output, seen⟩
  rw [h.own load mem output point hpoint] at seen
  exact fresh seen

/-- One iteration after others adds its own point. -/
theorem step_written (h : block.Pointwise I ends) {finished : List (List Int)} {point : List Int}
    (hpoint : point ∈ block.points ends) (fresh : point ∉ finished) :
    block.step I (block.written I finished memory) point =
      block.written I (finished ++ [point]) memory := by
  rw [step, h.stored point hpoint, h.eval_written hpoint fresh]
  funext buffer cell
  by_cases output : buffer = block.body.buffer
  · by_cases last : cell = point
    · subst last
      simp [Memory.write, written, output]
    · simp [Memory.write, written, output, last]
  · simp [Memory.write, written, output]

/-- What iterations add up to, after those that are finished. -/
theorem run_written (h : block.Pointwise I ends) {order finished : List (List Int)}
    (inside : ∀ point ∈ order, point ∈ block.points ends) (nodup : (finished ++ order).Nodup)
    (memory : Memory V) :
    block.run I order (block.written I finished memory) =
      block.written I (finished ++ order) memory := by
  induction order generalizing finished with
  | nil => simp [run]
  | cons point order ih =>
      have fresh : point ∉ finished := by
        intro mem
        exact (List.disjoint_of_nodup_append nodup) mem List.mem_cons_self
      have hpoint := inside point List.mem_cons_self
      have later := ih (fun point mem => inside point (List.mem_cons_of_mem _ mem))
        (show (finished ++ [point] ++ order).Nodup by simpa using nodup)
      rw [run, List.foldl_cons, h.step_written hpoint fresh]
      simpa [run] using later

/-- **A pointwise block has the same effect in every order**: that of all iterations at once. -/
theorem run_eq_written (h : block.Pointwise I ends) {order : List (List Int)}
    (perm : order.Perm (block.points ends)) (memory : Memory V) :
    block.run I order memory = block.written I (block.points ends) memory := by
  have start : block.written I [] memory = memory := by
    funext buffer cell
    simp [written]
  have nodup : order.Nodup := perm.nodup_iff.mpr (nodup_points _)
  have effect := h.run_written (fun point mem => perm.mem_iff.mp mem)
    (show ([] ++ order).Nodup from nodup) memory
  rw [start, List.nil_append] at effect
  rw [effect]
  funext buffer cell
  simp [written, perm.mem_iff]

end Block.Pointwise

end Loop

/-! ### Compiled blocks -/

namespace Kernel

variable {V : Type} {kernel : Kernel} {scope : Scope} {symbols : Symbols} {ops : List ArrayOp}
  {settings : Settings} {block : Block}

/-- **Compiled blocks are pointwise.** A read of the output is at its own shape, whose cells are the
points of the loops. -/
theorem Lowers.pointwise (h : kernel.Lowers ⟨scope, symbols, .elementwise ops⟩ settings block)
    (I : Interpretation V) (ends : Expr → Int) : block.Pointwise I ends := by
  obtain ⟨ranges, hranges, hloops, recorded⟩ := h.elementwise
  constructor
  · intro point hpoint memory
    exact h.evalIndices_store hpoint
  · intro load mem point hpoint memory memory'
    obtain ⟨region, _, hload⟩ := exists_of_forall₂ recorded mem
    rw [hload.cell_eq hranges hloops hpoint, hload.cell_eq hranges hloops hpoint]
  · intro load mem output point hpoint memory
    obtain ⟨region, _, hload⟩ := exists_of_forall₂ recorded mem
    rw [hload.cell_eq hranges hloops hpoint, output, h.body_eq.1]
    exact stretch_self ((Loop.Block.mem_points_iff hranges hloops).mp hpoint)

/-- **Iterations are independent, even in place.** In whatever order a compiled block runs through
its points, the final memory is the same: it differs from the initial one at the points only. Each
cell of the output is among them, and gets the value that its point has in the initial memory. -/
theorem compile_runs_in_any_order (I : Interpretation V) (ends : Expr → Int) (memory : Memory V)
    (h : kernel.compile ⟨scope, symbols, .elementwise ops⟩ settings = .ok block)
    {order : List (List Int)} (perm : order.Perm (block.points ends)) :
    (block.run I order memory = fun buffer cell =>
      if buffer = kernel.output ∧ cell ∈ block.points ends then
        block.body.value.eval I memory (block.counters cell)
      else memory buffer cell) ∧
    ∀ cell ∈ kernel.output.cells symbols ends,
      block.run I order memory kernel.output cell =
        block.body.value.eval I memory (block.counters cell) := by
  have derived := compile_eq_ok_iff.mp h
  have effect : block.run I order memory = fun buffer cell =>
      if buffer = kernel.output ∧ cell ∈ block.points ends then
        block.body.value.eval I memory (block.counters cell)
      else memory buffer cell := by
    rw [(derived.pointwise I ends).run_eq_written perm memory, ← derived.body_eq.1]
    rfl
  refine ⟨effect, ?_⟩
  intro cell hcell
  have hpoint : cell ∈ block.points ends := derived.mem_points_iff.mpr hcell
  rw [effect]
  exact if_pos ⟨rfl, hpoint⟩

/-- Backwards in two rows, the last element of the total is its old value and the column's. -/
theorem compile_runs_in_any_order_addColumn :
    [1, 2] ∈ AddColumn.total.cells AddColumn.symbols (fun _ => 2) ∧
      AddColumn.block.run .integers (AddColumn.block.points fun _ => 2).reverse
        (fun _ cell => cell.sum) AddColumn.total [1, 2] = 4 := by
  have compiled : AddColumn.kernel.compile AddColumn.env {} = .ok AddColumn.block := rfl
  have last : [1, 2] ∈ AddColumn.total.cells AddColumn.symbols fun _ => 2 :=
    .cons ⟨by decide, by decide⟩ (.cons ⟨by decide, by decide⟩ .nil)
  have stored := (compile_runs_in_any_order .integers (fun _ => 2) (fun _ cell => cell.sum) compiled
    (List.reverse_perm _)).2 [1, 2] last
  exact ⟨last, stored.trans (by decide)⟩

end Kernel

end ArrayKernel
