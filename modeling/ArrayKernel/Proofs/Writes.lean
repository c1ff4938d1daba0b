import ArrayKernel.Proofs.Execution
import Mathlib.Data.Set.Function

/-!
The writes of a block.

The loops of a block, the indices of its store and the region that it declares to write are built
apart from one another. Under every operator table they name the same cells: those of the output.

* `Kernel.Lowers.bijOn_storedCell`: over all points, the store reaches every cell of the output, and
  no cell from two points.
* `Kernel.Lowers.mem_written_iff`: these cells are the region that is declared.
* `Kernel.compile_writes_each_cell_once`: the two together, with the reason for the first: loop
  counters have different names, whatever their stem.
-/

namespace ArrayKernel

open Loop (Expr Interpretation Memory Block Region)

section Cells

variable {V : Type}

/-- The cell that a block stores at when its loops are at a point. -/
def Loop.Block.storedCell (block : Block) (I : Interpretation V) (memory : Memory V)
    (point : List Int) : List Int :=
  Expr.evalIndices I memory (block.counters point) block.body.indices

/-- The cells of a buffer: a position along each of its retained dimensions. -/
def Buffer.cells (buffer : Buffer) (symbols : Symbols) (ends : Expr → Int) : Set (List Int) :=
  {cell | List.Forall₂ InExtent (buffer.shape.extents symbols ends) cell}

end Cells

namespace Kernel

variable {V : Type} {kernel : Kernel} {env : Environment} {settings : Settings} {block : Block}
  {I : Interpretation V} {memory : Memory V} {ends : Expr → Int}

/-- The points of a block are the cells of the kernel's output. -/
theorem Lowers.mem_points_iff (h : kernel.Lowers env settings block) {point : List Int} :
    point ∈ block.points ends ↔ point ∈ kernel.output.cells env.symbols ends := by
  obtain ⟨ranges, hranges, hloops, _⟩ := h.loops_eq
  exact Loop.Block.mem_points_iff hranges hloops

/-- The region that a block declares to write has the cells of the output. -/
theorem Lowers.mem_written_iff (h : kernel.Lowers env settings block) :
    ∃ region, block.writes = [region] ∧ region.buffer = kernel.output ∧
      ∀ cell, cell ∈ region.cells ends ↔ cell ∈ kernel.output.cells env.symbols ends := by
  obtain ⟨ranges, hranges, _, hwrites⟩ := h.loops_eq
  refine ⟨⟨kernel.output, ranges⟩, hwrites, rfl, ?_⟩
  intro cell
  exact Shape.mem_points_iff hranges

/-- **The store is a bijection** from the points of the loops onto the cells of the output. -/
theorem Lowers.bijOn_storedCell (h : kernel.Lowers env settings block) :
    Set.BijOn (block.storedCell I memory) {point | point ∈ block.points ends}
      (kernel.output.cells env.symbols ends) := by
  -- Points and cells are both tuples of positions, and the store is the identity between them.
  have stored : ∀ point ∈ block.points ends, block.storedCell I memory point = point := by
    intro point hpoint
    exact h.evalIndices_store hpoint
  refine ⟨?_, ?_, ?_⟩
  · intro point hpoint
    rw [stored point hpoint]
    exact h.mem_points_iff.mp hpoint
  · intro point hpoint other hother same
    rwa [stored point hpoint, stored other hother] at same
  · intro cell hcell
    have hpoint : cell ∈ block.points ends := h.mem_points_iff.mpr hcell
    exact ⟨cell, hpoint, stored cell hpoint⟩

/-- In one run through the loops, no cell is stored twice. -/
theorem Lowers.nodup_storedCell (h : kernel.Lowers env settings block) :
    ((block.points ends).map (block.storedCell I memory)).Nodup :=
  (List.nodup_map_iff_inj_on (Loop.nodup_points _)).mpr fun _ hpoint _ hother same =>
    h.bijOn_storedCell.injOn hpoint hother same

theorem Lowers.nodup_iterVars (h : kernel.Lowers env settings block) :
    (block.iterVars.map fun loop => loop.var.name).Nodup := by
  obtain ⟨ranges, _, hloops, _⟩ := h.loops_eq
  rw [hloops]
  exact settings.nodup_names ranges

/-- **Every cell of the output is written exactly once**, under any operator table: the store is a
bijection from the points of the loops onto the output's cells, a run stores none of them twice, and
they are the only region that the block declares to write. No two loop counters share their name. -/
theorem compile_writes_each_cell_once (I : Interpretation V) (memory : Memory V) (ends : Expr → Int)
    (h : kernel.compile env settings = .ok block) :
    block.body.buffer = kernel.output ∧
      Set.BijOn (block.storedCell I memory) {point | point ∈ block.points ends}
        (kernel.output.cells env.symbols ends) ∧
      ((block.points ends).map (block.storedCell I memory)).Nodup ∧
      (∃ region, block.writes = [region] ∧ region.buffer = kernel.output ∧
        ∀ cell, cell ∈ region.cells ends ↔ cell ∈ kernel.output.cells env.symbols ends) ∧
      (block.iterVars.map fun loop => loop.var.name).Nodup := by
  have derived := compile_eq_ok_iff.mp h
  exact ⟨derived.body_eq.1, derived.bijOn_storedCell, derived.nodup_storedCell,
    derived.mem_written_iff, derived.nodup_iterVars⟩

/-- With loop counters named `10` and `11`, the last cell of two rows is still reached from a
point. -/
theorem compile_writes_each_cell_once_addColumn :
    ∃ block, AddColumn.kernel.compile AddColumn.env ⟨"1", .int32, true⟩ = .ok block ∧
      [1, 2] ∈ AddColumn.total.cells AddColumn.symbols (fun _ => 2) ∧
      ∃ point ∈ block.points (fun _ => 2),
        block.storedCell .integers (fun _ _ => 0) point = [1, 2] := by
  have cell : [1, 2] ∈ AddColumn.total.cells AddColumn.symbols fun _ => 2 :=
    .cons ⟨by decide, by decide⟩ (.cons ⟨by decide, by decide⟩ .nil)
  have compiled : AddColumn.kernel.compile AddColumn.env ⟨"1", .int32, true⟩ = .ok _ := rfl
  have written := compile_writes_each_cell_once .integers (fun _ _ => 0) (fun _ => 2) compiled
  exact ⟨_, compiled, cell, written.2.1.surjOn cell⟩

end Kernel

end ArrayKernel
