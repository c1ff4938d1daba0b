import ArrayKernel.Proofs.Execution
import ArrayKernel.Proofs.Reads

/-!
The footprints of reads.

A compiled block lists a region for each element that its value reads. The region and the indices
of the element come from the same shape, but the one is computed from the shape alone and the other
follows the loops of the output.

* `Kernel.Lowers.occursIn_iff`: `Loop.Expr.loads` lists every read in a compiled value.
* `Kernel.compile_reads_exact`: over all points, each of them reads the cells of its region, all of
  them and no others, and none outside of its buffer.
-/

namespace ArrayKernel

open Loop (Expr Load Interpretation Memory Block Region)

/-! ### Cells under stretching -/

section Cells

variable {symbols : Symbols} {ends : Expr → Int}

theorem inExtent_stretchAxis {dim target : Dim} (fits : dim.Fits target) {i : Int}
    (h : InExtent (target.extent symbols ends) i) :
    InExtent (dim.extent symbols ends) (stretchAxis (dim.extent symbols ends) i) := by
  rcases fits with rfl | rfl
  · exact ⟨Int.le_refl 0, Int.zero_lt_one⟩
  · rw [stretchAxis_self h]
    exact h

theorem inExtent_zipWith_stretch {dims targets : List Dim}
    (fits : List.Forall₂ Dim.Fits dims targets) {point : List Int}
    (h : List.Forall₂ InExtent (targets.map (Dim.extent symbols ends)) point) :
    List.Forall₂ InExtent (dims.map (Dim.extent symbols ends))
      (List.zipWith stretchAxis (dims.map (Dim.extent symbols ends)) point) := by
  induction fits generalizing point with
  | nil => simp
  | cons fits _ ih =>
      cases h with
      | cons inside others => exact .cons (inExtent_stretchAxis fits inside) (ih others)

/-- A stretched cell is a cell of the smaller array. -/
theorem Shape.BroadcastsTo.inExtent_stretch {s t : Shape} (below : s.BroadcastsTo t)
    {point : List Int} (h : List.Forall₂ InExtent (t.extents symbols ends) point) :
    List.Forall₂ InExtent (s.extents symbols ends) (stretch (s.extents symbols ends) point) := by
  have rank : t.retained.length = point.length := by simpa [Shape.extents] using h.length_eq
  rw [stretch, ← rank]
  simp only [Shape.extents, List.length_map] at h ⊢
  apply inExtent_zipWith_stretch below.2
  rw [List.map_drop]
  exact List.forall₂_drop _ h

/-- A position stands at itself on a larger axis, and the only position at every other one. -/
theorem exists_stretchAxis_eq {dim target : Dim} (fits : dim.Fits target) {i c : Int}
    (hi : InExtent (target.extent symbols ends) i) (hc : InExtent (dim.extent symbols ends) c) :
    ∃ j, InExtent (target.extent symbols ends) j ∧ stretchAxis (dim.extent symbols ends) j = c := by
  rcases fits with rfl | rfl
  · obtain ⟨lower, upper⟩ : 0 ≤ c ∧ c < 1 := hc
    have origin : 0 = c := by omega
    exact ⟨i, hi, origin⟩
  · exact ⟨c, hc, stretchAxis_self hc⟩

theorem exists_zipWith_stretch_eq {dims targets : List Dim}
    (fits : List.Forall₂ Dim.Fits dims targets) {point cell : List Int}
    (hpoint : List.Forall₂ InExtent (targets.map (Dim.extent symbols ends)) point)
    (hcell : List.Forall₂ InExtent (dims.map (Dim.extent symbols ends)) cell) :
    ∃ other, List.Forall₂ InExtent (targets.map (Dim.extent symbols ends)) other ∧
      List.zipWith stretchAxis (dims.map (Dim.extent symbols ends)) other = cell := by
  induction fits generalizing point cell with
  | nil =>
      cases hcell
      exact ⟨[], .nil, rfl⟩
  | cons fits _ ih =>
      cases hpoint with
      | cons hi hpoint =>
          cases hcell with
          | cons hc hcell =>
              obtain ⟨j, hj, stands⟩ := exists_stretchAxis_eq fits hi hc
              obtain ⟨others, inside, stretched⟩ := ih hpoint hcell
              exact ⟨j :: others, .cons hj inside, by simp [stands, stretched]⟩

/-- Every cell of the smaller array stands somewhere in the larger one, if that has any cell. -/
theorem Shape.BroadcastsTo.exists_stretch_eq {s t : Shape} (below : s.BroadcastsTo t)
    {point cell : List Int} (hpoint : List.Forall₂ InExtent (t.extents symbols ends) point)
    (hcell : List.Forall₂ InExtent (s.extents symbols ends) cell) :
    ∃ other, List.Forall₂ InExtent (t.extents symbols ends) other ∧
      stretch (s.extents symbols ends) other = cell := by
  obtain ⟨rank_le, fits⟩ := below
  -- Only the coordinates that are aligned with the cell change.
  have inner := List.forall₂_drop (t.retained.length - s.retained.length) hpoint
  rw [Shape.extents, ← List.map_drop] at inner
  obtain ⟨others, inside, stretched⟩ := exists_zipWith_stretch_eq fits inner hcell
  have outer := List.forall₂_take (t.retained.length - s.retained.length) hpoint
  have length : s.retained.length = others.length := fits.length_eq.trans (by
    simpa using inside.length_eq)
  refine ⟨point.take (t.retained.length - s.retained.length) ++ others, ?_, ?_⟩
  · simpa [Shape.extents, List.map_drop] using List.rel_append outer inside
  · rw [← stretched, stretch, Shape.extents]
    simp [length]

end Cells

/-! ### Occurrences of reads -/

namespace Loop

/-- The read occurs in an expression, at any depth and also inside of indices. -/
def Load.OccursIn (load : Load) (e : Expr) : Prop :=
  (Expr.load load.buffer load.indices).PartOf e

variable {load : Load}

theorem Expr.mem_loads_load {buffer : Buffer} {indices : List Expr} :
    load ∈ (Expr.load buffer indices).loads ↔ load = ⟨buffer, indices⟩ := by
  simp [loads, settled, pending]

theorem Expr.mem_loads_elementwise (op : ArrayOp) {lhs rhs : Expr} :
    load ∈ (elementwise op lhs rhs).loads ↔ load ∈ lhs.loads ∨ load ∈ rhs.loads := by
  simp only [loads, settled_elementwise, pending_elementwise, List.mem_append, List.append_nil]
  tauto

theorem Expr.mem_loads_unary {op : UnaryOp} {operand : Expr} :
    load ∈ (Expr.unary op operand).loads ↔ load ∈ operand.loads := by
  simp only [loads, settled, pending, List.append_nil]

theorem Load.occursIn_of_mem_loads : ∀ {e : Expr}, load ∈ e.loads → load.OccursIn e
  | .load buffer indices, h => by
      have same := Expr.mem_loads_load.mp h
      subst same
      exact .whole
  | .arith op lhs rhs, h => by
      rcases (Expr.mem_loads_elementwise (.arith op)).mp h with left | right
      · exact .arithLeft (occursIn_of_mem_loads left)
      · exact .arithRight (occursIn_of_mem_loads right)
  | .compare op lhs rhs, h => by
      rcases (Expr.mem_loads_elementwise (.compare op)).mp h with left | right
      · exact .compareLeft (occursIn_of_mem_loads left)
      · exact .compareRight (occursIn_of_mem_loads right)
  | .unary op operand, h => .unary (occursIn_of_mem_loads (Expr.mem_loads_unary.mp h))
  | .int .., h | .float .., h | .bool _, h | .var _, h => by
      simp [Expr.loads, Expr.settled, Expr.pending] at h

/-- A read that occurs is listed, or it occurs in an index of one that is. -/
theorem Load.OccursIn.exists_mem_loads {e : Expr} (h : load.OccursIn e) :
    ∃ outer ∈ e.loads, load = outer ∨ ∃ index ∈ outer.indices, load.OccursIn index := by
  induction h with
  | whole => exact ⟨load, Expr.mem_loads_load.mpr rfl, .inl rfl⟩
  | index mem occurs _ => exact ⟨_, Expr.mem_loads_load.mpr rfl, .inr ⟨_, mem, occurs⟩⟩
  | arithLeft _ ih =>
      obtain ⟨outer, mem, found⟩ := ih
      exact ⟨outer, (Expr.mem_loads_elementwise (.arith _)).mpr (.inl mem), found⟩
  | arithRight _ ih =>
      obtain ⟨outer, mem, found⟩ := ih
      exact ⟨outer, (Expr.mem_loads_elementwise (.arith _)).mpr (.inr mem), found⟩
  | compareLeft _ ih =>
      obtain ⟨outer, mem, found⟩ := ih
      exact ⟨outer, (Expr.mem_loads_elementwise (.compare _)).mpr (.inl mem), found⟩
  | compareRight _ ih =>
      obtain ⟨outer, mem, found⟩ := ih
      exact ⟨outer, (Expr.mem_loads_elementwise (.compare _)).mpr (.inr mem), found⟩
  | unary _ ih =>
      obtain ⟨outer, mem, found⟩ := ih
      exact ⟨outer, Expr.mem_loads_unary.mpr mem, found⟩

end Loop

/-- Indices are counters and zeros, and read nothing. -/
theorem Site.not_occursIn_of_mem_indices {site : Site} {access : Shape} {index : Expr}
    (h : index ∈ site.indices access) (load : Load) : ¬ load.OccursIn index := by
  rcases eq_of_mem_indices h with ⟨loop, rfl⟩ | rfl
  · rintro ⟨⟩
  · rintro ⟨⟩

/-- The list of reads of a compiled value is complete, under any operator table. -/
theorem Kernel.Lowers.occursIn_iff {kernel : Kernel} {env : Environment} {settings : Settings}
    {block : Block} (h : kernel.Lowers env settings block) (load : Load) :
    load.OccursIn block.body.value ↔ load ∈ block.body.value.loads := by
  refine ⟨fun occurs => ?_, Load.occursIn_of_mem_loads⟩
  obtain ⟨ranges, _, _, _, _, recorded⟩ := h.recorded env.operators.keeps_true
  obtain ⟨outer, mem, rfl | ⟨index, inside, occurs⟩⟩ := occurs.exists_mem_loads
  · exact mem
  · obtain ⟨_, _, access, indices, _⟩ := exists_of_forall₂ recorded mem
    rw [indices] at inside
    exact absurd occurs (Site.not_occursIn_of_mem_indices inside load)

/-! ### Footprints -/

section Footprints

variable {V : Type}

/-- The cell that is read. -/
def Loop.Load.cell (I : Interpretation V) (memory : Memory V) (counters : Loop.Counters)
    (load : Load) : List Int :=
  Expr.evalIndices I memory counters load.indices

/-- `region` is the footprint of a read under the loops of a block. -/
structure Loop.Block.Footprint (block : Block) (symbols : Symbols) (I : Interpretation V)
    (memory : Memory V) (ends : Expr → Int) (load : Load) (region : Region) : Prop where
  buffer_eq : region.buffer = load.buffer
  in_buffer : ∀ point ∈ block.points ends,
    List.Forall₂ InExtent (load.buffer.shape.extents symbols ends)
      (load.cell I memory (block.counters point))
  in_region : ∀ point ∈ block.points ends,
    load.cell I memory (block.counters point) ∈ region.cells ends
  covered : block.points ends ≠ [] → ∀ cell ∈ region.cells ends,
    ∃ point ∈ block.points ends, load.cell I memory (block.counters point) = cell

variable {I : Interpretation V} {memory : Memory V} {ends : Expr → Int} {env : Environment}
  {settings : Settings} {ranges : List Loop.Range} {output : Shape} {block : Block}

/-- A read at the shape of its buffer is at the cell that stands at the point, whatever the memory
holds. -/
theorem Site.Recorded.cell_eq (hranges : output.ranges env.symbols settings.indexType = .ok ranges)
    (hloops : block.iterVars = settings.iterVars ranges) {load : Load} {region : Region}
    (h : (Kernel.site env settings ranges).Recorded
      (fun source access => access = source.shape ∧ source.shape.BroadcastsTo output) load region)
    {point : List Int} (hpoint : point ∈ block.points ends) :
    load.cell I memory (block.counters point) =
      stretch (load.buffer.shape.extents env.symbols ends) point := by
  obtain ⟨_, indices, _, rfl, below⟩ := h
  rw [Loop.Block.points, hloops, settings.map_range_iterVars] at hpoint
  rw [Loop.Load.cell, indices, Loop.Block.counters, hloops]
  exact Kernel.evalIndices_indices hranges below hpoint

/-- A read that is recorded at the shape of its buffer has the recorded region as its footprint, if
that shape broadcasts to the output's. -/
theorem Site.Recorded.footprint
    (hranges : output.ranges env.symbols settings.indexType = .ok ranges)
    (hloops : block.iterVars = settings.iterVars ranges) {load : Load} {region : Region}
    (h : (Kernel.site env settings ranges).Recorded
      (fun source access => access = source.shape ∧ source.shape.BroadcastsTo output) load region) :
    block.Footprint env.symbols I memory ends load region := by
  have points (point : List Int) : point ∈ block.points ends ↔ _ :=
    Loop.Block.mem_points_iff hranges hloops
  have read (point : List Int) (hpoint : point ∈ block.points ends) :
      load.cell I memory (block.counters point) = _ := h.cell_eq hranges hloops hpoint
  obtain ⟨_, _, reads, rfl, below⟩ := h
  have cells (cell : List Int) : cell ∈ region.cells ends ↔
      List.Forall₂ InExtent (load.buffer.shape.extents env.symbols ends) cell :=
    Shape.mem_points_iff reads.ranges_eq
  have inside (point : List Int) (hpoint : point ∈ block.points ends) :
      List.Forall₂ InExtent (load.buffer.shape.extents env.symbols ends)
        (load.cell I memory (block.counters point)) := by
    rw [read point hpoint]
    exact below.inExtent_stretch ((points point).mp hpoint)
  refine ⟨reads.buffer_eq, inside, fun point hpoint => (cells _).mpr (inside point hpoint), ?_⟩
  intro nonempty cell hcell
  obtain ⟨start, hstart⟩ := List.exists_mem_of_ne_nil _ nonempty
  obtain ⟨point, hpoint, stands⟩ :=
    below.exists_stretch_eq ((points start).mp hstart) ((cells cell).mp hcell)
  have hpoint := (points point).mpr hpoint
  exact ⟨point, hpoint, (read point hpoint).trans stands⟩

end Footprints

namespace Kernel

variable {V : Type} {kernel : Kernel} {scope : Scope} {symbols : Symbols} {ops : List ArrayOp}
  {settings : Settings} {block : Block}

/-- **Footprints are in bounds and exact.** The reads that occur in a compiled value are listed, and
the block's regions are their footprints, in order. -/
theorem compile_reads_exact (I : Interpretation V) (memory : Memory V) (ends : Expr → Int)
    (h : kernel.compile ⟨scope, symbols, .elementwise ops⟩ settings = .ok block) :
    (∀ load : Load, load.OccursIn block.body.value ↔ load ∈ block.body.value.loads) ∧
      List.Forall₂ (block.Footprint symbols I memory ends) block.body.value.loads block.reads := by
  have derived := compile_eq_ok_iff.mp h
  obtain ⟨ranges, hranges, hloops, recorded⟩ := derived.elementwise
  refine ⟨derived.occursIn_iff, recorded.imp ?_⟩
  intro load region h
  exact h.footprint hranges hloops

/-- In two rows, a total is read at all of its six cells, and a column at both of its two. -/
theorem compile_reads_exact_addColumn :
    List.Forall₂
      (AddColumn.block.Footprint AddColumn.symbols .integers (fun _ _ => 0) fun _ => 2)
      [⟨AddColumn.total, [.var AddColumn.row, .var AddColumn.position]⟩,
        ⟨AddColumn.column, [.var AddColumn.row, .int 0 .int64]⟩]
      [⟨AddColumn.total, [AddColumn.rows, AddColumn.columns 3]⟩,
        ⟨AddColumn.column, [AddColumn.rows, AddColumn.columns 1]⟩] := by
  have compiled : AddColumn.kernel.compile AddColumn.env {} = .ok AddColumn.block := rfl
  exact (compile_reads_exact .integers (fun _ _ => 0) (fun _ => 2) compiled).2

end Kernel

end ArrayKernel
