import ArrayKernel.Proofs.Accesses
import ArrayKernel.Proofs.Lockstep

/-!
The names and types of loop counters.

The settings choose how loop counters are called and the type of all indices. Neither takes part in
any decision: with other settings the same kernels are compiled, the others are refused with the
same diagnostic, and the blocks differ in these names and types only. Which ends of ranges change
their type cannot be read off a block, since a symbol may be bound to an integer as well; that is
decided by the shapes that the ranges were built from.

* `Shape.ranges_recast`: ranges with another index type. Faults do not depend on it.
* `Settings.rename`: counters are replaced by position.
* `Loop.Block.recast`: the block with other counters and another index type.
* `Kernel.compile_rename`: compiling with other settings gives the recast block.
-/

namespace ArrayKernel

open Loop (Expr Var IterVar Load Range Region Block)

/-! ### Index types -/

/-- An integer with another type. Any other expression stays as it is. -/
def Loop.Expr.retype (type : ElementType) : Expr → Expr
  | .int value _ => .int value type
  | e => e

@[simp] theorem Loop.Expr.asInt?_retype (type : ElementType) (e : Expr) :
    (e.retype type).asInt? = e.asInt? := by
  cases e <;> rfl

/-- The range of a dimension with another index type. The end that a symbol is bound to stays. -/
def Loop.Range.recast (index : ElementType) : Dim → Range → Range
  | .const _, range => ⟨range.start.retype index, range.stop.retype index⟩
  | _, range => ⟨range.start.retype index, range.stop⟩

@[simp] theorem Loop.Range.extent?_recast (index : ElementType) (dim : Dim) (range : Range) :
    (range.recast index dim).extent? = range.extent? := by
  cases dim <;> simp [recast, extent?]

theorem Dim.ranges_recast (shape : Shape) (symbols : Symbols) (index index' : ElementType)
    (dims : List Dim) :
    Dim.ranges shape symbols index' dims =
      (Dim.ranges shape symbols index dims).map
        (List.zipWith (Range.recast index') (dims.filter fun dim => !dim.isElided)) := by
  induction dims with
  | nil => rfl
  | cons dim dims ih =>
      cases dim with
      | const extent =>
          rw [Dim.ranges, Dim.ranges, ih]
          by_cases fits : extent.toNat < Nat.pow 2 63
          · rw [if_pos fits, if_pos fits]
            cases Dim.ranges shape symbols index dims <;> rfl
          · rw [if_neg fits, if_neg fits]
            rfl
      | symbol name =>
          rw [Dim.ranges, Dim.ranges, ih]
          cases symbols.find? name with
          | none => rfl
          | some stop => cases Dim.ranges shape symbols index dims <;> rfl
      | elided => exact ih

/-- The ranges of a shape with another index type. -/
def Shape.recast (index : ElementType) (shape : Shape) (ranges : List Range) : List Range :=
  List.zipWith (Range.recast index) shape.retained ranges

/-- **The index type shows in the ranges only**, and not in the faults. -/
theorem Shape.ranges_recast (shape : Shape) (symbols : Symbols) (index index' : ElementType) :
    shape.ranges symbols index' = (shape.ranges symbols index).map (shape.recast index') :=
  Dim.ranges_recast shape symbols index index' shape.dims

section Recast

variable {symbols : Symbols} {index index' : ElementType} {shape : Shape}
  {ranges ranges' : List Range}

theorem Shape.eq_recast (hranges : shape.ranges symbols index = .ok ranges)
    (hranges' : shape.ranges symbols index' = .ok ranges') :
    ranges' = shape.recast index' ranges := by
  rw [shape.ranges_recast symbols index index', hranges] at hranges'
  exact (Except.ok.inj hranges').symm

/-- What is known of the extents does not depend on the index type. -/
theorem Shape.map_extent?_eq (hranges : shape.ranges symbols index = .ok ranges)
    (hranges' : shape.ranges symbols index' = .ok ranges') :
    ranges'.map Range.extent? = ranges.map Range.extent? := by
  have count : ranges.length = shape.retained.length := length_of_ranges_eq_ok hranges
  rw [eq_recast hranges hranges', recast, List.map_zipWith]
  exact List.ext_getElem (by simp [count]) fun k _ _ => by simp

def Loop.Region.SameBuffer (region region' : Region) : Prop :=
  region'.buffer = region.buffer

/-- The region of an access with another index type. -/
def Loop.Region.recast (index : ElementType) (access : Shape) (region : Region) : Region :=
  ⟨region.buffer, access.recast index region.ranges⟩

/-- Regions of the same buffers that are built from the same shapes are recast to each other. -/
theorem Loop.Region.eq_zipWith_recast {accesses : List Shape} {reads reads' : List Region}
    (h : List.Forall₂ (Spans symbols index) accesses reads)
    (h' : List.Forall₂ (Spans symbols index') accesses reads')
    (buffers : List.Forall₂ SameBuffer reads reads') :
    reads' = List.zipWith (recast index') accesses reads := by
  induction h generalizing reads' with
  | nil =>
      cases buffers
      rfl
  | @cons access region accesses reads spans _ ih =>
      rcases h' with _ | ⟨spans', rest'⟩
      rcases buffers with _ | ⟨same, rest⟩
      rename_i region' reads'
      have ranges : region'.ranges = access.recast index' region.ranges :=
        Shape.eq_recast spans spans'
      have head : region' = region.recast index' access := by
        cases region'
        rw [Loop.Region.recast, ← ranges]
        exact congrArg (Region.mk · _) same
      rw [ih rest' rest, head, List.zipWith_cons_cons]

end Recast

/-! ### Unchanged shapes -/

theorem Shape.faithful_id : Shape.Faithful id where
  scalar := rfl
  retained_eq _ := rfl

theorem Entry.mapShape_id : Entry.mapShape id = id := by
  funext entry
  cases entry <;> rfl

theorem Operand.mapShape_id (operand : Operand) : operand.mapShape id = operand := by
  cases operand <;> rfl

theorem Fault.mapShape_id (fault : Fault) : fault.mapShape id = fault := by
  cases fault <;> simp [mapShape, Operand.mapShape_id] <;> rfl

theorem Event.mapShape_id : Event.mapShape id = id := by
  funext event
  cases event <;> rfl

theorem SameOutcome.of_map {α β : Type} {x : Except Fault α} {y : Except Fault β} {F : α → β}
    (h : y = x.map F) : SameOutcome id (fun a b => b = F a) x y := by
  subst h
  cases x with
  | ok a => exact .ok rfl
  | error fault =>
      have stays := SameOutcome.error (R := fun a b => b = F a) (f := id) fault
      rw [Fault.mapShape_id] at stays
      exact stays

/-! ### Counters -/

namespace Settings

/-- The counter in place of that of one of the `loops`: the one at the same position. Other
variables stay as they are. -/
def rename (settings : Settings) (loops : List IterVar) (v : Var) : Var :=
  match loops.findIdx? fun loop => loop.var == v with
  | some position => settings.iterVar position
  | none => v

/-- An index with the counters and the index type of the settings. -/
def reindex (settings : Settings) (loops : List IterVar) : Expr → Expr
  | .var v => .var (settings.rename loops v)
  | e => e.retype settings.indexType

/-- A read with the counters and the index type of the settings. -/
def reread (settings : Settings) (loops : List IterVar) (load : Load) : Load :=
  ⟨load.buffer, load.indices.map (settings.reindex loops)⟩

variable {settings settings' : Settings} {ranges : List Range}

/-- Counters have different names, so each is replaced by the one at its own position. -/
theorem rename_iterVar {position : Nat} (h : position < ranges.length) :
    settings'.rename (settings.iterVars ranges) (settings.iterVar position) =
      settings'.iterVar position := by
  have found : ((settings.iterVars ranges).findIdx? fun loop =>
      loop.var == settings.iterVar position) = some position := by
    rw [List.findIdx?_eq_some_iff_getElem]
    refine ⟨by simpa [iterVars] using h, by simp [iterVars], ?_⟩
    intro earlier before same
    have names : settings.iterVar earlier = settings.iterVar position := by
      simpa [iterVars] using same
    have := settings.iterVar_name_injective (congrArg Var.name names)
    omega
  rw [rename, found]

/-- The counters of the loops are replaced in order. -/
theorem map_reindex_iterVars (settings settings' : Settings) {ranges' : List Range}
    (count : ranges'.length = ranges.length) :
    ((settings.iterVars ranges).map fun loop => Expr.var loop.var).map
        (settings'.reindex (settings.iterVars ranges)) =
      (settings'.iterVars ranges').map fun loop => Expr.var loop.var := by
  refine List.ext_getElem (by simp [iterVars, count]) fun k hk hk' => ?_
  have inside : k < ranges.length := by simpa [iterVars] using hk
  simp only [iterVars, List.getElem_map, List.getElem_mapIdx]
  exact congrArg Expr.var (rename_iterVar inside)

end Settings

/-- The block with the counters and the index type of the settings. Its loops and writes are built
from the shape `output`, and its reads from the shapes `accesses`. -/
def Loop.Block.recast (settings : Settings) (output : Shape) (accesses : List Shape)
    (block : Block) : Block where
  iterVars :=
    settings.iterVars (output.recast settings.indexType (block.iterVars.map IterVar.range))
  reads := List.zipWith (Region.recast settings.indexType) accesses block.reads
  writes := block.writes.map (Region.recast settings.indexType output)
  name := block.name
  body := ⟨block.body.buffer, block.body.indices.map (settings.reindex block.iterVars),
    block.body.value.mapLoads (settings.reread block.iterVars)⟩

namespace Kernel

variable {kernel : Kernel} {env : Environment} {settings settings' : Settings}
  {ranges ranges' : List Range}

theorem reindex_index {position : Nat} (inside : position < ranges.length) (dim : Dim)
    {range range' : Range} (extent : range'.extent? = range.extent?) :
    settings'.reindex (settings.iterVars ranges)
        ((site env settings ranges).index dim ⟨settings.iterVar position, range⟩) =
      (site env settings' ranges').index dim ⟨settings'.iterVar position, range'⟩ := by
  unfold Site.index
  rw [extent]
  by_cases repeated : dim = .const 1 ∧ range.extent? ≠ some 1
  · rw [if_pos repeated, if_pos repeated]
    rfl
  · rw [if_neg repeated, if_neg repeated]
    exact congrArg Expr.var (Settings.rename_iterVar inside)

/-- Reads are aligned with the loops by position, and stay at zero by the extents of the loops. -/
theorem map_reindex_indices (extents : ranges'.map Range.extent? = ranges.map Range.extent?)
    (access : Shape) :
    ((site env settings ranges).indices access).map
        (settings'.reindex (settings.iterVars ranges)) =
      (site env settings' ranges').indices access := by
  have count : ranges'.length = ranges.length := by simpa using congrArg List.length extents
  refine List.ext_getElem
    (by simp [Site.indices, Site.innermost, site, Settings.iterVars, count]) fun k hk hk' => ?_
  simp only [Site.indices, Site.innermost, site, Settings.iterVars, List.getElem_map,
    List.getElem_zipWith, List.getElem_drop, List.getElem_mapIdx, List.length_mapIdx, count]
  have aligned : k < ranges.length - (ranges.length - access.rank) := by
    have short := hk
    simp only [Site.indices, Site.innermost, site, Settings.iterVars, List.length_map,
      List.length_zipWith, List.length_drop, List.length_mapIdx] at short
    omega
  have inside : ranges.length - access.rank + k < ranges.length := by omega
  have extent := List.getElem_of_eq extents (i := ranges.length - access.rank + k)
    (by simpa [count] using inside)
  rw [List.getElem_map, List.getElem_map] at extent
  exact reindex_index inside _ extent

theorem site_follows_rename (extents : ranges'.map Range.extent? = ranges.map Range.extent?) :
    Site.Follows id (settings'.reread (settings.iterVars ranges)) Region.SameBuffer
      (site env settings ranges) (site env settings' ranges') where
  length_eq := by
    simpa [site, Settings.iterVars] using congrArg List.length extents
  find?_eq name := by
    show env.scope.find? name = _
    rw [Entry.mapShape_id, Option.map_id]
    rfl
  operators_eq l r op := by
    show env.operators l r op = (env.operators l r op).map id
    rw [Option.map_id]
    rfl
  load_eq buffer access := by
    show (⟨buffer, _⟩ : Load) = _
    rw [map_reindex_indices extents]
    rfl
  ranges access := by
    have other := access.ranges_recast env.symbols settings.indexType settings'.indexType
    refine (SameOutcome.of_map other).imp ?_
    intro _ _ _ buffer
    rfl

/-- Blocks in step under other settings are recast to each other, given the shapes that both are
built from. -/
theorem BlocksInStep.eq_recast {block block' : Block} {loops : List IterVar}
    (h : BlocksInStep id (settings'.reread loops) Region.SameBuffer kernel env env settings
      settings' block block')
    (looped : ∀ ranges, kernel.output.shape.ranges env.symbols settings.indexType = .ok ranges →
      settings.iterVars ranges = loops) {accesses : List Shape}
    (spans : block.Spans env.symbols settings.indexType kernel.output.shape accesses)
    (spans' : block'.Spans env.symbols settings'.indexType kernel.output.shape accesses) :
    block' = block.recast settings' kernel.output.shape accesses := by
  obtain ⟨hranges, hranges', regions⟩ := h
  rename_i ranges ranges' reads reads' value
  obtain rfl := looped ranges hranges
  have ranges_eq : ranges' = kernel.output.shape.recast settings'.indexType ranges :=
    Shape.eq_recast hranges hranges'
  have reads_eq : reads' = List.zipWith (Region.recast settings'.indexType) accesses reads :=
    Region.eq_zipWith_recast spans.reads spans'.reads regions
  have count : ranges'.length = ranges.length := by
    rw [Shape.length_of_ranges_eq_ok hranges, Shape.length_of_ranges_eq_ok hranges', id]
  rw [Block.recast, blockOf, blockOf, storeOf, storeOf, Settings.map_range_iterVars, ← ranges_eq,
    reads_eq, settings.map_reindex_iterVars settings' count, ranges_eq]
  rfl

/-- **A kernel is lowered in step with itself under other names and types of counters.** -/
theorem lower_rename (kernel : Kernel) (env : Environment)
    (copies : settings'.copies = settings.copies) :
    Traced.InStep id
      (fun block block' => ∀ accesses,
        block.Spans env.symbols settings.indexType kernel.output.shape accesses →
        block'.Spans env.symbols settings'.indexType kernel.output.shape accesses →
        block' = block.recast settings' kernel.output.shape accesses)
      (kernel.lower env settings) (kernel.lower env settings') := by
  have outcome := SameOutcome.of_map (kernel.output.shape.ranges_recast env.symbols
    settings.indexType settings'.indexType)
  -- If the output has no ranges then there are no loops to rename, and any list will do.
  obtain ⟨loops, looped⟩ : ∃ loops, ∀ ranges,
      kernel.output.shape.ranges env.symbols settings.indexType = .ok ranges →
        settings.iterVars ranges = loops := by
    rcases kernel.output.shape.ranges env.symbols settings.indexType with fault | ranges
    · exact ⟨[], by rintro _ ⟨⟩⟩
    · exact ⟨settings.iterVars ranges, by rintro _ ⟨⟩; rfl⟩
  apply Traced.InStep.imp (R := BlocksInStep id (settings'.reread loops) Region.SameBuffer kernel
    env env settings settings')
  · apply lower_inStep Shape.faithful_id copies Iff.rfl
    · exact outcome.imp fun _ _ _ => trivial
    · intro ranges ranges' hranges hranges'
      obtain rfl := looped ranges hranges
      exact site_follows_rename (Shape.map_extent?_eq hranges hranges')
  · intro block block' blocks accesses spans spans'
    exact blocks.eq_recast looped spans spans'

/-- **The settings only name and type the counters.** Take other settings that allow copies exactly
if the first ones do. A kernel that was refused is refused with the same diagnostic. A kernel that
was compiled is compiled to the recast block: counters are replaced by position, and the index type
is replaced in the starts of ranges, in the ends that constant dimensions have, and in the zero
indices. Which ends these are is decided by the recorded shapes, and each region is built from its
own. -/
theorem compile_rename (kernel : Kernel) (env : Environment) (settings settings' : Settings)
    (copies : settings'.copies = settings.copies) :
    kernel.compile env settings' =
        (kernel.compile env settings).map
          (Block.recast settings' kernel.output.shape (kernel.lower env settings).accesses) ∧
      ∀ block, kernel.compile env settings = .ok block →
        block.Spans env.symbols settings.indexType kernel.output.shape
          (kernel.lower env settings).accesses := by
  have inStep := lower_rename kernel env copies
  have recorded : (kernel.lower env settings').accesses = (kernel.lower env settings).accesses := by
    rw [Traced.accesses, inStep.events, Event.mapShape_id, List.map_id, Traced.accesses]
  rcases compile_of_inStep inStep with
    ⟨block, block', done, done', recast⟩ | ⟨fault, refused, refused'⟩
  · have spans := compile_spans done
    have spans' := compile_spans done'
    rw [recorded] at spans'
    rw [done, done', recast _ spans spans']
    constructor
    · rfl
    · rintro _ ⟨⟩
      exact spans
  · rw [refused, refused', Fault.mapShape_id]
    constructor
    · rfl
    · rintro _ ⟨⟩

/-- Here the rows end at an immediate that `n` is bound to, which keeps its own type. -/
theorem compile_rename_addColumn :
    ∃ block, AddColumn.kernel.compile ⟨AddColumn.scope,
        Symbols.empty.insert "n" (.int 2 .int64), .elementwise [.arith .add]⟩ ⟨"i", .int32, true⟩ =
          .ok block ∧
      block.iterVars = [⟨⟨"i0", .int32⟩, .int 0 .int32, .int 2 .int64⟩,
        ⟨⟨"i1", .int32⟩, .int 0 .int32, .int 3 .int32⟩] ∧
      block.reads.map Region.ranges =
        [[⟨.int 0 .int32, .int 2 .int64⟩, ⟨.int 0 .int32, .int 3 .int32⟩],
          [⟨.int 0 .int32, .int 2 .int64⟩, ⟨.int 0 .int32, .int 1 .int32⟩]] ∧
      block.body.value = .arith .add
        (.load AddColumn.total [.var ⟨"i0", .int32⟩, .var ⟨"i1", .int32⟩])
        (.load AddColumn.column [.var ⟨"i0", .int32⟩, .int 0 .int32]) := by
  have compiled : AddColumn.kernel.compile ⟨AddColumn.scope,
      Symbols.empty.insert "n" (.int 2 .int64), .elementwise [.arith .add]⟩ {} = .ok _ := rfl
  have renamed := (compile_rename AddColumn.kernel ⟨AddColumn.scope,
    Symbols.empty.insert "n" (.int 2 .int64), .elementwise [.arith .add]⟩ {} ⟨"i", .int32, true⟩
    rfl).1
  rw [compiled] at renamed
  exact ⟨_, renamed, rfl, rfl, rfl⟩

end Kernel

end ArrayKernel
