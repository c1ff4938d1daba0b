import ArrayKernel.Proofs.Derivation
import ArrayKernel.Proofs.Exchange

/-!
The representation invariant of blocks, and who guards it.

Compiling guards it: one region is written, that of the buffer in which the block stores, and there
is one range, one index and one loop for each dimension of this buffer. Reading a block from a text
does not look at it. What was written is read as well-formed or as ill-formed as it was, and there
is a text without any written region.
-/

namespace ArrayKernel

open Loop (Block)

/-- The shape that every block is meant to have. -/
structure Loop.Block.WellFormed (block : Block) : Prop where
  writes : ∃ region, block.writes = [region] ∧ region.buffer = block.body.buffer ∧
    region.ranges.length = block.body.buffer.rank
  indices : block.body.indices.length = block.body.buffer.rank
  loops : block.iterVars.length = block.body.buffer.rank

/-- What is read of a written block is as well-formed as the block. -/
theorem Loop.Block.wellFormed_iff_of_parse {written read : Block}
    (h : Block.parse written.render = .ok read) : read.WellFormed ↔ written.WellFormed := by
  rw [(written.answers_parse_render.eq_of_eq_ok h).2]

namespace Kernel

variable {kernel : Kernel} {env : Environment} {settings : Settings} {block : Block}

theorem Lowers.wellFormed (h : kernel.Lowers env settings block) : block.WellFormed := by
  obtain ⟨ranges, hranges, hloops, hwrites⟩ := h.loops_eq
  obtain ⟨buffer, indices⟩ := h.body_eq
  have rank : ranges.length = block.body.buffer.rank := by
    rw [buffer]
    exact Shape.length_of_ranges_eq_ok hranges
  have loops : block.iterVars.length = block.body.buffer.rank := by
    rw [hloops, ← rank]
    simp [Settings.iterVars]
  refine ⟨⟨⟨kernel.output, ranges⟩, hwrites, buffer.symm, rank⟩, ?_, loops⟩
  rw [indices, List.length_map, loops]

/-- **Compiled blocks are well-formed**, and the exchange as JSON keeps them so; of no block does it
change whether it is well-formed. -/
theorem compile_wellFormed (h : kernel.compile env settings = .ok block) :
    block.WellFormed ∧
      ∀ written read : Block, Block.parse written.render = .ok read →
        (read.WellFormed ↔ written.WellFormed) :=
  ⟨(compile_eq_ok_iff.mp h).wellFormed, fun _ _ => Block.wellFormed_iff_of_parse⟩

theorem compile_wellFormed_addColumn :
    AddColumn.kernel.compile AddColumn.env {} = .ok AddColumn.block ∧
      ∃ read, Block.parse AddColumn.block.render = .ok read ∧ read.WellFormed := by
  have compiled : AddColumn.kernel.compile AddColumn.env {} = .ok AddColumn.block := rfl
  have storable : AddColumn.block.Storable := ⟨by decide, by decide⟩
  obtain ⟨wellFormed, kept⟩ := compile_wellFormed compiled
  have parsed := AddColumn.block.answers_parse_render.1 storable
  exact ⟨compiled, _, parsed, (kept _ _ parsed).mpr wellFormed⟩

end Kernel

/-- Stores one truth value, and declares to write nothing. -/
def unwritten : Block :=
  ⟨[], [], [], "k", ⟨⟨"out", ⟨⟨[]⟩, .bool⟩⟩, [], .bool true⟩⟩

/-- Reading does not guard the invariant: a block that writes no region is read from its text. -/
theorem parse_unwritten :
    Block.parse unwritten.render = .ok unwritten ∧ ¬unwritten.WellFormed := by
  have storable : unwritten.Storable := ⟨by decide, by decide⟩
  refine ⟨unwritten.answers_parse_render.1 storable, fun wellFormed => ?_⟩
  obtain ⟨region, writes, -⟩ := wellFormed.writes
  cases writes

end ArrayKernel
