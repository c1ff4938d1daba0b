import ArrayKernel.Proofs.Accesses
import ArrayKernel.Proofs.Typing

/-!
The names of counters.

Counters are named by a stem and their position, and a symbolic extent is whatever its symbol is
bound to. Nothing keeps the two apart. They meet in the ranges of a block, where a variable of an
extent that has the name of a counter is captured by the loop.

* `Loop.Block.Fresh`: no counter has the name of a variable in a range.
* `Loop.Block.Spans.mentions_iff`: the ranges of a block mention what the shapes that they are built
  from mention.
* `Kernel.compile_fresh_iff`: when the counters of a block are fresh.
-/

namespace ArrayKernel

open Loop (Expr IterVar Range Region Block)

/-! ### Names in ranges -/

namespace Loop

/-- A variable of this name stands in the expression. -/
def Expr.Mentions (id : String) (e : Expr) : Prop :=
  ∃ type, (Expr.var ⟨id, type⟩).PartOf e

/-- A variable of this name stands in an end of the range. -/
def Range.Mentions (id : String) (range : Range) : Prop :=
  range.start.Mentions id ∨ range.stop.Mentions id

/-- All ranges of the block: of its loops, and of the regions that it reads and writes. -/
def Block.ranges (block : Block) : List Range :=
  block.iterVars.map IterVar.range ++ (block.reads ++ block.writes).flatMap Region.ranges

/-- No counter has the name of a variable in a range of the block. -/
def Block.Fresh (block : Block) : Prop :=
  ∀ loop ∈ block.iterVars, ∀ range ∈ block.ranges, ¬ range.Mentions loop.var.name

variable {id : String}

@[simp] theorem Expr.not_mentions_int (value : Int64) (type : ElementType) :
    ¬ (Expr.int value type).Mentions id := by
  rintro ⟨_, ⟨⟩⟩

@[simp] theorem Expr.mentions_var (v : Var) : (Expr.var v).Mentions id ↔ v.name = id := by
  constructor
  · rintro ⟨_, ⟨⟩⟩
    rfl
  · rintro rfl
    exact ⟨v.type, .whole⟩

@[simp] theorem Range.mentions_upTo (stop : Expr) (index : ElementType) :
    (Range.upTo stop index).Mentions id ↔ stop.Mentions id := by
  simp [Range.Mentions, Range.upTo]

end Loop

/-! ### Names in shapes -/

/-- A variable of this name stands in what the dimension is bound to. -/
def Dim.Mentions (symbols : Symbols) (id : String) : Dim → Prop
  | .symbol name => ∃ stop, symbols.find? name = some stop ∧ stop.Mentions id
  | _ => False

/-- A variable of this name stands in what a dimension of the shape is bound to. -/
def Shape.Mentions (symbols : Symbols) (id : String) (shape : Shape) : Prop :=
  ∃ dim ∈ shape.dims, dim.Mentions symbols id

section

variable {symbols : Symbols} {index : ElementType} {id : String}

theorem Dim.HasRange.mentions_iff {dim : Dim} {range : Range}
    (h : dim.HasRange symbols index range) : dim.Mentions symbols id ↔ range.Mentions id := by
  cases dim with
  | const extent =>
      obtain ⟨_, rfl⟩ := h
      simp [Dim.Mentions]
  | symbol name =>
      obtain ⟨stop, bound, rfl⟩ := h
      simp [Dim.Mentions, bound]
  | elided => exact h.elim

theorem Shape.mentions_iff {shape : Shape} {ranges : List Range}
    (h : shape.ranges symbols index = .ok ranges) :
    shape.Mentions symbols id ↔ ∃ range ∈ ranges, range.Mentions id := by
  have retained : shape.Mentions symbols id ↔ ∃ dim ∈ shape.retained, dim.Mentions symbols id := by
    constructor
    · rintro ⟨dim, mem, mentions⟩
      cases dim with
      | symbol name => exact ⟨_, List.mem_filter.mpr ⟨mem, rfl⟩, mentions⟩
      | _ => exact mentions.elim
    · rintro ⟨dim, mem, mentions⟩
      exact ⟨dim, List.mem_of_mem_filter mem, mentions⟩
  rw [retained]
  exact exists_mem_iff_of_forall₂ (ranges_eq_ok_iff.mp h) fun _ _ related => related.mentions_iff

/-- **The ranges of a block mention what the shapes that they are built from mention.** -/
theorem Loop.Block.Spans.mentions_iff {output : Shape} {accesses : List Shape} {block : Block}
    (h : block.Spans symbols index output accesses) (id : String) :
    (∃ range ∈ block.ranges, range.Mentions id) ↔
      ∃ shape ∈ output :: accesses, shape.Mentions symbols id := by
  have read : (∃ shape ∈ accesses, shape.Mentions symbols id) ↔
      ∃ region ∈ block.reads, ∃ range ∈ region.ranges, range.Mentions id :=
    exists_mem_iff_of_forall₂ h.reads fun _ _ spans => Shape.mentions_iff spans
  rw [List.exists_mem_cons_iff, read]
  constructor
  · rintro ⟨range, mem, mentions⟩
    rcases List.mem_append.mp mem with loop | inside
    · exact .inl ((Shape.mentions_iff h.loops).mpr ⟨range, loop, mentions⟩)
    · obtain ⟨region, mem, inside⟩ := List.mem_flatMap.mp inside
      rcases List.mem_append.mp mem with mem | mem
      · exact .inr ⟨region, mem, range, inside, mentions⟩
      · exact .inl ((Shape.mentions_iff (h.writes region mem)).mpr ⟨range, inside, mentions⟩)
  · rintro (output | ⟨region, mem, range, inside, mentions⟩)
    · obtain ⟨range, loop, mentions⟩ := (Shape.mentions_iff h.loops).mp output
      exact ⟨range, List.mem_append_left _ loop, mentions⟩
    · have inside : range ∈ (block.reads ++ block.writes).flatMap Region.ranges :=
        List.mem_flatMap.mpr ⟨region, List.mem_append_left _ mem, inside⟩
      exact ⟨range, List.mem_append_right _ inside, mentions⟩

end

/-! ### Counters -/

/-- A counter for each position below the rank of the output. -/
theorem Kernel.Lowers.forall_name_iff {kernel : Kernel} {env : Environment} {settings : Settings}
    {block : Block} (h : kernel.Lowers env settings block) {P : String → Prop} :
    (∀ loop ∈ block.iterVars, P loop.var.name) ↔
      ∀ position < kernel.output.rank, P (settings.iterVar position).name := by
  obtain ⟨ranges, hranges, loops, _⟩ := h.loops_eq
  rw [loops, Buffer.rank, ← Shape.length_of_ranges_eq_ok hranges]
  calc
    (∀ loop ∈ settings.iterVars ranges, P loop.var.name) ↔
        ∀ id ∈ (settings.iterVars ranges).map fun loop => loop.var.name, P id :=
      List.forall_mem_map.symm
    _ ↔ ∀ id ∈ (List.range ranges.length).map fun position => (settings.iterVar position).name,
        P id := by rw [settings.map_name_iterVars]
    _ ↔ ∀ position < ranges.length, P (settings.iterVar position).name := by
      simp only [List.forall_mem_map, List.mem_range]

/-- **The counters of a block are fresh exactly if no extent mentions one of their names**: an
extent of the output or of a shape at which a buffer was read, under any operator table. -/
theorem Kernel.compile_fresh_iff {kernel : Kernel} {env : Environment} {settings : Settings}
    {block : Block} (h : kernel.compile env settings = .ok block) :
    block.Fresh ↔ ∀ position < kernel.output.rank,
      ∀ shape ∈ kernel.output.shape :: (kernel.lower env settings).accesses,
        ¬ shape.Mentions env.symbols (settings.iterVar position).name := by
  rw [← (compile_eq_ok_iff.mp h).forall_name_iff (P := fun id =>
    ∀ shape ∈ kernel.output.shape :: (kernel.lower env settings).accesses,
      ¬ shape.Mentions env.symbols id)]
  refine forall₂_congr fun loop _ => ?_
  have captured := not_congr ((compile_spans h).mentions_iff loop.var.name)
  simpa only [not_exists, not_and] using captured

/-- The only variable in an extent is the number of rows. -/
theorem Kernel.compile_fresh_iff_addColumn : AddColumn.block.Fresh := by
  have compiled : AddColumn.kernel.compile AddColumn.env {} = .ok AddColumn.block := rfl
  refine (compile_fresh_iff compiled).mpr ?_
  rintro position _ shape _ ⟨dim, _, mentions⟩
  cases dim with
  | symbol name =>
      obtain ⟨stop, bound, mentions⟩ := mentions
      have rows : stop = .var ⟨"n", .int64⟩ := by
        by_cases same : name = "n"
        · subst same
          exact (Option.some.inj bound).symm
        · have unbound : AddColumn.symbols.find? name = none := Symbols.find?_insert_of_ne same
          exact absurd (unbound.symm.trans bound) nofun
      subst rows
      have same : "n" = "__iter_" ++ Nat.repr position := (Expr.mentions_var _).mp mentions
      exact absurd (congrArg (fun text => text.toList.head?) same) (by simp)
  | _ => exact mentions

/-! ### A loop that captures its extent -/

namespace Copy

/-- As many elements as a variable says that has the name of the counter. -/
def captured : Shape := ⟨[.symbol "__iter_0"]⟩

def counter : Loop.Var := ⟨"__iter_0", .int64⟩

end Copy

/-- The counter of a compiled kernel need not be fresh: it can bound its own loop. -/
theorem Kernel.compile_captured : ∃ block,
    (Copy.kernel Copy.captured).compile
        (Copy.env Copy.captured (Symbols.empty.bindVar "__iter_0" .int64)) {} = .ok block ∧
      block.iterVars = [⟨Copy.counter, .upTo (.var Copy.counter) .int64⟩] ∧ ¬ block.Fresh := by
  refine ⟨_, rfl, rfl, ?_⟩
  intro fresh
  refine fresh ⟨Copy.counter, .upTo (.var Copy.counter) .int64⟩ (.head _) _ (.head _) ?_
  exact (Range.mentions_upTo _ _).mpr ((Expr.mentions_var _).mpr rfl)

end ArrayKernel
