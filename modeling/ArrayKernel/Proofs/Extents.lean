import ArrayKernel.Proofs.Accesses
import ArrayKernel.Proofs.Diagnosis

/-!
The extents of ranges, and the type of their ends.

A range ends at an immediate, for a constant dimension, or at whatever a symbol is bound to. Its
extent is a difference of 64-bit integers that nothing checks. It is exact all the same, since every
range starts at zero. Whether the ends of a constant range are values of the index type is another
question: constant extents are checked against 64-bit integers, whatever that type is.

* `Loop.Range.Measures`: a range has the extent of a dimension, found without overflow.
* `Loop.Block.Built`: each range of a block is related to the dimension that it is built from.
* `Loop.Block.Spans.built_iff`: this depends on the shapes alone.
* `Kernel.ranges_exact`: which shapes have ranges, what they are, and which extents the ranges of
  a block have.
* `Kernel.compile_bounds_fit_iff`: when the ends of the constant ranges of a block fit their type.
-/

namespace ArrayKernel

open Loop (Expr IterVar Range Region Block)

/-! ### Extents -/

namespace Loop.Range

/-- The difference of the ends, where both are immediates, is a signed 64-bit integer. -/
def Subtracts (range : Range) : Prop :=
  ∀ start stop, range.start.asInt? = some start → range.stop.asInt? = some stop →
    -2 ^ 63 ≤ stop.toInt - start.toInt ∧ stop.toInt - start.toInt < 2 ^ 63

/-- Whatever 64-bit integer a range from zero ends at, it is the difference itself. -/
theorem subtracts_upTo (stop : Expr) (index : ElementType) : (upTo stop index).Subtracts := by
  rintro _ value ⟨⟩ _
  rw [Int64.toInt_zero, Int.sub_zero]
  exact ⟨value.le_toInt, value.toInt_lt⟩

@[simp] theorem extent?_upTo (stop : Expr) (index : ElementType) :
    (upTo stop index).extent? = stop.asInt? := by
  cases stop <;> simp [upTo, extent?, Expr.asInt?]

end Loop.Range

/-- The extent of a dimension as far as it is known. That of a symbol is known if it is bound to an
immediate. -/
def Dim.extent? (symbols : Symbols) : Dim → Option Int
  | .const extent => some extent.toNat
  | .symbol name => ((symbols.find? name).bind Expr.asInt?).map Int64.toInt
  | .elided => none

/-- The range has the extent of the dimension, and is known to have it without overflow. -/
def Loop.Range.Measures (symbols : Symbols) (dim : Dim) (range : Range) : Prop :=
  range.Subtracts ∧ range.extent?.map Int64.toInt = dim.extent? symbols

section

variable {symbols : Symbols} {index : ElementType}

theorem Dim.HasRange.measures {dim : Dim} {range : Range} (h : dim.HasRange symbols index range) :
    range.Measures symbols dim := by
  cases dim with
  | const extent =>
      obtain ⟨small, rfl⟩ := h
      refine ⟨Range.subtracts_upTo _ _, ?_⟩
      rw [Range.extent?_upTo]
      exact congrArg some (Int64.toInt_ofNat_of_lt small)
  | symbol name =>
      obtain ⟨stop, bound, rfl⟩ := h
      refine ⟨Range.subtracts_upTo _ _, ?_⟩
      rw [Range.extent?_upTo, Dim.extent?, bound]
      rfl
  | elided => exact h.elim

/-- A loop is known to run once exactly if the dimension that it runs over is known to be one. -/
theorem Loop.Range.Measures.extent_eq_one_iff {dim : Dim} {range : Range}
    (h : range.Measures symbols dim) : range.extent? = some 1 ↔ dim.extent? symbols = some 1 := by
  rw [← h.2]
  cases range.extent? with
  | none => simp
  | some value =>
      have one : value.toInt = 1 ↔ value = 1 := Int64.toInt_inj (y := 1)
      simp [one]

/-! ### Refusals -/

/-- The code under which a shape is refused for a dimension: an unbound symbol has its own. -/
def Dim.faultCode : Dim → Code
  | .symbol _ => .unboundSymbol
  | .const _ | .elided => .shapeMismatch

theorem Dim.Refused.code_eq {shape : Shape} {dim : Dim} {fault : Fault}
    (h : dim.Refused symbols shape fault) : fault.code = dim.faultCode := by
  cases h <;> rfl

/-- Only retained dimensions can keep a shape from having ranges. -/
theorem Shape.forall_addressable_iff {shape : Shape} :
    (∀ dim ∈ shape.retained, dim.Addressable symbols) ↔
      ∀ dim ∈ shape.dims, dim.Addressable symbols := by
  constructor
  · intro retained dim mem
    cases dim with
    | elided => trivial
    | _ => exact retained _ (List.mem_filter.mpr ⟨mem, rfl⟩)
  · intro all dim mem
    exact all dim (List.mem_of_mem_filter mem)

/-! ### Ranges and their dimensions -/

/-- Every range of the block is related to the dimension that it is built from: a dimension of
`output` for loops and writes, and one of the shape in `accesses` for a read. -/
structure Loop.Block.Built (R : Dim → Range → Prop) (output : Shape) (accesses : List Shape)
    (block : Block) : Prop where
  loops : List.Forall₂ R output.retained (block.iterVars.map IterVar.range)
  reads : List.Forall₂ (fun access region => List.Forall₂ R access.retained region.ranges)
    accesses block.reads
  writes : ∀ region ∈ block.writes, List.Forall₂ R output.retained region.ranges

variable {R : Dim → Range → Prop} {output : Shape} {accesses : List Shape} {block : Block}

/-- **What the ranges of dimensions have in common, the ranges of a block have by its shapes.** -/
theorem Loop.Block.Spans.built_iff {P : Dim → Prop}
    (h : block.Spans symbols index output accesses)
    (agree : ∀ dim range, dim.HasRange symbols index range → (R dim range ↔ P dim)) :
    block.Built R output accesses ↔
      ∀ shape ∈ output :: accesses, ∀ dim ∈ shape.retained, P dim := by
  have along {shape : Shape} {ranges : List Range}
      (spans : shape.ranges symbols index = .ok ranges) :
      List.Forall₂ R shape.retained ranges ↔ ∀ dim ∈ shape.retained, P dim :=
    forall₂_iff_of_forall₂ (Shape.ranges_eq_ok_iff.mp spans) agree
  have read : List.Forall₂ (fun access region => List.Forall₂ R access.retained region.ranges)
      accesses block.reads ↔ ∀ access ∈ accesses, ∀ dim ∈ access.retained, P dim :=
    forall₂_iff_of_forall₂ h.reads fun _ _ spans => along spans
  rw [List.forall_mem_cons]
  constructor
  · intro built
    exact ⟨(along h.loops).mp built.loops, read.mp built.reads⟩
  · rintro ⟨looped, accessed⟩
    -- Loops and writes are built from the same shape, so one condition decides both.
    refine ⟨(along h.loops).mpr looped, read.mpr accessed, ?_⟩
    intro region mem
    exact (along (h.writes region mem)).mpr looped

theorem Loop.Block.Spans.built (h : block.Spans symbols index output accesses)
    (related : ∀ dim range, dim.HasRange symbols index range → R dim range) :
    block.Built R output accesses := by
  have agree dim range (hrange : dim.HasRange symbols index range) : R dim range ↔ True :=
    iff_true_intro (related dim range hrange)
  exact (h.built_iff agree).mpr fun _ _ _ _ => trivial

/-! ### Ranges of shapes and of blocks -/

/-- Over the loops of a kernel, an index stays at zero for a dimension of one exactly if the
dimension of the output is not known to be one. -/
theorem Site.index_of_measures {site : Site} {dim : Dim} {loop : IterVar}
    (h : loop.range.Measures symbols dim) (access : Dim) :
    site.index access loop =
      if access = .const 1 ∧ dim.extent? symbols ≠ some 1 then .int 0 site.indexType
      else .var loop.var := by
  simp only [Site.index, ne_eq, h.extent_eq_one_iff]

end

namespace Kernel

/-- The loops over an output have its extents. -/
theorem measures_iterVars {shape : Shape} {env : Environment} {settings : Settings}
    {ranges : List Range} (h : shape.ranges env.symbols settings.indexType = .ok ranges) :
    List.Forall₂ (fun dim loop => loop.range.Measures env.symbols dim) shape.retained
      (settings.iterVars ranges) := by
  have hranges := Shape.ranges_eq_ok_iff.mp h
  rw [← settings.map_range_iterVars ranges, List.forall₂_map_right_iff] at hranges
  exact hranges.imp fun _ _ related => related.measures

/-- **Ranges are exact.** A shape has ranges exactly if all its constants are signed 64-bit integers
and all its symbols are bound. Then it has one for each retained dimension, from zero, and otherwise
it is refused for its first dimension that has none.

All ranges of a block, under any operator table, have the extents of the dimensions that they are
built from, found without overflow. So have the loops that indices are chosen under, also if the
kernel is refused later. -/
theorem ranges_exact (shape : Shape) (symbols : Symbols) (index : ElementType) (kernel : Kernel)
    (env : Environment) (settings : Settings) :
    ((∃ ranges, shape.ranges symbols index = .ok ranges) ↔
        ∀ dim ∈ shape.dims, dim.Addressable symbols) ∧
      (∀ ranges, shape.ranges symbols index = .ok ranges →
        List.Forall₂ (fun dim range =>
          range.start = .int 0 index ∧ dim.HasRange symbols index range) shape.retained ranges) ∧
      (∀ fault, shape.ranges symbols index = .error fault ↔
        FirstOf (Dim.Addressable symbols)
          (fun dim => dim.Refused symbols shape fault ∧ fault.code = dim.faultCode) shape.dims) ∧
      (∀ block, kernel.compile env settings = .ok block →
        block.Built (Range.Measures env.symbols) kernel.output.shape
          (kernel.lower env settings).accesses) ∧
      ∀ ranges, kernel.output.shape.ranges env.symbols settings.indexType = .ok ranges →
        List.Forall₂ (fun dim loop => loop.range.Measures env.symbols dim ∧
          ∀ access, (site env settings ranges).index access loop =
            if access = .const 1 ∧ dim.extent? env.symbols ≠ some 1 then .int 0 settings.indexType
            else .var loop.var)
          kernel.output.shape.retained (settings.iterVars ranges) := by
  refine ⟨?_, ?_, ?_, ?_, ?_⟩
  · exact Shape.exists_ranges_iff.trans Shape.forall_addressable_iff
  · intro ranges h
    exact (Shape.ranges_eq_ok_iff.mp h).imp fun _ _ related => ⟨related.start_eq, related⟩
  · intro fault
    rw [Shape.ranges_eq_error_iff]
    constructor
    · intro first
      exact first.imp fun _ refused => ⟨refused, refused.code_eq⟩
    · intro first
      exact first.imp fun _ refused => refused.1
  · intro block h
    exact (compile_spans h).built fun _ _ related => related.measures
  · intro ranges h
    exact (measures_iterVars h).imp fun _ _ measures =>
      ⟨measures, Site.index_of_measures measures⟩

end Kernel

namespace Copy

/-- A shape whose extents are the least and the greatest 64-bit integer. -/
def widest : Shape := ⟨[.symbol "low", .elided, .const 9223372036854775807]⟩

def limits : Symbols := Symbols.empty.insert "low" (.int Int64.minValue .int64)

/-- One element for each non-negative 32-bit integer. -/
def oversized : Shape := ⟨[.const 2147483648]⟩

end Copy

/-- No extent overflows at either limit of 64 bits. -/
theorem Kernel.ranges_exact_limits : ∃ ranges block,
    Copy.widest.ranges Copy.limits .int64 = .ok ranges ∧
      (Copy.kernel Copy.widest).compile (Copy.env Copy.widest Copy.limits) {} = .ok block ∧
      ranges.map Range.extent? = [some Int64.minValue, some Int64.maxValue] ∧
      List.Forall₂ (fun dim range =>
        range.start = .int 0 .int64 ∧ dim.HasRange Copy.limits .int64 range)
        Copy.widest.retained ranges ∧
      block.Built (Range.Measures Copy.limits) Copy.widest [Copy.widest] ∧
      List.Forall₂ (fun dim loop => loop.range.Measures Copy.limits dim) Copy.widest.retained
        block.iterVars := by
  obtain ⟨_, starts, _, measured, looped⟩ := ranges_exact Copy.widest Copy.limits .int64
    (Copy.kernel Copy.widest) (Copy.env Copy.widest Copy.limits) {}
  refine ⟨_, _, rfl, rfl, rfl, starts _ rfl, measured _ rfl, ?_⟩
  exact (looped _ rfl).imp fun _ _ both => both.1

/-! ### Ends and their type -/

/-- The type can hold the integer. Only the two integer types hold any. -/
def ElementType.Holds (value : Int) : ElementType → Prop
  | .int32 => -2 ^ 31 ≤ value ∧ value < 2 ^ 31
  | .int64 => -2 ^ 63 ≤ value ∧ value < 2 ^ 63
  | .bool | .float32 | .float64 => False

/-- An integer immediate is a value of the type that it carries. -/
def Loop.Expr.Representable : Expr → Prop
  | .int value type => type.Holds value.toInt
  | _ => True

/-- If the dimension is a constant, both ends of its range are values of their types. -/
def Loop.Range.Representable (dim : Dim) (range : Range) : Prop :=
  ∀ extent, dim = .const extent → range.start.Representable ∧ range.stop.Representable

section

variable {symbols : Symbols} {index : ElementType}

theorem Dim.HasRange.representable_iff {dim : Dim} {range : Range}
    (h : dim.HasRange symbols index range) (zero : index.Holds 0) :
    range.Representable dim ↔ ∀ extent, dim = .const extent → index.Holds extent.toNat := by
  refine forall₂_congr fun extent constant => ?_
  subst constant
  obtain ⟨small, rfl⟩ := h
  have value : (Int64.ofNat extent.toNat).toInt = extent.toNat := Int64.toInt_ofNat_of_lt small
  simp [Range.upTo, Expr.Representable, value, zero]

/-- All extents that are accepted are 64-bit integers. -/
theorem Dim.HasRange.representable_int64 {dim : Dim} {range : Range}
    (h : dim.HasRange symbols .int64 range) : range.Representable dim := by
  rw [h.representable_iff ⟨by decide, by decide⟩]
  rintro extent rfl
  have small : extent.toNat < 2 ^ 63 := h.1
  constructor <;> omega

/-- The ends of the constant ranges of a block are values of the index type exactly if the constants
in its shapes are. -/
theorem Loop.Block.Spans.representable_iff {output : Shape} {accesses : List Shape} {block : Block}
    (h : block.Spans symbols index output accesses) (zero : index.Holds 0) :
    block.Built Range.Representable output accesses ↔
      ∀ shape ∈ output :: accesses, ∀ extent, .const extent ∈ shape.dims →
        index.Holds extent.toNat := by
  rw [h.built_iff fun _ _ related => related.representable_iff zero]
  refine forall₂_congr fun shape _ => ?_
  constructor
  · intro holds extent mem
    exact holds _ (List.mem_filter.mpr ⟨mem, rfl⟩) extent rfl
  · rintro holds _ mem extent rfl
    exact holds extent (List.mem_of_mem_filter mem)

end

/-- **The ends of constant ranges fit a 64-bit index, and not always a 32-bit one.** A block with
32-bit indices has ends that fit exactly if no constant reaches 2³¹ in the output's shape or in a
shape at which a buffer was read. -/
theorem Kernel.compile_bounds_fit_iff {kernel : Kernel} {env : Environment} {settings : Settings}
    {block : Block} (h : kernel.compile env settings = .ok block) :
    (settings.indexType = .int64 →
        block.Built Range.Representable kernel.output.shape (kernel.lower env settings).accesses) ∧
      (settings.indexType = .int32 →
        (block.Built Range.Representable kernel.output.shape
            (kernel.lower env settings).accesses ↔
          ∀ shape ∈ kernel.output.shape :: (kernel.lower env settings).accesses,
            ∀ extent, .const extent ∈ shape.dims → extent.toNat < 2 ^ 31)) := by
  have spans := compile_spans h
  constructor
  · intro wide
    rw [wide] at spans
    exact spans.built fun _ _ related => related.representable_int64
  · intro narrow
    rw [narrow] at spans
    rw [spans.representable_iff ⟨by decide, by decide⟩]
    have holds_iff (n : Nat) : ElementType.int32.Holds n ↔ n < 2 ^ 31 := by
      simp only [ElementType.Holds]
      omega
    simp only [holds_iff]

/-- The constants are the three columns of the total and the one of the column. -/
theorem Kernel.compile_bounds_fit_iff_addColumn : ∃ block,
    AddColumn.kernel.compile AddColumn.env ⟨"i", .int32, true⟩ = .ok block ∧
      block.iterVars.map IterVar.range = [.upTo (.var ⟨"n", .int64⟩) .int32,
        .upTo (.int 3 .int32) .int32] ∧
      block.Built Range.Representable AddColumn.total.shape
        [AddColumn.total.shape, AddColumn.column.shape] := by
  have compiled : AddColumn.kernel.compile AddColumn.env ⟨"i", .int32, true⟩ = .ok _ := rfl
  have fits := (compile_bounds_fit_iff compiled).2 rfl
  refine ⟨_, compiled, rfl, fits.mpr ?_⟩
  show ∀ shape ∈ [AddColumn.total.shape, AddColumn.total.shape, AddColumn.column.shape],
    ∀ extent, .const extent ∈ shape.dims → extent.toNat < 2 ^ 31
  simp [AddColumn.total, AddColumn.column, Buffer.shape]

/-- A 32-bit immediate that ends a loop need not be a 32-bit integer. -/
theorem Kernel.compile_oversized : ∃ block,
    (Copy.kernel Copy.oversized).compile (Copy.env Copy.oversized .empty)
        ⟨"__iter_", .int32, true⟩ = .ok block ∧
      block.iterVars = [⟨⟨"__iter_0", .int32⟩, .upTo (.int 2147483648 .int32) .int32⟩] ∧
      ∀ accesses, ¬ block.Built Range.Representable Copy.oversized accesses := by
  refine ⟨_, rfl, rfl, ?_⟩
  intro accesses built
  cases built.loops with
  | cons first _ =>
      have fits : (Int64.ofNat (2147483648 : UInt64).toNat).toInt < 2 ^ 31 := (first _ rfl).2.2
      exact absurd fits (by decide)

end ArrayKernel
