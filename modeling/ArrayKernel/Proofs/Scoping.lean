import ArrayKernel.Proofs.Footprint

/-!
What can occur in a block.

An operator table may answer anything: results of any type, and access shapes that have nothing to
do with the operands. So what is known of every block comes from the checks of lowering alone.

* `Site.Recorded.wellIndexed`, `Site.Recorded.wellRanked`: a read has an index for each dimension of
  its buffer, which is the counter of the loop aligned with the dimension or zero, and its region
  has as many ranges, all from zero.
* `Site.Lowers.apart`: scalars do not get into the value of an array.
* `Kernel.compile_well_scoped`: all of this for a compiled block.
-/

namespace ArrayKernel

open Loop (Expr Load IterVar Region Block)

/-! ### Indices and ranges -/

namespace Loop

/-- Under the given loops, a read has one index for each retained dimension of its buffer: the
counter of the loop that the dimension is aligned with, or zero. -/
structure Load.WellIndexed (load : Load) (loops : List IterVar) (index : ElementType) : Prop where
  rank_le : load.buffer.rank ≤ loops.length
  length_eq : load.indices.length = load.buffer.rank
  counted : ∀ k < load.buffer.rank, ∃ loop,
    loops[loops.length - load.buffer.rank + k]? = some loop ∧
      (load.indices[k]? = some (.var loop.var) ∨ load.indices[k]? = some (.int 0 index))

/-- A region has one range for each retained dimension of its buffer, and each starts at zero. -/
structure Region.WellRanked (region : Region) (index : ElementType) : Prop where
  length_eq : region.ranges.length = region.buffer.rank
  start_eq : ∀ range ∈ region.ranges, range.start = .int 0 index

end Loop

namespace Site

variable {site : Site} {access : Shape}

/-- The loops of an array are the innermost ones, so that the first of them stands at the difference
of the ranks. -/
theorem getElem?_indices (h : access.rank ≤ site.iterVars.length) {k : Nat} (hk : k < access.rank) :
    ∃ loop, site.iterVars[site.iterVars.length - access.rank + k]? = some loop ∧
      ((site.indices access)[k]? = some (.var loop.var) ∨
        (site.indices access)[k]? = some (.int 0 site.indexType)) := by
  have inside : site.iterVars.length - access.rank + k < site.iterVars.length := by omega
  have aligned : k < access.retained.length := hk
  refine ⟨_, List.getElem?_eq_getElem inside, ?_⟩
  have kth : (site.indices access)[k]? = some (site.index access.retained[k]
      site.iterVars[site.iterVars.length - access.rank + k]) := by
    rw [indices, innermost, List.getElem?_zipWith, List.getElem?_drop,
      List.getElem?_eq_getElem aligned, List.getElem?_eq_getElem inside]
  rw [kth]
  rcases site.index_eq access.retained[k] site.iterVars[site.iterVars.length - access.rank + k] with
    counter | zero
  · exact .inl (congrArg some counter)
  · exact .inr (congrArg some zero)

variable {R : Buffer → Shape → Prop} {load : Load} {region : Region}

theorem Recorded.wellIndexed (h : site.Recorded R load region) :
    load.WellIndexed site.iterVars site.indexType := by
  obtain ⟨access, indices, reads, _⟩ := h
  have rank_le : access.rank ≤ site.iterVars.length := by
    rw [reads.rank_eq]
    exact reads.rank_le
  refine ⟨reads.rank_le, ?_, ?_⟩
  · rw [indices, length_indices rank_le, reads.rank_eq]
  · intro k hk
    rw [← reads.rank_eq] at hk ⊢
    rw [indices]
    exact getElem?_indices rank_le hk

theorem Recorded.wellRanked (h : site.Recorded R load region) :
    region.WellRanked site.indexType := by
  obtain ⟨access, _, reads, _⟩ := h
  constructor
  · rw [Shape.length_of_ranges_eq_ok reads.ranges_eq, reads.rank_eq, reads.buffer_eq]
  · intro range mem
    have looped := Shape.ranges_eq_ok_iff.mp reads.ranges_eq
    obtain ⟨dim, _, hrange⟩ := exists_of_forall₂ looped.flip mem
    have hrange : dim.HasRange site.env.symbols site.indexType range := hrange
    exact hrange.start_eq

end Site

/-! ### Scalars -/

namespace Loop.Expr

/-- The immediates and variables of an expression, those in the indices of reads left out. -/
def scalars : Expr → List Expr
  | .int value type => [.int value type]
  | .float value type => [.float value type]
  | .bool value => [.bool value]
  | .var v => [.var v]
  | .load .. => []
  | .arith _ lhs rhs => lhs.scalars ++ rhs.scalars
  | .compare _ lhs rhs => lhs.scalars ++ rhs.scalars
  | .unary _ operand => operand.scalars

/-- Unary operators, or none, over a constant or a scalar in scope. -/
inductive IsScalarChain (scope : Scope) : Expr → Prop where
  | int {value : Int64} : IsScalarChain scope (.int value .int64)
  | float {value : Binary64} : IsScalarChain scope (.float value .float64)
  | bool {value : Bool} : IsScalarChain scope (.bool value)
  | var {name : String} {type : ElementType} : scope.find? name = some (.scalar name type) →
      IsScalarChain scope (.var ⟨name, type⟩)
  | unary {op : UnaryOp} {operand : Expr} : IsScalarChain scope operand →
      IsScalarChain scope (.unary op operand)

theorem scalars_elementwise (op : ArrayOp) (lhs rhs : Expr) :
    (elementwise op lhs rhs).scalars = lhs.scalars ++ rhs.scalars := by
  cases op <;> rfl

end Loop.Expr

/-- Are arrays and scalars kept apart in something lowered? There is no scalar in the value of an
array, and nothing but one in that of a scalar. -/
def Lowered.Apart (scope : Scope) : Lowered → Prop
  | .buffer _ => True
  | .array value _ => value.scalars = []
  | .scalar value _ => value.IsScalarChain scope

namespace Site

variable {site : Site} {e : Source.Expr} {lowered : Lowered} {access : Shape} {value : Expr}
  {reads : List Region}

/-- The element of an array has no scalar in it, be it computed or read. -/
theorem Materializes.scalars_eq_nil (h : site.Materializes access lowered value reads)
    (apart : lowered.Apart site.env.scope) {type : ArrayType}
    (array : lowered.operand.arrayType? = some type) : value.scalars = [] := by
  cases h with
  | buffer _ => rfl
  | array => exact apart
  | scalar => cases array

theorem Materializes.apart_unary (op : UnaryOp) (h : site.Materializes access lowered value reads)
    (apart : lowered.Apart site.env.scope) : (lowered.unary op value).Apart site.env.scope := by
  cases h with
  | buffer _ => exact rfl
  | array => exact apart
  | scalar => exact .unary apart

/-- **Scalars do not get into arrays**, whatever the operator table: only operands that are arrays
are looked up in it. -/
theorem Lowers.apart (h : site.Lowers e lowered reads) : lowered.Apart site.env.scope := by
  induction h with
  | name found =>
      rename_i id entry
      cases entry with
      | array source => trivial
      | scalar name type =>
          -- A scope finds a scalar under the scalar's own name only.
          have named : name = id := Scope.name_eq_of_find? found
          subst named
          exact .var found
  | literal =>
      rename_i value
      cases value with
      | int value => exact .int
      | float value => exact .float
      | bool value => exact .bool
  | elementwise _ _ hinst hlv hrv ihl ihr =>
      obtain ⟨lt, rt, hlt, hrt, _⟩ := OperatorTable.resolve_eq_ok_iff.mp hinst
      rw [Lowered.Apart, Loop.Expr.scalars_elementwise, hlv.scalars_eq_nil ihl hlt,
        hrv.scalars_eq_nil ihr hrt]
      rfl
  | unary _ hv ih => exact hv.apart_unary _ ih

end Site

/-! ### Compiled blocks -/

namespace Kernel

variable {kernel : Kernel} {env : Environment} {settings : Settings} {block : Block}

theorem Lowers.wellIndexed (h : kernel.Lowers env settings block) {load : Load}
    (occurs : load.OccursIn block.body.value) :
    load.WellIndexed block.iterVars settings.indexType := by
  have mem := (h.occursIn_iff load).mp occurs
  obtain ⟨ranges, _, _, hloops, _, recorded⟩ := h.recorded env.operators.keeps_true
  obtain ⟨region, _, hrecorded⟩ := exists_of_forall₂ recorded mem
  rw [hloops]
  exact hrecorded.wellIndexed

theorem Lowers.wellRanked (h : kernel.Lowers env settings block) {region : Region}
    (mem : region ∈ block.reads) : region.WellRanked settings.indexType := by
  obtain ⟨ranges, _, _, _, _, recorded⟩ := h.recorded env.operators.keeps_true
  obtain ⟨load, _, hrecorded⟩ := exists_of_forall₂ recorded.flip mem
  have hrecorded : (site env settings ranges).Recorded (fun _ _ => True) load region := hrecorded
  exact hrecorded.wellRanked

/-- The stored value has no scalar in it, or it is one and so is the output. -/
theorem Lowers.scalars_eq_nil_or (h : kernel.Lowers env settings block) :
    block.body.value.scalars = [] ∨
      kernel.output.rank = 0 ∧ block.body.value.IsScalarChain env.scope := by
  obtain @⟨e, ranges, lowered, value, reads, reads', _, _, _, hlowered, same, _, hvalue⟩ := h
  have apart := hlowered.apart
  cases hvalue with
  | buffer _ => exact .inl rfl
  | array => exact .inl apart
  | scalar =>
      have rank : kernel.output.shape.retained.length = 0 := by
        rw [← same]
        rfl
      exact .inr ⟨rank, apart⟩

/-- **Blocks are well scoped and well ranked** under any operator table. Every read has an index for
each dimension of its buffer, which is the counter of the loop aligned with it or zero; every region
that is read has as many ranges, all from zero. There is no scalar in the stored value, except that
an output of rank zero may store a chain of unary operators over a single one. -/
theorem compile_well_scoped (h : kernel.compile env settings = .ok block) :
    (∀ load : Load, load.OccursIn block.body.value →
        load.WellIndexed block.iterVars settings.indexType) ∧
      (∀ region ∈ block.reads, region.WellRanked settings.indexType) ∧
      (kernel.output.rank ≠ 0 → block.body.value.scalars = []) ∧
      (kernel.output.rank = 0 →
        block.body.value.IsScalarChain env.scope ∨ block.body.value.scalars = []) := by
  have derived := compile_eq_ok_iff.mp h
  refine ⟨fun _ => derived.wellIndexed, fun _ => derived.wellRanked, ?_, ?_⟩
  · intro positive
    rcases derived.scalars_eq_nil_or with none | ⟨rank, _⟩
    · exact none
    · exact absurd rank positive
  · intro _
    rcases derived.scalars_eq_nil_or with none | ⟨_, chain⟩
    · exact .inr none
    · exact .inl chain

/-- A table may have a total of any rows and three columns read as one row of seven. The read still
has two indices, the first of them zero, and the block says that it reads one row of seven. -/
theorem compile_well_scoped_addColumn :
    ∃ block, AddColumn.kernel.compile ⟨AddColumn.scope, AddColumn.symbols,
        .ofRules [⟨none, none, none, ⟨AddColumn.total.shape, .bool⟩,
          some ⟨[.const 1, .const 7]⟩, none⟩]⟩ {} = .ok block ∧
      Load.WellIndexed ⟨AddColumn.total, [.int 0 .int64, .var AddColumn.position]⟩ block.iterVars
        .int64 ∧
      Region.WellRanked ⟨AddColumn.total, [AddColumn.columns 1, AddColumn.columns 7]⟩ .int64 ∧
      AddColumn.total.rank ≠ 0 ∧ block.body.value.scalars = [] := by
  have compiled : AddColumn.kernel.compile ⟨AddColumn.scope, AddColumn.symbols,
      .ofRules [⟨none, none, none, ⟨AddColumn.total.shape, .bool⟩,
        some ⟨[.const 1, .const 7]⟩, none⟩]⟩ {} = .ok _ := rfl
  obtain ⟨indexed, ranked, scalars, _⟩ := compile_well_scoped compiled
  have positive : AddColumn.total.rank ≠ 0 := by decide
  exact ⟨_, compiled, indexed _ (.arithLeft .whole), ranked _ List.mem_cons_self, positive,
    scalars positive⟩

end Kernel

end ArrayKernel
