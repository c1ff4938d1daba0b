import ArrayKernel.Proofs.Changes
import ArrayKernel.Proofs.Execution

/-!
Symbols that become constants.

A symbol that is bound to an immediate can be written as a constant in the first place. Lowering
looks at shapes in many places, and a constant takes other branches there than a symbol: it can
equal another constant, and it can be one. None of this changes the block, except for the shapes of
the buffers in it.

* `Shape.Inert`: what lowering asks of shapes, so that a change of them goes unnoticed.
* `Kernel.Lowers.mapShape`: an inert change commutes with lowering.
* `Specialization.inert`: constants for symbols are such a change.
* `Kernel.compile_specialize`: so that specializing commutes with compiling.
-/

namespace ArrayKernel

open Loop (Expr Load Range IterVar Region Block)

/-! ### Inert changes -/

/-- A change of shapes that lowering does not notice under the loops over an output: ranks, ranges,
broadcasts and indices stay as they were. -/
structure Shape.Inert (f : Shape → Shape) (symbols : Symbols) (settings : Settings)
    (output : Shape) (loops : List Range) : Prop where
  scalar : f .scalar = .scalar
  rank_eq : ∀ s, (f s).rank = s.rank
  retained : ∀ {s t : Shape}, s.retained = t.retained → (f s).retained = (f t).retained
  broadcast : ∀ {s t u : Shape}, s.broadcast t = some u → (f s).broadcast (f t) = some (f u)
  ranges : ∀ {s : Shape} {ranges : List Range}, s.ranges symbols settings.indexType = .ok ranges →
    (f s).ranges symbols settings.indexType = .ok ranges
  indices : ∀ {s : Shape}, s.BroadcastsTo output → ∀ env : Environment,
    (Kernel.site env settings loops).indices (f s) = (Kernel.site env settings loops).indices s

section Inert

variable {f : Shape → Shape} {scope : Scope} {symbols : Symbols} {ops : List ArrayOp}
  {settings : Settings} {output : Shape} {loops : List Range}

/-- A read at a changed shape has the same indices and the same ranges. -/
theorem Site.Materializes.mapShape (inert : Shape.Inert f symbols settings output loops)
    {lowered : Lowered} {value : Expr} {reads : List Region}
    (below : lowered.shape.BroadcastsTo output)
    (h : (Kernel.site ⟨scope, symbols, .elementwise ops⟩ settings loops).Materializes
      lowered.shape lowered value reads) :
    (Kernel.site ⟨scope.mapShape f, symbols, .elementwise ops⟩ settings loops).Materializes
      (lowered.change f (Load.mapShape f)).shape (lowered.change f (Load.mapShape f))
      (value.mapLoads (Load.mapShape f)) (reads.map (Region.mapShape f)) := by
  cases h with
  | buffer reads =>
      rename_i source region
      have below : source.shape.BroadcastsTo output := below
      have rank : (source.mapShape f).rank = source.rank := inert.rank_eq source.shape
      have possible : (Kernel.site ⟨scope.mapShape f, symbols, .elementwise ops⟩ settings
          loops).ReadsAt (source.mapShape f) (f source.shape) (region.mapShape f) := by
        refine ⟨?_, rfl, congrArg (Buffer.mapShape f) reads.buffer_eq, inert.ranges reads.ranges_eq⟩
        rw [rank]
        exact reads.rank_le
      -- The indices of the changed shape are the ones that the value already has.
      have read := Site.Materializes.buffer possible
      rw [inert.indices below] at read
      exact read
  | array => exact .array
  | scalar => exact .scalar

/-- **An inert change commutes with the lowering of expressions** whose shapes fit the loops. -/
theorem Site.Lowers.mapShape (inert : Shape.Inert f symbols settings output loops)
    {e : Source.Expr} {lowered : Lowered} {reads : List Region}
    (h : (Kernel.site ⟨scope, symbols, .elementwise ops⟩ settings loops).Lowers e lowered reads)
    (below : lowered.shape.BroadcastsTo output) :
    (Kernel.site ⟨scope.mapShape f, symbols, .elementwise ops⟩ settings loops).Lowers e
      (lowered.change f (Load.mapShape f)) (reads.map (Region.mapShape f)) := by
  induction h with
  | name found =>
      rename_i id entry
      have found : scope.find? id = some entry := found
      rw [Lowered.change_ofEntry]
      refine .name ?_
      show (scope.mapShape f).find? id = some (entry.mapShape f)
      rw [Scope.find?_mapShape, found]
      rfl
  | literal =>
      rw [Lowered.change_ofLiteral]
      exact .literal
  | elementwise hl hr hinst hlv hrv ihl ihr =>
      rename_i op lhs rhs l r lv rv ls rs ls' rs' inst
      obtain ⟨known, element, u, ltype, rtype, hu, rfl⟩ :=
        OperatorTable.resolve_elementwise_eq_ok_iff.mp hinst
      -- The operands fit the loops because the result does.
      obtain ⟨lbelow, rbelow⟩ := Shape.broadcastsTo_of_broadcast hu
      have lbelow : l.shape.BroadcastsTo output := lbelow.trans below
      have rbelow : r.shape.BroadcastsTo output := rbelow.trans below
      have answer : (l.change f (Load.mapShape f)).shape.broadcast
          (r.change f (Load.mapShape f)).shape = some (f u) := by
        rw [Lowered.shape_change inert.scalar, Lowered.shape_change inert.scalar]
        exact inert.broadcast hu
      have resolved := OperatorTable.resolve_elementwise_eq_ok_iff.mpr
        ⟨known, element, f u, (Lowered.valueType_change l).trans ltype,
          (Lowered.valueType_change r).trans rtype, answer, rfl⟩
      have lowered := Site.Lowers.elementwise (ihl lbelow) (ihr rbelow) resolved
        (hlv.mapShape inert lbelow) (hrv.mapShape inert rbelow)
      simpa [Lowered.change, ArrayType.mapShape] using lowered
  | unary _ hv ih =>
      rw [Lowered.shape_unary] at below
      rw [Lowered.change_unary, List.map_append]
      exact .unary (ih below) (hv.mapShape inert below)

/-- **An inert change commutes with the lowering of kernels.** -/
theorem Kernel.Lowers.mapShape {kernel : Kernel} {block : Block}
    (inert : ∀ {loops}, kernel.output.shape.ranges symbols settings.indexType = .ok loops →
      Shape.Inert f symbols settings kernel.output.shape loops)
    (h : kernel.Lowers ⟨scope, symbols, .elementwise ops⟩ settings block) :
    (kernel.mapShape f).Lowers ⟨scope.mapShape f, symbols, .elementwise ops⟩ settings
      (block.mapShape f) := by
  obtain @⟨e, ranges, lowered, value, reads, reads', hbody, hdeclared, hranges, hlowered, same,
    copies, hvalue⟩ := h
  have inert := inert hranges
  have below : lowered.shape.BroadcastsTo kernel.output.shape := .of_retained_eq same
  have declared : f kernel.output.shape = f kernel.declared := congrArg f hdeclared
  have result : (lowered.change f (Load.mapShape f)).shape.retained =
      (f kernel.output.shape).retained := by
    rw [Lowered.shape_change inert.scalar]
    exact inert.retained same
  have copied : ∀ source, lowered.change f (Load.mapShape f) = .buffer source →
      settings.copies = true := by
    intro source bare
    cases lowered with
    | buffer source => exact copies source rfl
    | array value type => cases bare
    | scalar value type => cases bare
  rw [Loop.Block.mapShape, List.map_append]
  exact .intro hbody declared (inert.ranges hranges) (hlowered.mapShape inert below) result copied
    (hvalue.mapShape inert below)

end Inert

/-! ### Specializations -/

/-- Values for some of the symbols. They are extents, so that none of them is negative. -/
structure Specialization where
  value? : String → Option Int64
  nonneg : ∀ {name : String} {value : Int64}, value? name = some value → 0 ≤ value

namespace Specialization

/-- A value for one symbol. -/
def only (symbol : String) (value : Int64) (nonneg : 0 ≤ value) : Specialization where
  value? name := if name = symbol then some value else none
  nonneg := by
    intro name other h
    split_ifs at h
    cases h
    exact nonneg

/-- Writes a symbol that has a value as a constant. -/
def dim (σ : Specialization) : Dim → Dim
  | .const extent => .const extent
  | .symbol name =>
      match σ.value? name with
      | some value => .const value.toUInt64
      | none => .symbol name
  | .elided => .elided

def shape (σ : Specialization) (shape : Shape) : Shape :=
  ⟨shape.dims.map σ.dim⟩

/-- Each symbol that has a value is bound to it, as an immediate of the given type. -/
def BoundIn (σ : Specialization) (symbols : Symbols) (index : ElementType) : Prop :=
  ∀ name value, σ.value? name = some value → symbols.find? name = some (.int value index)

variable {σ : Specialization} {symbols : Symbols} {index : ElementType}

@[simp] theorem dim_const (extent : UInt64) : σ.dim (.const extent) = .const extent := rfl

theorem dim_symbol_of_some {name : String} {value : Int64} (h : σ.value? name = some value) :
    σ.dim (.symbol name) = .const value.toUInt64 := by
  simp [dim, h]

theorem dim_symbol_of_none {name : String} (h : σ.value? name = none) :
    σ.dim (.symbol name) = .symbol name := by
  simp [dim, h]

@[simp] theorem isElided_dim (d : Dim) : (σ.dim d).isElided = d.isElided := by
  cases d with
  | const extent => rfl
  | symbol name =>
      cases hvalue : σ.value? name with
      | none => rw [dim_symbol_of_none hvalue]
      | some value =>
          rw [dim_symbol_of_some hvalue]
          rfl
  | elided => rfl

theorem retained_shape (s : Shape) : (σ.shape s).retained = s.retained.map σ.dim := by
  simp [Shape.retained, shape, List.filter_map, Function.comp_def]

theorem toNat_lt {name : String} {value : Int64} (h : σ.value? name = some value) :
    value.toUInt64.toNat < 2 ^ 63 := by
  have nonneg : 0 ≤ value.toBitVec.toInt := Int64.le_iff_toInt_le.mp (σ.nonneg h)
  have small := BitVec.toInt_pos_iff.mp nonneg
  have same : value.toUInt64.toNat = value.toBitVec.toNat := rfl
  omega

/-- A constant in place of a symbol has the range of the symbol. -/
theorem hasRange_dim (bound : σ.BoundIn symbols index) {d : Dim} {range : Range}
    (h : d.HasRange symbols index range) : (σ.dim d).HasRange symbols index range := by
  cases d with
  | const extent => exact h
  | symbol name =>
      cases hvalue : σ.value? name with
      | none => rwa [dim_symbol_of_none hvalue]
      | some value =>
          rw [dim_symbol_of_some hvalue]
          obtain ⟨stop, hstop, rfl⟩ := h
          rw [bound name value hvalue] at hstop
          cases hstop
          have back : Int64.ofNat value.toUInt64.toNat = value := by
            apply Int64.toBitVec_inj.mp
            simp
          refine ⟨toNat_lt hvalue, ?_⟩
          rw [back]
  | elided => exact h

theorem ranges_shape (bound : σ.BoundIn symbols index) {s : Shape} {ranges : List Range}
    (h : s.ranges symbols index = .ok ranges) : (σ.shape s).ranges symbols index = .ok ranges := by
  rw [Shape.ranges_eq_ok_iff] at h ⊢
  rw [retained_shape, List.forall₂_map_left_iff]
  exact h.imp fun _ _ => hasRange_dim bound

/-- Dimensions that broadcast still do so after they have become constants: a pair that was equal is
equal, and an extent of one still takes the other's place. -/
theorem broadcast_dim {l r d : Dim} (h : l.broadcast r = some d) :
    (σ.dim l).broadcast (σ.dim r) = some (σ.dim d) := by
  unfold Dim.broadcast at h
  split_ifs at h with same unit unit' <;> cases h
  · simp [Dim.broadcast, same]
  · rw [unit]
    exact Dim.broadcast_unit_left _
  · rw [unit']
    exact Dim.broadcast_unit_right _

theorem broadcastAll_dim {ls rs dims : List Dim} (h : Dim.broadcastAll ls rs = some dims) :
    Dim.broadcastAll (ls.map σ.dim) (rs.map σ.dim) = some (dims.map σ.dim) := by
  fun_induction Dim.broadcastAll ls rs generalizing dims with
  | case1 rs =>
      cases h
      rfl
  | case2 ls =>
      cases h
      cases ls <;> rfl
  | case3 l ls r rs ih =>
      obtain ⟨d, hd, h⟩ := Option.bind_eq_some_iff.mp h
      obtain ⟨others, hothers, h⟩ := Option.bind_eq_some_iff.mp h
      cases h
      simp [Dim.broadcastAll, broadcast_dim hd, ih hothers]

theorem broadcast_shape {s t u : Shape} (h : s.broadcast t = some u) :
    (σ.shape s).broadcast (σ.shape t) = some (σ.shape u) := by
  obtain ⟨dims, hdims, rfl⟩ := Option.map_eq_some_iff.mp h
  rw [Shape.broadcast, retained_shape, retained_shape, ← List.map_reverse, ← List.map_reverse,
    broadcastAll_dim hdims]
  simp [shape]

/-- **A dimension that becomes one is still indexed by its loop.** It fits a loop over itself, which
is then known to have one iteration only. -/
theorem index_dim {site : Site} (bound : σ.BoundIn symbols index) {d target : Dim} {loop : IterVar}
    (fits : d.Fits target) (hrange : target.HasRange symbols index loop.range) :
    site.index (σ.dim d) loop = site.index d loop := by
  rcases fits with rfl | rfl
  · rfl
  · cases d with
    | const extent => rfl
    | symbol name =>
        cases hvalue : σ.value? name with
        | none => rw [dim_symbol_of_none hvalue]
        | some value =>
            rw [dim_symbol_of_some hvalue]
            obtain ⟨stop, hstop, hloop⟩ := hrange
            rw [bound name value hvalue] at hstop
            cases hstop
            -- The loop over the symbol runs up to the same value as the constant.
            have single : value.toUInt64 = 1 → loop.range.extent? = some 1 := by
              intro unit
              have one : value = 1 := by
                rw [← Int64.toInt64_toUInt64 value, unit]
                rfl
              rw [hloop, one]
              rfl
            simp only [Site.index, Dim.const.injEq, reduceCtorEq, false_and, if_false]
            rw [if_neg]
            rintro ⟨unit, more⟩
            exact more (single unit)
    | elided => rfl

theorem zipWith_index_dim {site : Site} (bound : σ.BoundIn symbols index) {dims targets : List Dim}
    {loops : List IterVar} (fits : List.Forall₂ Dim.Fits dims targets)
    (hranges : List.Forall₂ (fun target loop => target.HasRange symbols index loop.range)
      targets loops) :
    List.zipWith site.index (dims.map σ.dim) loops = List.zipWith site.index dims loops := by
  induction fits generalizing loops with
  | nil => rfl
  | cons head _ ih =>
      cases hranges with
      | cons hrange hranges =>
          rw [List.map_cons, List.zipWith_cons_cons, List.zipWith_cons_cons,
            index_dim bound head hrange, ih hranges]

/-- **Constants for symbols are an inert change** under loops over any output. -/
theorem inert {settings : Settings} {output : Shape} {loops : List Range}
    (bound : σ.BoundIn symbols settings.indexType)
    (hloops : output.ranges symbols settings.indexType = .ok loops) :
    Shape.Inert σ.shape symbols settings output loops where
  scalar := rfl
  rank_eq s := by simp [Shape.rank, retained_shape]
  retained same := by rw [retained_shape, retained_shape, same]
  broadcast := broadcast_shape
  ranges := ranges_shape bound
  indices := by
    intro s below env
    have looped := Kernel.innermost_hasRange env hloops s.rank
    have rank : (σ.shape s).rank = s.rank := by simp [Shape.rank, retained_shape]
    rw [Site.indices, Site.indices, rank, retained_shape]
    exact zipWith_index_dim bound below.2 looped

end Specialization

namespace Kernel

/-- **Specializing symbols commutes with compiling.** If a kernel is compiled and some symbols are
bound to immediates then the kernel with constants in their place is compiled as well, to the same
block with these constants in the shapes of its buffers. -/
theorem compile_specialize {kernel : Kernel} {scope : Scope} {symbols : Symbols}
    {ops : List ArrayOp} {settings : Settings} {block : Block} (σ : Specialization)
    (bound : σ.BoundIn symbols settings.indexType)
    (h : kernel.compile ⟨scope, symbols, .elementwise ops⟩ settings = .ok block) :
    (kernel.mapShape σ.shape).compile ⟨scope.mapShape σ.shape, symbols, .elementwise ops⟩ settings =
      .ok (block.mapShape σ.shape) := by
  have derived := compile_eq_ok_iff.mp h
  exact compile_eq_ok_iff.mpr (derived.mapShape (σ.inert bound))

/-- In a total of one row, the row of a column is a constant extent of one like its only position.
The former is still read at the counter of the rows, the latter at zero. -/
theorem compile_specialize_addColumn :
    ∃ block, (AddColumn.kernel.mapShape (Specialization.only "n" 1 (by decide)).shape).compile
        ⟨AddColumn.scope.mapShape (Specialization.only "n" 1 (by decide)).shape,
          Symbols.empty.insert "n" (.int 1 .int64), .elementwise [.arith .add]⟩ {} = .ok block ∧
      block.body.value = .arith .add
        (.load ⟨"total", ⟨⟨[.const 1, .const 3]⟩, .int64⟩⟩
          [.var AddColumn.row, .var AddColumn.position])
        (.load ⟨"column", ⟨⟨[.const 1, .const 1]⟩, .int64⟩⟩
          [.var AddColumn.row, .int 0 .int64]) := by
  have compiled : AddColumn.kernel.compile ⟨AddColumn.scope,
      Symbols.empty.insert "n" (.int 1 .int64), .elementwise [.arith .add]⟩ {} = .ok _ := rfl
  have bound : (Specialization.only "n" 1 (by decide)).BoundIn
      (Symbols.empty.insert "n" (.int 1 .int64)) .int64 := by
    intro name value h
    simp only [Specialization.only] at h
    split_ifs at h with same
    cases h
    rw [same, Symbols.find?_insert_self]
  exact ⟨_, compile_specialize _ bound compiled, rfl⟩

end Kernel

end ArrayKernel
