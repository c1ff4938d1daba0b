import ArrayKernel.Proofs.Acceptance
import ArrayKernel.Proofs.Lockstep

/-!
Elided dimensions.

Some parts of lowering look at all dimensions of a shape, like the comparison with the declared
shape and the walk that builds ranges, and others at the retained ones only, like ranks, broadcasts
and the alignment of indices with loops. Deleting the elided dimensions everywhere tells whether the
two agree: nothing may change but the shapes themselves. Everywhere includes the expressions that
symbols are bound to. They can read buffers, and they end up as the ends of ranges.

* `Shape.erase`: a shape without its elided dimensions.
* `Loop.Expr.erase`, `Symbols.erase`, `Loop.Block.erase`: the same for every shape in an expression,
  a symbol table and a block, ends of ranges included.
* `Shape.ranges_erase`: ranges, and the first dimension that has none, do not depend on them.
* `Kernel.lower_erase`: a kernel and its erased form are lowered in step.
* `Kernel.compile_erase`: if the one is compiled then so is the other, to the erased block, and if
  the one is refused then so is the other, for a reason of the same code.
-/

namespace ArrayKernel

open Loop (Expr Load Range IterVar Region Store Block)

/-! ### Erasing -/

/-- The shape without its elided dimensions. -/
def Shape.erase (shape : Shape) : Shape :=
  ⟨shape.retained⟩

theorem Shape.faithful_erase : Shape.Faithful Shape.erase where
  scalar := rfl
  retained_eq := Shape.retained_retained

namespace Loop

mutual

/-- The expression without the elided dimensions of the buffers in it, at any depth. -/
def Expr.erase : Expr → Expr
  | .int value type => .int value type
  | .float value type => .float value type
  | .bool value => .bool value
  | .var v => .var v
  | .load buffer indices => .load (buffer.mapShape .erase) (Expr.eraseList indices)
  | .arith op lhs rhs => .arith op lhs.erase rhs.erase
  | .compare op lhs rhs => .compare op lhs.erase rhs.erase
  | .unary op operand => .unary op operand.erase

/-- The expressions of a list without elided dimensions. -/
def Expr.eraseList : List Expr → List Expr
  | [] => []
  | e :: es => e.erase :: Expr.eraseList es

end

def Load.erase (load : Load) : Load :=
  ⟨load.buffer.mapShape .erase, load.indices.map Expr.erase⟩

def Range.erase (range : Range) : Range :=
  ⟨range.start.erase, range.stop.erase⟩

def IterVar.erase (loop : IterVar) : IterVar :=
  ⟨loop.var, loop.range.erase⟩

def Region.erase (region : Region) : Region :=
  ⟨region.buffer.mapShape .erase, region.ranges.map Range.erase⟩

def Store.erase (store : Store) : Store :=
  ⟨store.buffer.mapShape .erase, store.indices.map Expr.erase, store.value.erase⟩

/-- The block without the elided dimensions of any shape in it: in its reads and writes, in its
value, and in the ends of its ranges. -/
def Block.erase (block : Block) : Block :=
  ⟨block.iterVars.map IterVar.erase, block.reads.map Region.erase, block.writes.map Region.erase,
    block.name, block.body.erase⟩

theorem Expr.eraseList_eq_map (es : List Expr) : eraseList es = es.map erase := by
  induction es with
  | nil => rfl
  | cons e es ih => rw [eraseList, ih, List.map_cons]

/-- Only reads have shapes in them. -/
theorem Expr.mapLoads_erase : ∀ e : Expr, e.mapLoads Load.erase = e.erase
  | .load buffer indices => by simp [mapLoads, erase, Load.erase, eraseList_eq_map]
  | .int .. | .float .. | .bool _ | .var _ => by simp [mapLoads, erase]
  | .arith op lhs rhs => by rw [mapLoads, erase, mapLoads_erase lhs, mapLoads_erase rhs]
  | .compare op lhs rhs => by rw [mapLoads, erase, mapLoads_erase lhs, mapLoads_erase rhs]
  | .unary op operand => by rw [mapLoads, erase, mapLoads_erase operand]

@[simp] theorem Expr.asInt?_erase (e : Expr) : e.erase.asInt? = e.asInt? := by
  cases e <;> simp [erase, asInt?]

/-- The extent of a range is known before erasing exactly if it is known afterwards. -/
@[simp] theorem Range.extent?_erase (range : Range) : range.erase.extent? = range.extent? := by
  simp [erase, extent?]

@[simp] theorem Range.erase_upTo (stop : Expr) (index : ElementType) :
    (Range.upTo stop index).erase = .upTo stop.erase index := by
  simp [upTo, erase, Expr.erase]

end Loop

namespace Symbols

/-- The symbols bound to expressions without elided dimensions. -/
def erase (symbols : Symbols) : Symbols :=
  ⟨symbols.bindings.map fun binding => (binding.1, binding.2.erase)⟩

theorem find?_erase (symbols : Symbols) (name : String) :
    symbols.erase.find? name = (symbols.find? name).map Expr.erase := by
  obtain ⟨bindings⟩ := symbols
  induction bindings with
  | nil => rfl
  | cons binding bindings ih =>
      obtain ⟨other, value⟩ := binding
      simp only [erase, find?, List.map_cons, List.lookup_cons] at ih ⊢
      cases name == other with
      | true => rfl
      | false => exact ih

end Symbols

theorem Settings.iterVars_erase (settings : Settings) (ranges : List Range) :
    settings.iterVars (ranges.map Range.erase) =
      (settings.iterVars ranges).map IterVar.erase := by
  refine List.ext_getElem (by simp [iterVars]) fun k _ _ => ?_
  simp [iterVars, IterVar.erase]

/-! ### Ranges -/

namespace Dim

variable {symbols : Symbols} {index : ElementType}

/-- The walk over the dimensions passes elided ones by. -/
theorem ranges_filter (shape : Shape) (dims : List Dim) :
    Dim.ranges shape symbols index (dims.filter fun dim => !dim.isElided) =
      Dim.ranges shape symbols index dims := by
  induction dims with
  | nil => rfl
  | cons dim dims ih =>
      cases dim with
      | const extent =>
          show Dim.ranges shape symbols index (.const extent :: dims.filter _) = _
          rw [Dim.ranges, Dim.ranges, ih]
      | symbol name =>
          show Dim.ranges shape symbols index (.symbol name :: dims.filter _) = _
          rw [Dim.ranges, Dim.ranges, ih]
      | elided => exact ih

/-- The shape that the dimensions belong to is for messages only, and a symbol is bound in both
tables or in neither. -/
theorem ranges_erase (shape : Shape) (dims : List Dim) :
    SameOutcome .erase (fun ranges ranges' => ranges' = ranges.map Range.erase)
      (Dim.ranges shape symbols index dims) (Dim.ranges shape.erase symbols.erase index dims) := by
  induction dims with
  | nil => exact .ok rfl
  | cons dim dims ih =>
      have step (stop : Expr) :
          SameOutcome .erase (fun ranges ranges' => ranges' = ranges.map Range.erase)
            (do let others ← Dim.ranges shape symbols index dims
                .ok (.upTo stop index :: others) : Except Fault (List Range))
            (do let others ← Dim.ranges shape.erase symbols.erase index dims
                .ok (.upTo stop.erase index :: others)) := by
        generalize Dim.ranges shape symbols index dims = x,
          Dim.ranges shape.erase symbols.erase index dims = y at ih
        cases ih with
        | ok same => exact .ok (by rw [same, List.map_cons, Range.erase_upTo])
        | error fault => exact .error fault
      cases dim with
      | const extent =>
          simp only [Dim.ranges]
          split_ifs
          · have immediate := step (.int (Int64.ofNat extent.toNat) index)
            rwa [Expr.erase] at immediate
          · exact .error (.unaddressable extent shape)
      | symbol name =>
          simp only [Dim.ranges, Symbols.find?_erase]
          cases symbols.find? name with
          | none => exact .error (.unboundSymbol name shape)
          | some stop => exact step stop
      | elided => exact ih

end Dim

namespace Shape

variable {shape : Shape} {symbols : Symbols} {index : ElementType}

/-- **Ranges do not depend on elided dimensions**, and neither does the dimension for which there
are none. -/
theorem ranges_erase (shape : Shape) (symbols : Symbols) (index : ElementType) :
    SameOutcome .erase (fun ranges ranges' => ranges' = ranges.map Range.erase)
      (shape.ranges symbols index) (shape.erase.ranges symbols.erase index) := by
  have retained : shape.erase.ranges symbols.erase index =
      Dim.ranges shape.erase symbols.erase index shape.dims :=
    Dim.ranges_filter shape.erase shape.dims
  rw [retained]
  exact Dim.ranges_erase shape shape.dims

theorem eq_map_erase {ranges ranges' : List Range}
    (hranges : shape.ranges symbols index = .ok ranges)
    (hranges' : shape.erase.ranges symbols.erase index = .ok ranges') :
    ranges' = ranges.map Range.erase := by
  have outcome := shape.ranges_erase symbols index
  rw [hranges, hranges'] at outcome
  cases outcome with
  | ok same => exact same

/-- Broadcasts do not depend on elided dimensions, and have none. -/
theorem broadcast_erase (s t : Shape) :
    s.erase.broadcast t.erase = (s.broadcast t).map Shape.erase := by
  have same : s.erase.broadcast t.erase = s.broadcast t := by
    rw [broadcast, broadcast, faithful_erase.retained_eq, faithful_erase.retained_eq]
  rw [same]
  cases answer : s.broadcast t with
  | none => rfl
  | some u =>
      have kept : u.erase = u := by
        rw [erase, retained_of_broadcast answer]
      rw [Option.map_some, kept]

end Shape

/-! ### Requests -/

theorem OperatorTable.elementwise_erase (ops : List ArrayOp) (l r : ArrayType) (op : ArrayOp) :
    elementwise ops (l.mapShape .erase) (r.mapShape .erase) op =
      (elementwise ops l r op).map (OperatorInstance.mapShape .erase) := by
  unfold elementwise
  show (if op ∈ ops ∧ l.element = r.element then _ else _) = _
  split_ifs with known
  · show (l.shape.erase.broadcast r.shape.erase).map _ = _
    rw [Shape.broadcast_erase, Option.map_map, Option.map_map]
    rfl
  · rfl

namespace Site

variable {site site' : Site}

theorem erase_index (index : site'.indexType = site.indexType) (dim : Dim) (loop : IterVar) :
    (site.index dim loop).erase = site'.index dim loop.erase := by
  have extent : loop.erase.range.extent? = loop.range.extent? := loop.range.extent?_erase
  rw [Site.index, Site.index, extent, index]
  split_ifs
  · rw [Expr.erase]
  · rw [Expr.erase]
    rfl

/-- The indices of a read do not depend on elided dimensions. -/
theorem map_erase_indices (loops : site'.iterVars = site.iterVars.map IterVar.erase)
    (index : site'.indexType = site.indexType) (access : Shape) :
    (site.indices access).map Expr.erase = site'.indices access.erase := by
  have innermost : site'.innermost access.rank =
      (site.innermost access.rank).map IterVar.erase := by
    rw [Site.innermost, Site.innermost, loops, List.length_map, List.map_drop]
  rw [Site.indices, Site.indices, Shape.faithful_erase.retained_eq, Shape.faithful_erase.rank_eq,
    innermost, List.map_zipWith, List.zipWith_map_right]
  congr
  funext dim loop
  exact erase_index index dim loop

end Site

namespace AddColumn

def paddedTotal : Buffer := ⟨"total", ⟨⟨[.elided, .symbol "n", .const 3]⟩, .int64⟩⟩

def paddedColumn : Buffer := ⟨"column", ⟨⟨[.symbol "n", .elided, .const 1, .elided]⟩, .int64⟩⟩

/-- The sum with elided dimensions in all its shapes. -/
def padded : Kernel := ⟨"add_column", paddedTotal, paddedTotal.shape, .ret (some value)⟩

def paddedScope : Scope := (Scope.empty.insert (.array paddedTotal)).insert (.array paddedColumn)

/-- The number of rows is stored in an array that has an elided dimension too. -/
def paddedSymbols : Symbols :=
  Symbols.empty.insert "n" (.load ⟨"rows", ⟨⟨[.elided, .const 1]⟩, .int64⟩⟩ [.int 0 .int64])

end AddColumn

namespace Kernel

variable {kernel : Kernel} {scope : Scope} {symbols : Symbols} {ops : List ArrayOp}
  {settings : Settings}

theorem site_follows_erase (ranges : List Range) :
    Site.Follows .erase Load.erase (fun region region' => region' = region.erase)
      (site ⟨scope, symbols, .elementwise ops⟩ settings ranges)
      (site ⟨scope.mapShape .erase, symbols.erase, .elementwise ops⟩ settings
        (ranges.map Range.erase)) where
  length_eq := by simp [site, settings.iterVars_erase]
  find?_eq := Scope.find?_mapShape _ scope
  operators_eq := OperatorTable.elementwise_erase ops
  load_eq buffer access := by
    refine congrArg (Load.mk _) (Site.map_erase_indices ?_ ?_ access)
    · exact settings.iterVars_erase ranges
    · rfl
  ranges access := by
    refine (access.ranges_erase symbols settings.indexType).imp ?_
    rintro ranges _ rfl buffer
    rfl

/-- Blocks in step under erasing are a block and its erased form. -/
theorem BlocksInStep.eq_erase {block block' : Block}
    (h : BlocksInStep .erase Load.erase (fun region region' => region' = region.erase) kernel
      ⟨scope, symbols, .elementwise ops⟩
      ⟨scope.mapShape .erase, symbols.erase, .elementwise ops⟩ settings settings block block') :
    block' = block.erase := by
  obtain ⟨hranges, hranges', regions⟩ := h
  rename_i ranges ranges' reads reads' value
  obtain rfl : ranges' = ranges.map Range.erase := Shape.eq_map_erase hranges hranges'
  have reads_eq : reads' = reads.map Region.erase := by
    rw [← List.forall₂_eq_eq_eq, List.forall₂_map_right_iff]
    exact regions.flip
  -- The store is at the counters, which have no shapes in them.
  have counters : (settings.iterVars (ranges.map Range.erase)).map (fun loop => Expr.var loop.var) =
      ((settings.iterVars ranges).map fun loop => Expr.var loop.var).map Expr.erase := by
    simp [settings.iterVars_erase, IterVar.erase, Expr.erase, Function.comp_def]
  rw [reads_eq, Expr.mapLoads_erase, blockOf, blockOf, storeOf, storeOf, counters,
    settings.iterVars_erase]
  rfl

/-- **A kernel and its erased form are lowered in step.** -/
theorem lower_erase (declared : kernel.output.shape = kernel.declared) :
    Traced.InStep .erase (fun block block' => block' = block.erase)
      (kernel.lower ⟨scope, symbols, .elementwise ops⟩ settings)
      ((kernel.mapShape .erase).lower ⟨scope.mapShape .erase, symbols.erase, .elementwise ops⟩
        settings) := by
  have loops := kernel.output.shape.ranges_erase symbols settings.indexType
  apply Traced.InStep.imp (R := BlocksInStep .erase Load.erase
    (fun region region' => region' = region.erase) kernel _ _ settings settings)
  · apply lower_inStep Shape.faithful_erase rfl
    · exact iff_of_true (congrArg Shape.erase declared) declared
    · exact loops.imp fun _ _ _ => trivial
    · intro ranges ranges' hranges hranges'
      obtain rfl := Shape.eq_map_erase hranges hranges'
      exact site_follows_erase ranges
  · intro block block' blocks
    exact blocks.eq_erase

/-- **Elided dimensions are inert.** Erase them from the output, from the declared shape, from the
scope and from what symbols are bound to. A kernel that was compiled is still compiled, to the block
without elided dimensions, in the ends of its ranges too; a kernel that was refused is still
refused, with a diagnostic of the same code. -/
theorem compile_erase (kernel : Kernel) (scope : Scope) (symbols : Symbols) (ops : List ArrayOp)
    (settings : Settings) (declared : kernel.output.shape = kernel.declared) :
    (∀ block, kernel.compile ⟨scope, symbols, .elementwise ops⟩ settings = .ok block →
        (kernel.mapShape .erase).compile ⟨scope.mapShape .erase, symbols.erase, .elementwise ops⟩
          settings = .ok block.erase) ∧
      ∀ report, kernel.compile ⟨scope, symbols, .elementwise ops⟩ settings = .error report →
        ∃ report', (kernel.mapShape .erase).compile
            ⟨scope.mapShape .erase, symbols.erase, .elementwise ops⟩ settings = .error report' ∧
          report'.code = report.code := by
  rcases compile_of_inStep (lower_erase declared) with
    ⟨block, _, done, done', rfl⟩ | ⟨fault, refused, refused'⟩
  · rw [done, done']
    constructor
    · rintro _ ⟨⟩
      rfl
    · rintro _ ⟨⟩
  · rw [refused, refused']
    constructor
    · rintro _ ⟨⟩
    · rintro _ ⟨⟩
      refine ⟨_, rfl, ?_⟩
      simp

/-- The sum with elided dimensions, which stand at different places in its two operands. Its rows
end where the array says that they are stored in, and no elided dimension is left there either.
Where `n` is unbound, the sum is refused with and without them. -/
theorem compile_erase_padded :
    AddColumn.padded.output.shape = AddColumn.padded.declared ∧
      (∃ block, (AddColumn.padded.mapShape .erase).compile ⟨AddColumn.paddedScope.mapShape .erase,
          AddColumn.paddedSymbols.erase, .elementwise [.arith .add]⟩ {} = .ok block ∧
        block.body = AddColumn.block.body ∧
        block.iterVars.map IterVar.range =
          [.upTo (.load ⟨"rows", ⟨⟨[.const 1]⟩, .int64⟩⟩ [.int 0 .int64]) .int64,
            AddColumn.columns 3]) ∧
      ∃ report, (AddColumn.padded.mapShape .erase).compile
          ⟨AddColumn.paddedScope.mapShape .erase, Symbols.empty.erase, .elementwise [.arith .add]⟩
            {} = .error report ∧ report.code = .unboundSymbol := by
  have compiled : AddColumn.padded.compile
      ⟨AddColumn.paddedScope, AddColumn.paddedSymbols, .elementwise [.arith .add]⟩ {} = .ok _ := rfl
  have refused : AddColumn.padded.compile
      ⟨AddColumn.paddedScope, .empty, .elementwise [.arith .add]⟩ {} = .error _ := rfl
  have erased := (compile_erase _ _ _ _ _ rfl).1 _ compiled
  exact ⟨rfl, ⟨_, erased, rfl, rfl⟩, (compile_erase _ _ _ _ _ rfl).2 _ refused⟩

end Kernel

end ArrayKernel
