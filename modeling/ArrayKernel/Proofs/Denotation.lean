import ArrayKernel.Proofs.Execution
import ArrayKernel.Proofs.Reads

/-!
The meaning of kernels.

An expression means an array: a name of a buffer means its contents, a scalar means an array
without axes, and an operator works element by element on its operands, broadcast to common extents.
`Source.Expr.denote` says this on extents as they are on entry to the loops, and without shapes,
operator tables or loops.

* `Shape.commonExtents_eq`: where shapes broadcast, their extents do, whatever symbols stand for.
* `Kernel.compile_preserves_meaning`: at every point, the value that a compiled kernel stores is the
  element of the array that its expression means.
-/

namespace ArrayKernel

open Loop (Expr Interpretation Memory Block Region)

/-! ### Arrays -/

/-- An array of values: its extents, outermost first, and the element at each cell. -/
structure NDArray (V : Type) where
  extents : List Int
  element : List Int → V

namespace NDArray

variable {V : Type}

/-- The array of one element without any axis. -/
def scalar (value : V) : NDArray V := ⟨[], fun _ => value⟩

/-- Applies a function to every element. -/
def map (f : V → V) (array : NDArray V) : NDArray V :=
  ⟨array.extents, fun cell => f (array.element cell)⟩

/-- The extent of an axis, counted from the last one. A missing axis has extent one. -/
def axisFromLast (extents : List Int) (k : Nat) : Int :=
  extents.reverse.getD k 1

/-- The extent that two axes broadcast to: they are equal, or one of them is one. -/
def commonExtent (m n : Int) : Option Int :=
  if m = n then some m
  else if m = 1 then some n
  else if n = 1 then some m
  else none

/-- The extents that two arrays broadcast to, axis by axis from the last one. -/
def commonExtents (ms ns : List Int) : Option (List Int) :=
  ((List.range (max ms.length ns.length)).mapM fun k =>
    commonExtent (axisFromLast ms k) (axisFromLast ns k)).map List.reverse

/-- The array repeated along the axes in which it is smaller than the given extents. -/
def broadcastTo (extents : List Int) (array : NDArray V) : NDArray V :=
  ⟨extents, fun cell => array.element (stretch array.extents cell)⟩

/-- Broadcasts two arrays to common extents and combines their elements. -/
def zipWith (f : V → V → V) (a b : NDArray V) : Option (NDArray V) := do
  let extents ← commonExtents a.extents b.extents
  some ⟨extents, fun cell =>
    f ((a.broadcastTo extents).element cell) ((b.broadcastTo extents).element cell)⟩

end NDArray

section Denotation

variable {V : Type}

/-- The meaning of a literal, which is an immediate of its own type. -/
def Loop.Interpretation.literal (I : Interpretation V) : Source.Literal → V
  | .int value => I.int value .int64
  | .float value => I.float value .float64
  | .bool value => I.bool value

/-- The array that something in scope is. -/
def Entry.denote (I : Interpretation V) (memory : Memory V) (extents : Shape → List Int) :
    Entry → NDArray V
  | .array buffer => ⟨extents buffer.shape, memory buffer⟩
  | .scalar name type => .scalar (I.scalar ⟨name, type⟩)

/-- The array that an expression means, given the extents of shapes. Constructs that kernels may not
use have no meaning. -/
def Source.Expr.denote (I : Interpretation V) (memory : Memory V) (scope : Scope)
    (extents : Shape → List Int) : Source.Expr → Option (NDArray V)
  | .name id => (scope.find? id).map (Entry.denote I memory extents)
  | .literal value => some (.scalar (I.literal value))
  | .arith op lhs rhs => do
      let l ← lhs.denote I memory scope extents
      let r ← rhs.denote I memory scope extents
      NDArray.zipWith (I.arith op) l r
  | .compare lhs [(op, rhs)] => do
      let l ← lhs.denote I memory scope extents
      let r ← rhs.denote I memory scope extents
      NDArray.zipWith (I.compare op) l r
  | .unary op operand => (operand.denote I memory scope extents).map (.map (I.unary op))
  | _ => none

theorem Source.Expr.denote_elementwise (I : Interpretation V) (memory : Memory V) (scope : Scope)
    (extents : Shape → List Int) (op : ArrayOp) (lhs rhs : Source.Expr) :
    (Source.Expr.elementwise op lhs rhs).denote I memory scope extents =
      (do
        let l ← lhs.denote I memory scope extents
        let r ← rhs.denote I memory scope extents
        NDArray.zipWith (I.elementwise op) l r) := by
  cases op <;> simp [Source.Expr.elementwise, denote, Loop.Interpretation.elementwise]

end Denotation

/-! ### Broadcasting of extents -/

section Extents

variable {symbols : Symbols} {ends : Expr → Int}

theorem NDArray.commonExtent_one_left (n : Int) : commonExtent 1 n = some n := by
  by_cases same : 1 = n
  · rw [← same]
    rfl
  · simp [commonExtent, same]

theorem NDArray.commonExtent_one_right (m : Int) : commonExtent m 1 = some m := by
  by_cases same : m = 1
  · rw [same]
    rfl
  · simp [commonExtent, same]

theorem Dim.commonExtent_eq {l r dim : Dim} (h : l.broadcast r = some dim) :
    NDArray.commonExtent (l.extent symbols ends) (r.extent symbols ends) =
      some (dim.extent symbols ends) := by
  unfold Dim.broadcast at h
  split_ifs at h with same left right <;> cases h
  · simp [NDArray.commonExtent, same]
  · rw [left]
    exact NDArray.commonExtent_one_left _
  · rw [right]
    exact NDArray.commonExtent_one_right _

theorem Dim.length_of_broadcastAll {ls rs dims : List Dim} (h : broadcastAll ls rs = some dims) :
    dims.length = max ls.length rs.length := by
  fun_induction broadcastAll ls rs generalizing dims with
  | case1 rs => cases h; simp
  | case2 ls => cases h; simp
  | case3 l ls r rs ih =>
      obtain ⟨dim, hdim, h⟩ := Option.bind_eq_some_iff.mp h
      obtain ⟨others, hothers, h⟩ := Option.bind_eq_some_iff.mp h
      cases h
      simp [ih hothers, Nat.add_max_add_right]

/-- Axis by axis, a missing dimension broadcasts like a constant extent of one. -/
theorem Dim.broadcast_getD {ls rs dims : List Dim} (h : broadcastAll ls rs = some dims) (k : Nat) :
    (ls.getD k (.const 1)).broadcast (rs.getD k (.const 1)) = some (dims.getD k (.const 1)) := by
  fun_induction broadcastAll ls rs generalizing dims k with
  | case1 rs =>
      cases h
      simpa using Dim.broadcast_unit_left _
  | case2 ls =>
      cases h
      simpa using Dim.broadcast_unit_right _
  | case3 l ls r rs ih =>
      obtain ⟨dim, hdim, h⟩ := Option.bind_eq_some_iff.mp h
      obtain ⟨others, hothers, h⟩ := Option.bind_eq_some_iff.mp h
      cases h
      cases k with
      | zero => exact hdim
      | succ k => exact ih hothers k

/-- **Where shapes broadcast, their extents do**, whatever their symbols stand for. -/
theorem Shape.commonExtents_eq {s t u : Shape} (h : s.broadcast t = some u) :
    NDArray.commonExtents (s.extents symbols ends) (t.extents symbols ends) =
      some (u.extents symbols ends) := by
  have retained := retained_of_broadcast h
  obtain ⟨dims, hdims, rfl⟩ := Option.map_eq_some_iff.mp h
  have axis (shape : Shape) (k : Nat) :
      NDArray.axisFromLast (shape.extents symbols ends) k =
        (shape.retained.reverse.getD k (.const 1)).extent symbols ends := by
    rw [NDArray.axisFromLast, Shape.extents, ← List.map_reverse, List.getD_eq_getElem?_getD,
      List.getD_eq_getElem?_getD, List.getElem?_map]
    cases shape.retained.reverse[k]? <;> rfl
  have common (k : Nat) :
      NDArray.commonExtent (NDArray.axisFromLast (s.extents symbols ends) k)
          (NDArray.axisFromLast (t.extents symbols ends) k) =
        some ((dims.getD k (.const 1)).extent symbols ends) := by
    rw [axis, axis]
    exact Dim.commonExtent_eq (Dim.broadcast_getD hdims k)
  have rank : max (s.extents symbols ends).length (t.extents symbols ends).length =
      dims.length := by
    simpa [Shape.extents] using (Dim.length_of_broadcastAll hdims).symm
  have all : ((List.range dims.length).map fun k =>
      (dims.getD k (.const 1)).extent symbols ends) = dims.map (Dim.extent symbols ends) := by
    refine List.ext_getElem (by simp) fun k _ inside => ?_
    have inside : k < dims.length := by simpa using inside
    simp [inside]
  simp only [NDArray.commonExtents, common, rank, ← Option.pure_def, List.mapM_pure, all]
  simp [Shape.extents, retained]

end Extents

/-! ### Lowered expressions keep their meaning -/

namespace Site

variable {V : Type} {I : Interpretation V} {memory : Memory V} {ends : Expr → Int}
  {scope : Scope} {symbols : Symbols} {ops : List ArrayOp} {settings : Settings}
  {ranges : List Loop.Range} {output : Shape}

/-- `array` is what something lowered means: any value that it is materialized to has, at every
point, the element of `array` that stands there. Its shape must fit the loops, and a scalar must
stand under none. -/
def Means (site : Site) (I : Interpretation V) (memory : Memory V) (ends : Expr → Int)
    (output : Shape) (lowered : Lowered) (array : NDArray V) : Prop :=
  ∀ value reads, site.Materializes lowered.shape lowered value reads →
    lowered.shape.BroadcastsTo output →
    (∀ element type, lowered = .scalar element type → site.iterVars = []) →
    ∀ point ∈ Loop.points ends (site.iterVars.map Loop.IterVar.range),
      value.eval I memory (Loop.counters site.iterVars point) =
        array.element (stretch array.extents point)

/-- A buffer means its contents, which are read at stretched cells. -/
theorem means_buffer {env : Environment}
    (hranges : output.ranges env.symbols settings.indexType = .ok ranges) (source : Buffer) :
    (Kernel.site env settings ranges).Means I memory ends output (.buffer source)
      ⟨source.shape.extents env.symbols ends, memory source⟩ := by
  intro value reads hvalue below _ point hpoint
  have hpoint : point ∈ Loop.points ends ranges := by simpa [Kernel.site] using hpoint
  cases hvalue with
  | buffer _ =>
      rw [Loop.Expr.eval]
      exact congrArg (memory source) (Kernel.evalIndices_indices hranges below hpoint)

/-- A scalar means its value outside of any loop. -/
theorem means_scalar {site : Site} {element : Expr} {type : ElementType} {value : V}
    (h : element.eval I memory [] = value) :
    site.Means I memory ends output (.scalar element type) (.scalar value) := by
  rintro _ _ ⟨⟩ _ unlooped point _
  rw [unlooped element type rfl]
  exact h

/-- An operator on something lowered is an operator on its elements. -/
theorem Means.unary {site : Site} {op : UnaryOp} {o : Lowered} {v : Expr} {os : List Region}
    {array : NDArray V} (h : site.Means I memory ends output o array)
    (hv : site.Materializes o.shape o v os) :
    site.Means I memory ends output (o.unary op v) (array.map (I.unary op)) := by
  intro value reads hvalue below unlooped point hpoint
  have applied : value = .unary op v := by
    cases o <;> cases hvalue <;> rfl
  have element := h v os hv (by simpa using below) (by rintro _ _ rfl; exact unlooped _ _ rfl)
    point hpoint
  rw [applied, Loop.Expr.eval, element]
  rfl

/-- An operand that broadcasts to `u` is read as if it were first stretched to `u`: the steps by
which it reaches the output's shape do not matter. -/
theorem Means.operand {env : Environment}
    (hranges : output.ranges env.symbols settings.indexType = .ok ranges) {lowered : Lowered}
    {array : NDArray V} {value : Expr} {reads : List Region} {u : Shape}
    (h : (Kernel.site env settings ranges).Means I memory ends output lowered array)
    (hvalue : (Kernel.site env settings ranges).Materializes lowered.shape lowered value reads)
    (extents : array.extents = lowered.shape.extents env.symbols ends)
    {element : ElementType} (isArray : lowered.valueType = .array element)
    (inner : lowered.shape.BroadcastsTo u) (outer : u.BroadcastsTo output) {point : List Int}
    (hpoint : point ∈ Loop.points ends ((settings.iterVars ranges).map Loop.IterVar.range)) :
    value.eval I memory (Loop.counters (settings.iterVars ranges) point) =
      (array.broadcastTo (u.extents env.symbols ends)).element
        (stretch (u.extents env.symbols ends) point) := by
  have enough : u.rank ≤ point.length := by
    have cell := (Kernel.mem_points_iterVars hranges).mp hpoint
    have rank : output.rank = point.length := by
      simpa [Shape.extents, Shape.rank] using cell.length_eq
    exact rank ▸ outer.rank_le
  calc
    value.eval I memory (Loop.counters (settings.iterVars ranges) point)
    _ = array.element (stretch array.extents point) :=
        h value reads hvalue (inner.trans outer) (by rintro _ _ rfl; cases isArray) point hpoint
    _ = array.element (stretch array.extents (stretch (u.extents env.symbols ends) point)) := by
        rw [extents, stretch_stretch inner enough]

variable (I memory ends) in
/-- **A lowered expression means what the expression means.** -/
theorem Lowers.means (hranges : output.ranges symbols settings.indexType = .ok ranges)
    {e : Source.Expr} {lowered : Lowered} {reads : List Region}
    (h : (Kernel.site ⟨scope, symbols, .elementwise ops⟩ settings ranges).Lowers e lowered reads) :
    ∃ array, e.denote I memory scope (Shape.extents symbols ends) = some array ∧
      array.extents = lowered.shape.extents symbols ends ∧
      (Kernel.site ⟨scope, symbols, .elementwise ops⟩ settings ranges).Means I memory ends output
        lowered array := by
  induction h with
  | name found =>
      rename_i id entry
      have found : scope.find? id = some entry := found
      refine ⟨entry.denote I memory (Shape.extents symbols ends), ?_, ?_⟩
      · simp [Source.Expr.denote, found]
      · cases entry with
        | array buffer => exact ⟨rfl, means_buffer hranges buffer⟩
        | scalar name type => exact ⟨rfl, means_scalar (by simp [Loop.Expr.eval])⟩
  | literal =>
      rename_i value
      refine ⟨.scalar (I.literal value), rfl, ?_⟩
      cases value <;> exact ⟨rfl, means_scalar (by simp [Loop.Expr.eval, Interpretation.literal])⟩
  | elementwise hl hr hinst hlv hrv ihl ihr =>
      rename_i op lhs rhs l r lv rv ls rs ls' rs' inst
      obtain ⟨a, ha, aextents, ameans⟩ := ihl
      obtain ⟨b, hb, bextents, bmeans⟩ := ihr
      obtain ⟨_, element, u, ltype, rtype, hu, rfl⟩ :=
        OperatorTable.resolve_elementwise_eq_ok_iff.mp hinst
      obtain ⟨lbelow, rbelow⟩ := Shape.broadcastsTo_of_broadcast hu
      refine ⟨⟨u.extents symbols ends, fun cell => I.elementwise op
          ((a.broadcastTo (u.extents symbols ends)).element cell)
          ((b.broadcastTo (u.extents symbols ends)).element cell)⟩, ?_, rfl, ?_⟩
      · rw [Source.Expr.denote_elementwise, ha, hb]
        simp [NDArray.zipWith, aextents, bextents, Shape.commonExtents_eq hu]
      · rintro _ _ ⟨⟩ below _ point hpoint
        have left := ameans.operand hranges hlv aextents ltype lbelow below hpoint
        have right := bmeans.operand hranges hrv bextents rtype rbelow below hpoint
        rw [Loop.Expr.eval_elementwise]
        exact congrArg₂ (I.elementwise op) left right
  | unary ho hv ih =>
      rename_i op operand o v os os'
      obtain ⟨a, ha, extents, means⟩ := ih
      refine ⟨a.map (I.unary op), by simp [Source.Expr.denote, ha], ?_, means.unary hv⟩
      rw [Lowered.shape_unary]
      exact extents

end Site

namespace Kernel

variable {V : Type} {kernel : Kernel} {e : Source.Expr} {scope : Scope} {symbols : Symbols}
  {ops : List ArrayOp} {settings : Settings} {block : Block}

/-- **Compiled kernels keep their meaning.** The expression means an array, the points of the loops
are its cells, and the value that is stored at a point is its element there. -/
theorem compile_preserves_meaning (I : Interpretation V) (memory : Memory V) (ends : Expr → Int)
    (returns : kernel.body = .ret (some e))
    (h : kernel.compile ⟨scope, symbols, .elementwise ops⟩ settings = .ok block) :
    ∃ array, e.denote I memory scope (Shape.extents symbols ends) = some array ∧
      (∀ point, point ∈ block.points ends ↔ List.Forall₂ InExtent array.extents point) ∧
      ∀ point ∈ block.points ends,
        block.body.value.eval I memory (block.counters point) = array.element point := by
  obtain @⟨e', ranges, lowered, value, reads, reads', hbody, _, hranges, hlowered, same, _,
    hvalue⟩ := compile_eq_ok_iff.mp h
  have returned : e' = e := by simpa [hbody] using returns
  subst returned
  obtain ⟨array, denoted, extents, means⟩ := hlowered.means I memory ends hranges
  have extents : array.extents = kernel.output.shape.extents symbols ends := by
    rw [extents, Shape.extents, same, Shape.extents]
  have cells (point : List Int) :
      point ∈ Loop.points ends ((settings.iterVars ranges).map Loop.IterVar.range) ↔
        List.Forall₂ InExtent array.extents point := by
    rw [extents]
    exact mem_points_iterVars hranges
  refine ⟨array, denoted, cells, ?_⟩
  intro point hpoint
  -- A scalar has the shape of an output without retained dimensions, over which there are no loops.
  have unlooped (element : Expr) (type : ElementType) (scalar : lowered = .scalar element type) :
      settings.iterVars ranges = [] := by
    subst scalar
    have none : ranges = [] := by
      apply List.eq_nil_of_length_eq_zero
      rw [Shape.length_of_ranges_eq_ok hranges, Shape.rank, ← same]
      rfl
    rw [none]
    rfl
  have element := means value reads' hvalue (.of_retained_eq same) unlooped point hpoint
  rw [stretch_self ((cells point).mp hpoint)] at element
  exact element

/-- In two rows, the last element is a sum of elements of a total and of a column. -/
theorem compile_preserves_meaning_addColumn :
    ∃ array, AddColumn.value.denote .integers (fun _ cell => cell.sum) AddColumn.scope
        (Shape.extents AddColumn.symbols fun _ => 2) = some array ∧
      [1, 2] ∈ AddColumn.block.points (fun _ => 2) ∧
      AddColumn.block.body.value.eval .integers (fun _ cell => cell.sum)
        (AddColumn.block.counters [1, 2]) = array.element [1, 2] := by
  have compiled : AddColumn.kernel.compile AddColumn.env {} = .ok AddColumn.block := rfl
  have reached : [1, 2] ∈ AddColumn.block.points fun _ => 2 := by decide
  obtain ⟨array, denoted, _, element⟩ := compile_preserves_meaning .integers
    (fun _ cell => cell.sum) (fun _ => 2) (e := AddColumn.value) rfl compiled
  exact ⟨array, denoted, reached, element _ reached⟩

end Kernel

end ArrayKernel
