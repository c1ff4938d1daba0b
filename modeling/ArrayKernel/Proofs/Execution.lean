import ArrayKernel.Proofs.Derivation
import Mathlib.Algebra.Ring.Int.Defs
import Mathlib.Data.List.Nodup
import Mathlib.Data.List.Lemmas

/-!
What blocks compute.

The value of an expression depends on an `Interpretation` of literals, scalars and operators, on the
contents of the buffers and on the counters of the loops. The ends of the loops' ranges are taken
once, on entry: an immediate end is itself, and any other end may have any integer value `ends`.

* `Loop.Operators.tagged`: operators on any values give an interpretation, on values and counters.
* `Loop.points`: the points of nested loops, outermost coordinate first.
* `stretch`: the cell of an array that stands at a point of a larger one under broadcasting.
* `Kernel.evalIndices_indices`: at every point of a kernel's loops, the indices of a buffer whose
  shape broadcasts to the output's name the stretched cell.
-/

namespace ArrayKernel

open Loop (Expr Range IterVar Region Block)

namespace Loop

variable {V : Type}

/-! ### Values -/

/-- The meaning of literals, scalars and operators as values in `V`. Loop counters can be used as
values, and values as indices. The immediate zero is the index zero at every type. -/
structure Operators (V : Type) where
  int : Int64 → ElementType → V
  float : Binary64 → ElementType → V
  bool : Bool → V
  scalar : Var → V
  arith : ArithOp → V → V → V
  compare : CompareOp → V → V → V
  unary : UnaryOp → V → V
  counter : Int → V
  index : V → Int
  index_zero : ∀ type, index (int 0 type) = 0

/-- Operators under which a counter is the index that it counts, even as a value. -/
structure Interpretation (V : Type) extends Operators V where
  index_counter : ∀ i, index (counter i) = i

/-- Integers as values, for kernels without floating-point literals. Truth is one, and scalars are
zero. -/
def Interpretation.integers : Interpretation Int where
  int value _ := value.toInt
  float _ _ := 0
  bool value := value.toInt
  scalar _ := 0
  arith
    | .add, l, r => l + r
    | .sub, l, r => l - r
    | .mul, l, r => l * r
    | .div, l, r | .floorDiv, l, r => l.fdiv r
    | .mod, l, r => l.fmod r
    | .pow, l, r => l ^ r.toNat
  compare
    | .eq, l, r => (decide (l = r)).toInt
    | .ne, l, r => (decide (l ≠ r)).toInt
    | .lt, l, r => (decide (l < r)).toInt
    | .le, l, r => (decide (l ≤ r)).toInt
    | .gt, l, r => (decide (l > r)).toInt
    | .ge, l, r => (decide (l ≥ r)).toInt
  unary
    | .plus, value => value
    | .minus, value => -value
    | .not, value => (decide (value = 0)).toInt
    | .invert, value => -value - 1
  counter i := i
  index value := value
  index_counter _ := rfl
  index_zero _ := rfl

/-- The contents of buffers. Two buffers share their storage only if they are equal. -/
abbrev Memory (V : Type) := Buffer → List Int → V

/-- The current values of loop counters, by name. -/
abbrev Counters := List (String × Int)

mutual

/-- The value of an expression. A variable that is no loop counter is a scalar. -/
def Expr.eval (I : Interpretation V) (memory : Memory V) (counters : Counters) : Expr → V
  | .int value type => I.int value type
  | .float value type => I.float value type
  | .bool value => I.bool value
  | .var v =>
      match counters.lookup v.name with
      | some i => I.counter i
      | none => I.scalar v
  | .load buffer indices => memory buffer (Expr.evalIndices I memory counters indices)
  | .arith op lhs rhs => I.arith op (lhs.eval I memory counters) (rhs.eval I memory counters)
  | .compare op lhs rhs => I.compare op (lhs.eval I memory counters) (rhs.eval I memory counters)
  | .unary op operand => I.unary op (operand.eval I memory counters)

/-- The cell that a list of indices names. -/
def Expr.evalIndices (I : Interpretation V) (memory : Memory V) (counters : Counters) :
    List Expr → List Int
  | [] => []
  | e :: es => I.index (e.eval I memory counters) :: Expr.evalIndices I memory counters es

end

/-- The meaning of an array operator at one point. -/
def Interpretation.elementwise (I : Interpretation V) : ArrayOp → V → V → V
  | .arith op => I.arith op
  | .compare op => I.compare op

@[simp] theorem Expr.eval_elementwise (I : Interpretation V) (memory : Memory V)
    (counters : Counters) (op : ArrayOp) (lhs rhs : Expr) :
    (Expr.elementwise op lhs rhs).eval I memory counters =
      I.elementwise op (lhs.eval I memory counters) (rhs.eval I memory counters) := by
  cases op <;> simp [Expr.elementwise, Expr.eval, Interpretation.elementwise]

/-! ### Values of any kind

An interpretation has to tell all counters apart, so there is none on a finite type of values. Any
operators give one, though, on values beside which the counters are kept as they are.
-/

namespace Operators

/-- A value, or a counter that has become one. -/
def value (ops : Operators V) : V ⊕ Int → V :=
  Sum.elim id ops.counter

/-- The operators on values and counters. Counters become values under an operator only. -/
def tagged (ops : Operators V) : Interpretation (V ⊕ Int) where
  int n type := .inl (ops.int n type)
  float x type := .inl (ops.float x type)
  bool b := .inl (ops.bool b)
  scalar v := .inl (ops.scalar v)
  arith op l r := .inl (ops.arith op (ops.value l) (ops.value r))
  compare op l r := .inl (ops.compare op (ops.value l) (ops.value r))
  unary op operand := .inl (ops.unary op (ops.value operand))
  counter := .inr
  index := Sum.elim ops.index id
  index_zero := ops.index_zero
  index_counter _ := rfl

end Operators

mutual

/-- The value of an expression under any operators. -/
def Expr.valueIn (ops : Operators V) (memory : Memory V) (counters : Counters) : Expr → V
  | .int value type => ops.int value type
  | .float value type => ops.float value type
  | .bool value => ops.bool value
  | .var v =>
      match counters.lookup v.name with
      | some i => ops.counter i
      | none => ops.scalar v
  | .load buffer indices => memory buffer (Expr.cellIn ops memory counters indices)
  | .arith op lhs rhs =>
      ops.arith op (lhs.valueIn ops memory counters) (rhs.valueIn ops memory counters)
  | .compare op lhs rhs =>
      ops.compare op (lhs.valueIn ops memory counters) (rhs.valueIn ops memory counters)
  | .unary op operand => ops.unary op (operand.valueIn ops memory counters)

/-- The cell that a list of indices names. A counter is its own index. -/
def Expr.cellIn (ops : Operators V) (memory : Memory V) (counters : Counters) :
    List Expr → List Int
  | [] => []
  | .var v :: es =>
      (counters.lookup v.name).getD (ops.index (ops.scalar v)) ::
        Expr.cellIn ops memory counters es
  | e :: es => ops.index (e.valueIn ops memory counters) :: Expr.cellIn ops memory counters es

end

section Tagged

variable (ops : Operators V) (memory : Memory V) (counters : Counters)

mutual

/-- **Interpreting an expression on values and counters gives its value** under the operators. -/
theorem Expr.value_eval_tagged : ∀ e : Expr,
    ops.value (e.eval ops.tagged (fun buffer cell => .inl (memory buffer cell)) counters) =
      e.valueIn ops memory counters
  | .int .. | .float .. | .bool _ => by
      rw [Expr.eval, Expr.valueIn]
      rfl
  | .var v => by
      rw [Expr.eval, Expr.valueIn]
      cases counters.lookup v.name <;> rfl
  | .load buffer indices => by
      rw [Expr.eval, Expr.valueIn, Expr.evalIndices_tagged indices]
      rfl
  | .arith op lhs rhs => by
      rw [Expr.eval, Expr.valueIn, ← Expr.value_eval_tagged lhs, ← Expr.value_eval_tagged rhs]
      rfl
  | .compare op lhs rhs => by
      rw [Expr.eval, Expr.valueIn, ← Expr.value_eval_tagged lhs, ← Expr.value_eval_tagged rhs]
      rfl
  | .unary op operand => by
      rw [Expr.eval, Expr.valueIn, ← Expr.value_eval_tagged operand]
      rfl

/-- Indices name the same cells, since no counter has become a value before it is used as one. -/
theorem Expr.evalIndices_tagged : ∀ es : List Expr,
    Expr.evalIndices ops.tagged (fun buffer cell => .inl (memory buffer cell)) counters es =
      Expr.cellIn ops memory counters es
  | [] => by rw [Expr.evalIndices, Expr.cellIn]
  | e :: es => by
      have head := Expr.value_eval_tagged e
      have rest := Expr.evalIndices_tagged es
      cases e with
      | var v =>
          rw [Expr.evalIndices, Expr.cellIn, rest, Expr.eval]
          cases counters.lookup v.name <;> rfl
      | _ =>
          -- Only a variable can be a counter, so this is a value already.
          rw [Expr.evalIndices, Expr.cellIn, rest, ← head]
          · rw [Expr.eval]
            rfl
          · simp

end

end Tagged

/-! ### Points -/

variable {ends : Expr → Int}

/-- The value of the end of a range on entry to the loops. -/
def Expr.atEntry (ends : Expr → Int) : Expr → Int
  | .int value _ => value.toInt
  | e => ends e

/-- Is `i` in the range, as it is on entry to the loops? -/
def Range.Contains (ends : Expr → Int) (range : Range) (i : Int) : Prop :=
  range.start.atEntry ends ≤ i ∧ i < range.stop.atEntry ends

/-- The integers of a range, in order. -/
def Range.values (ends : Expr → Int) (range : Range) : List Int :=
  (List.range (range.stop.atEntry ends - range.start.atEntry ends).toNat).map
    fun k : Nat => range.start.atEntry ends + k

/-- The points of nested loops over the given ranges, in the order in which the loops reach them. -/
def points (ends : Expr → Int) : List Range → List (List Int)
  | [] => [[]]
  | range :: ranges => (range.values ends).flatMap fun i => (points ends ranges).map (i :: ·)

theorem Range.mem_values {range : Range} {i : Int} :
    i ∈ range.values ends ↔ range.Contains ends i := by
  simp only [values, List.mem_map, List.mem_range, Contains]
  constructor
  · rintro ⟨k, hk, rfl⟩
    omega
  · rintro ⟨lower, upper⟩
    exact ⟨(i - range.start.atEntry ends).toNat, by omega, by omega⟩

theorem Range.nodup_values (range : Range) : (range.values ends).Nodup := by
  refine List.nodup_range.map fun j k h => ?_
  have h : range.start.atEntry ends + j = range.start.atEntry ends + k := h
  omega

/-- A point has one coordinate in each range. -/
theorem mem_points {ranges : List Range} {point : List Int} :
    point ∈ points ends ranges ↔ List.Forall₂ (Range.Contains ends) ranges point := by
  induction ranges generalizing point with
  | nil => simp [points]
  | cons range ranges ih =>
      simp only [points, List.mem_flatMap, List.mem_map, Range.mem_values,
        List.forall₂_cons_left_iff, ih]
      constructor
      · rintro ⟨i, hi, others, hothers, rfl⟩
        exact ⟨i, others, hi, hothers, rfl⟩
      · rintro ⟨i, others, hi, hothers, rfl⟩
        exact ⟨i, hi, others, hothers, rfl⟩

theorem nodup_points (ranges : List Range) : (points ends ranges).Nodup := by
  induction ranges with
  | nil => simp [points]
  | cons range ranges ih =>
      refine List.nodup_flatMap.mpr ⟨fun i _ => ih.map fun p q h => ?_, ?_⟩
      · exact (List.cons.inj h).2
      · refine range.nodup_values.imp fun {i j} differ => ?_
        simp only [Function.onFun, List.disjoint_left, List.mem_map]
        rintro _ ⟨p, _, rfl⟩ ⟨q, _, same⟩
        exact differ (List.cons.inj same).1.symm

/-- The loop counters of nested loops at a point. -/
def counters (loops : List IterVar) (point : List Int) : Counters :=
  (loops.map fun loop => loop.var.name).zip point

/-- The points of a block's iteration space. -/
def Block.points (ends : Expr → Int) (block : Block) : List (List Int) :=
  Loop.points ends (block.iterVars.map IterVar.range)

/-- The loop counters of a block at a point. -/
def Block.counters (block : Block) (point : List Int) : Counters :=
  Loop.counters block.iterVars point

/-- The cells of a region: the product of its ranges. -/
def Region.cells (ends : Expr → Int) (region : Region) : List (List Int) :=
  Loop.points ends region.ranges

end Loop

/-! ### Extents -/

section Extents

variable {symbols : Symbols} {index : ElementType} {ends : Expr → Int}

/-- The extent of a dimension on entry to the loops: a symbolic one is the end that its symbol is
bound to. An elided dimension takes no position, and its extent is never asked for. -/
def Dim.extent (symbols : Symbols) (ends : Expr → Int) : Dim → Int
  | .const extent => extent.toNat
  | .symbol name =>
      match symbols.find? name with
      | some stop => stop.atEntry ends
      | none => 0
  | .elided => 1

/-- The extents of an array of the given shape, one for each index. -/
def Shape.extents (symbols : Symbols) (ends : Expr → Int) (shape : Shape) : List Int :=
  shape.retained.map (Dim.extent symbols ends)

/-- Is `i` a position along an axis of the given extent? -/
def InExtent (extent i : Int) : Prop := 0 ≤ i ∧ i < extent

namespace Dim

theorem HasRange.stop_atEntry {dim : Dim} {range : Range} (h : dim.HasRange symbols index range) :
    range.stop.atEntry ends = dim.extent symbols ends := by
  cases dim with
  | const extent =>
      obtain ⟨small, rfl⟩ := h
      exact Int64.toInt_ofNat_of_lt small
  | symbol name =>
      obtain ⟨stop, bound, rfl⟩ := h
      simp [Loop.Range.upTo, Dim.extent, bound]
  | elided => exact h.elim

/-- The range of a dimension runs from zero up to its extent. -/
theorem HasRange.contains_iff {dim : Dim} {range : Range} (h : dim.HasRange symbols index range)
    {i : Int} : range.Contains ends i ↔ InExtent (dim.extent symbols ends) i := by
  rw [Loop.Range.Contains, h.start_eq, h.stop_atEntry]
  rfl

/-- A range that is known to have one element has one on entry. -/
theorem HasRange.extent_eq_one {dim : Dim} {range : Range}
    (h : dim.HasRange symbols index range) (unit : range.extent? = some 1) :
    dim.extent symbols ends = 1 := by
  rw [← h.stop_atEntry]
  obtain ⟨start, stop⟩ := range
  have hstart : start = .int 0 index := h.start_eq
  subst hstart
  cases stop with
  | int value type =>
      have one : value - 0 = 1 := by simpa [Loop.Range.extent?, Loop.Expr.asInt?] using unit
      have one : value = 1 := by simpa using one
      subst one
      rfl
  | _ => simp [Loop.Range.extent?, Loop.Expr.asInt?] at unit

end Dim

/-- The points of loops over a shape are the cells of an array of that shape. -/
theorem Shape.mem_points_iff {shape : Shape} {ranges : List Range}
    (h : shape.ranges symbols index = .ok ranges) {point : List Int} :
    point ∈ Loop.points ends ranges ↔
      List.Forall₂ InExtent (shape.extents symbols ends) point := by
  rw [Loop.mem_points, Shape.extents, List.forall₂_map_left_iff]
  have looped := Shape.ranges_eq_ok_iff.mp h
  constructor
  · intro hpoint
    exact forall₂_trans looped hpoint fun _ _ _ hrange => hrange.contains_iff.mp
  · intro hcell
    exact forall₂_trans looped.flip hcell fun _ _ _ hrange =>
      (Dim.HasRange.contains_iff hrange).mpr

/-! ### Stretching -/

/-- The position on an axis of the given extent that stands at `i`: an axis of extent one repeats
its only position. -/
def stretchAxis (extent i : Int) : Int :=
  if extent = 1 then 0 else i

/-- The cell of an array of the given extents at a point of a larger one that it broadcasts to. The
axes are aligned on the last ones. -/
def stretch (extents point : List Int) : List Int :=
  List.zipWith stretchAxis extents (point.drop (point.length - extents.length))

theorem stretchAxis_self {extent i : Int} (h : InExtent extent i) : stretchAxis extent i = i := by
  obtain ⟨lower, upper⟩ := h
  unfold stretchAxis
  split_ifs with unit
  · omega
  · rfl

/-- A cell of an array stands at its own place. -/
theorem stretch_self {extents cell : List Int} (h : List.Forall₂ InExtent extents cell) :
    stretch extents cell = cell := by
  rw [stretch, h.length_eq, Nat.sub_self, List.drop_zero]
  induction h with
  | nil => rfl
  | cons head _ ih => rw [List.zipWith_cons_cons, ih, stretchAxis_self head]

theorem zipWith_stretch {dims targets : List Dim} (fits : List.Forall₂ Dim.Fits dims targets)
    (point : List Int) :
    List.zipWith stretchAxis (dims.map (Dim.extent symbols ends))
        (List.zipWith stretchAxis (targets.map (Dim.extent symbols ends)) point) =
      List.zipWith stretchAxis (dims.map (Dim.extent symbols ends)) point := by
  induction fits generalizing point with
  | nil => rfl
  | cons fits _ ih =>
      cases point with
      | nil => simp
      | cons i point =>
          simp only [List.map_cons, List.zipWith_cons_cons, ih, List.cons.injEq, and_true]
          rcases fits with rfl | rfl
          · rfl
          · unfold stretchAxis
            split_ifs <;> rfl

/-- Stretching in two steps is stretching at once. -/
theorem stretch_stretch {s t : Shape} (below : s.BroadcastsTo t) {point : List Int}
    (enough : t.rank ≤ point.length) :
    stretch (s.extents symbols ends) (stretch (t.extents symbols ends) point) =
      stretch (s.extents symbols ends) point := by
  have outer : t.retained.length ≤ point.length := enough
  have inner : s.retained.length ≤ t.retained.length := below.1
  have aligned : point.length - t.retained.length + (t.retained.length - s.retained.length) =
      point.length - s.retained.length := by omega
  have count : min t.retained.length (point.length - (point.length - t.retained.length)) =
      t.retained.length := by omega
  simp only [stretch, Shape.extents, List.length_map, List.length_zipWith, List.length_drop, count,
    List.drop_zipWith, List.drop_drop, ← List.map_drop, aligned]
  exact zipWith_stretch below.2 _

end Extents

/-! ### Loop counters -/

section Loops

variable {V : Type} {I : Loop.Interpretation V} {memory : Loop.Memory V} {ends : Expr → Int}
  {counters : Loop.Counters}

theorem Settings.iterVar_name_injective (settings : Settings) :
    Function.Injective fun position => (settings.iterVar position).name := by
  intro j k h
  have digits : (Nat.repr j).toList = (Nat.repr k).toList := by
    simpa [iterVar] using congrArg String.toList h
  rw [Nat.toList_repr, Nat.toList_repr] at digits
  calc
    j = Nat.ofDigitChars 10 (Nat.toDigits 10 j) 0 := Nat.ofDigitChars_ten_toDigits.symm
    _ = Nat.ofDigitChars 10 (Nat.toDigits 10 k) 0 := by rw [digits]
    _ = k := Nat.ofDigitChars_ten_toDigits

theorem Settings.map_name_iterVars (settings : Settings) (ranges : List Range) :
    ((settings.iterVars ranges).map fun loop => loop.var.name) =
      (List.range ranges.length).map fun position => (settings.iterVar position).name := by
  refine List.ext_getElem (by simp [iterVars]) fun i _ _ => ?_
  simp [iterVars]

/-- No two iteration variables have the same name. -/
theorem Settings.nodup_names (settings : Settings) (ranges : List Range) :
    ((settings.iterVars ranges).map fun loop => loop.var.name).Nodup := by
  rw [settings.map_name_iterVars]
  exact List.nodup_range.map settings.iterVar_name_injective

@[simp] theorem Settings.map_range_iterVars (settings : Settings) (ranges : List Range) :
    (settings.iterVars ranges).map IterVar.range = ranges := by
  refine List.ext_getElem (by simp [iterVars]) fun i _ _ => ?_
  simp [iterVars]

/-- Each loop finds its own counter. -/
theorem Loop.lookup_counters {loops : List IterVar} {point : List Int}
    (nodup : (loops.map fun loop => loop.var.name).Nodup) (same : loops.length = point.length) :
    List.Forall₂ (fun loop i => (Loop.counters loops point).lookup loop.var.name = some i)
      loops point := by
  induction loops generalizing point with
  | nil =>
      cases point with
      | nil => exact .nil
      | cons i point => simp at same
  | cons loop loops ih =>
      cases point with
      | nil => simp at same
      | cons i point =>
          obtain ⟨fresh, nodup⟩ := List.nodup_cons.mp nodup
          refine .cons (by simp [Loop.counters]) ?_
          have others : ∀ other ∈ loops, other.var.name ≠ loop.var.name := fun other mem h =>
            fresh (List.mem_map.mpr ⟨other, mem, h⟩)
          refine ((List.forall₂_and_left _ _).mpr ⟨others, ih nodup (by simpa using same)⟩).imp ?_
          rintro other j ⟨differs, found⟩
          have skip : (other.var.name == loop.var.name) = false := by simpa using differs
          simpa [Loop.counters, List.lookup_cons, skip] using found

theorem Loop.Expr.eval_var {v : Loop.Var} {i : Int} (h : counters.lookup v.name = some i) :
    (Expr.var v).eval I memory counters = I.counter i := by
  simp [Loop.Expr.eval, h]

/-- The loops' variables name the counters. -/
theorem Loop.evalIndices_var {loops : List IterVar} {point : List Int}
    (found : List.Forall₂ (fun loop i => counters.lookup loop.var.name = some i) loops point) :
    Expr.evalIndices I memory counters (loops.map fun loop => .var loop.var) = point := by
  induction found with
  | nil => rfl
  | cons head _ ih =>
      rw [List.map_cons, Loop.Expr.evalIndices, Loop.Expr.eval_var head, I.index_counter, ih]

/-- The index of one dimension under its loop: it stays at zero where the extent is one, and is
the loop's counter elsewhere. -/
theorem Site.index_eval {site : Site} {symbols : Symbols} {index : ElementType} {dim target : Dim}
    {loop : IterVar} {i : Int} (fits : dim.Fits target)
    (hrange : target.HasRange symbols index loop.range) (hi : loop.range.Contains ends i)
    (found : counters.lookup loop.var.name = some i) :
    I.index ((site.index dim loop).eval I memory counters) =
      stretchAxis (dim.extent symbols ends) i := by
  unfold Site.index stretchAxis
  split_ifs with degenerate unit unit
  · simp [Loop.Expr.eval, I.index_zero]
  · obtain ⟨rfl, -⟩ := degenerate
    exact absurd rfl unit
  · -- The loop has one iteration, so that its counter is zero as well.
    have one : target.extent symbols ends = 1 := by
      rcases fits with rfl | rfl
      · exact hrange.extent_eq_one (not_not.mp fun h => degenerate ⟨rfl, h⟩)
      · exact unit
    obtain ⟨lower, upper⟩ := hrange.contains_iff.mp hi
    rw [Loop.Expr.eval_var found, I.index_counter]
    omega
  · rw [Loop.Expr.eval_var found, I.index_counter]

theorem Site.evalIndices_zipWith {site : Site} {symbols : Symbols} {index : ElementType}
    {dims targets : List Dim} {loops : List IterVar} {point : List Int}
    (fits : List.Forall₂ Dim.Fits dims targets)
    (hranges : List.Forall₂ (fun target loop => target.HasRange symbols index loop.range)
      targets loops)
    (hpoint : List.Forall₂ (fun loop i => loop.range.Contains ends i ∧
      counters.lookup loop.var.name = some i) loops point) :
    Expr.evalIndices I memory counters (List.zipWith site.index dims loops) =
      List.zipWith stretchAxis (dims.map (Dim.extent symbols ends)) point := by
  induction fits generalizing loops point with
  | nil => simp [Loop.Expr.evalIndices]
  | cons fits _ ih =>
      cases hranges with
      | cons hrange hranges =>
          cases hpoint with
          | cons hi hpoint =>
              simp only [List.zipWith_cons_cons, List.map_cons, Loop.Expr.evalIndices]
              rw [Site.index_eval fits hrange hi.1 hi.2, ih hranges hpoint]

namespace Kernel

variable {settings : Settings} {ranges : List Range} {point : List Int}

/-- The points of a kernel's loops are the cells of its output. -/
theorem mem_points_iterVars {symbols : Symbols} {output : Shape}
    (hranges : output.ranges symbols settings.indexType = .ok ranges) :
    point ∈ Loop.points ends ((settings.iterVars ranges).map IterVar.range) ↔
      List.Forall₂ InExtent (output.extents symbols ends) point := by
  rw [settings.map_range_iterVars]
  exact Shape.mem_points_iff hranges

/-- At a point, each loop of a kernel has its counter in its range. -/
theorem counters_at_point (settings : Settings) (hpoint : point ∈ Loop.points ends ranges) :
    List.Forall₂ (fun loop i => loop.range.Contains ends i ∧
        (Loop.counters (settings.iterVars ranges) point).lookup loop.var.name = some i)
      (settings.iterVars ranges) point := by
  have inRange := Loop.mem_points.mp hpoint
  rw [← settings.map_range_iterVars ranges, List.forall₂_map_left_iff] at inRange
  exact forall₂_and inRange (Loop.lookup_counters (settings.nodup_names ranges) inRange.length_eq)

/-- The loops that an array is aligned with run over the last dimensions of the output. -/
theorem innermost_hasRange (env : Environment) {symbols : Symbols} {output : Shape}
    (hranges : output.ranges symbols settings.indexType = .ok ranges) (rank : Nat) :
    List.Forall₂ (fun target loop => target.HasRange symbols settings.indexType loop.range)
      (output.retained.drop (output.retained.length - rank))
      ((site env settings ranges).innermost rank) := by
  have looped := Shape.ranges_eq_ok_iff.mp hranges
  rw [← settings.map_range_iterVars ranges, List.forall₂_map_right_iff] at looped
  rw [looped.length_eq]
  exact List.forall₂_drop _ looped

/-- **The indices of a buffer name the stretched cell**, if the buffer's shape broadcasts to the
output's: they are built from the output's loops alone. -/
theorem evalIndices_indices {env : Environment} {output access : Shape}
    (hranges : output.ranges env.symbols settings.indexType = .ok ranges)
    (below : access.BroadcastsTo output) (hpoint : point ∈ Loop.points ends ranges) :
    Expr.evalIndices I memory (Loop.counters (settings.iterVars ranges) point)
        ((site env settings ranges).indices access) =
      stretch (access.extents env.symbols ends) point := by
  have counted := counters_at_point settings hpoint
  rw [Site.indices, stretch, Shape.extents, List.length_map, ← counted.length_eq]
  exact Site.evalIndices_zipWith below.2 (innermost_hasRange env hranges access.rank)
    (List.forall₂_drop _ counted)

/-- The indices of the store name the point itself. -/
theorem evalIndices_iterVars (hpoint : point ∈ Loop.points ends ranges) :
    Expr.evalIndices I memory (Loop.counters (settings.iterVars ranges) point)
      ((settings.iterVars ranges).map fun loop => .var loop.var) = point := by
  exact Loop.evalIndices_var ((counters_at_point settings hpoint).imp fun _ _ counted => counted.2)

end Kernel

section Blocks

variable {env : Environment} {settings : Settings} {block : Block} {point : List Int}

/-- The points of the loops over an output are its cells. -/
theorem Loop.Block.mem_points_iff {output : Shape} {ranges : List Range}
    (hranges : output.ranges env.symbols settings.indexType = .ok ranges)
    (hloops : block.iterVars = settings.iterVars ranges) :
    point ∈ block.points ends ↔
      List.Forall₂ InExtent (output.extents env.symbols ends) point := by
  rw [Loop.Block.points, hloops]
  exact Kernel.mem_points_iterVars hranges

/-- A block stores each point at the point itself. -/
theorem Kernel.Lowers.evalIndices_store {kernel : Kernel} (h : kernel.Lowers env settings block)
    (hpoint : point ∈ block.points ends) :
    Expr.evalIndices I memory (block.counters point) block.body.indices = point := by
  obtain ⟨ranges, _, hloops, _⟩ := h.loops_eq
  rw [Loop.Block.points, hloops, settings.map_range_iterVars] at hpoint
  rw [h.body_eq.2, Loop.Block.counters, hloops]
  exact Kernel.evalIndices_iterVars hpoint

end Blocks

end Loops

end ArrayKernel
