import ArrayKernel.Loop.Expr

/-!
Loop blocks: iteration variables with their ranges, one store that is run at every point of the
iteration space, and the regions of buffers that the block reads and writes.
-/

namespace ArrayKernel.Loop

/-- The integers from `start` up to, but not including, `stop`. -/
structure Range where
  start : Expr
  stop : Expr

namespace Range

/-- The number of integers in the range, known if both ends are immediates. -/
def extent? (range : Range) : Option Int64 := do
  let start ← range.start.asInt?
  let stop ← range.stop.asInt?
  some (stop - start)

def same (r r' : Range) : Bool :=
  r.start.same r'.start && r.stop.same r'.stop

end Range

/-- A loop counter and the range it runs over. -/
structure IterVar where
  var : Var
  range : Range

def IterVar.same (v v' : IterVar) : Bool :=
  v.var == v'.var && v.range.same v'.range

/-- A part of a buffer: a range for each of its dimensions. -/
structure Region where
  buffer : Buffer
  ranges : List Range

namespace Region

/-- The extents of all ranges, if every one is known. -/
def extents? (region : Region) : Option (List Int64) :=
  region.ranges.mapM Range.extent?

def same (r r' : Region) : Bool :=
  r.buffer == r'.buffer && r.ranges.isEqv r'.ranges Range.same

end Region

/-- An assignment to one element of a buffer. -/
structure Store where
  buffer : Buffer
  indices : List Expr
  value : Expr

def Store.same (s s' : Store) : Bool :=
  s.buffer == s'.buffer && Expr.sameList s.indices s'.indices && s.value.same s'.value

/-- A store under its loops. -/
structure Block where
  iterVars : List IterVar
  reads : List Region
  writes : List Region
  name : String
  body : Store

/-- Equality of blocks, floating-point immediates being compared by value. -/
def Block.same (b b' : Block) : Bool :=
  b.iterVars.isEqv b'.iterVars IterVar.same && b.reads.isEqv b'.reads Region.same &&
    b.writes.isEqv b'.writes Region.same && b.name == b'.name && b.body.same b'.body

end ArrayKernel.Loop
