import ArrayKernel.Shape

/-!
Broadcasting: two shapes are aligned on their last dimensions, and a missing dimension or a
constant extent of one repeats along the other shape's dimension.
-/

namespace ArrayKernel

/-- The dimension that two aligned ones broadcast to: equal ones are kept, and a constant extent
of one takes the other's place. -/
def Dim.broadcast (l r : Dim) : Option Dim :=
  if l = r then some l
  else if l = .const 1 then some r
  else if r = .const 1 then some l
  else none

/-- Broadcasts dimensions listed from the last one backwards; the longer list goes on alone. -/
def Dim.broadcastAll : List Dim → List Dim → Option (List Dim)
  | [], rs => some rs
  | ls, [] => some ls
  | l :: ls, r :: rs => do
      let dim ← l.broadcast r
      let dims ← Dim.broadcastAll ls rs
      some (dim :: dims)

/-- The shape that both shapes repeat along, if there is one; elided dimensions do not take part. -/
def Shape.broadcast (s t : Shape) : Option Shape :=
  (Dim.broadcastAll s.retained.reverse t.retained.reverse).map fun dims => ⟨dims.reverse⟩

end ArrayKernel
