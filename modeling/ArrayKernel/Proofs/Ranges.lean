import ArrayKernel.Proofs.Broadcast
import ArrayKernel.Shape.Ranges
import Mathlib.Algebra.Group.Nat.Defs

/-!
What the ranges of a shape are, without the order in which they are built.

`Dim.HasRange` says what the range of one dimension is, and `Shape.ranges_eq_ok_iff` that the ranges
of a shape are those of its retained dimensions. `Shape.exists_ranges_iff` says when there are any,
and by `Shape.BroadcastsTo.exists_ranges` a shape has ranges if it broadcasts to one that has.
-/

namespace ArrayKernel

open Loop (Range)

variable {symbols : Symbols} {index : ElementType}

namespace Dim

/-- The range that a loop over a dimension runs over. An elided dimension has none. -/
def HasRange (symbols : Symbols) (index : ElementType) : Dim → Range → Prop
  | .const extent, range =>
      extent.toNat < 2 ^ 63 ∧ range = .upTo (.int (Int64.ofNat extent.toNat) index) index
  | .symbol name, range => ∃ stop, symbols.find? name = some stop ∧ range = .upTo stop index
  | .elided, _ => False

/-- Can loops run over the dimension? A constant extent must be a signed 64-bit integer, and a
symbolic one must be bound. -/
def Addressable (symbols : Symbols) : Dim → Prop
  | .const extent => extent.toNat ≤ 2 ^ 63 - 1
  | .symbol name => ∃ stop, symbols.find? name = some stop
  | .elided => True

theorem HasRange.addressable {dim : Dim} {range : Range} (h : dim.HasRange symbols index range) :
    dim.Addressable symbols := by
  cases dim with
  | const extent => exact Nat.le_sub_one_of_lt h.1
  | symbol name =>
      obtain ⟨stop, bound, -⟩ := h
      exact ⟨stop, bound⟩
  | elided => exact h.elim

theorem Addressable.exists_hasRange {dim : Dim} (h : dim.Addressable symbols)
    (retained : dim ≠ .elided) (index : ElementType) :
    ∃ range, dim.HasRange symbols index range := by
  cases dim with
  | const extent => exact ⟨_, Nat.lt_of_le_sub_one (by decide) h, rfl⟩
  | symbol name =>
      obtain ⟨stop, bound⟩ := h
      exact ⟨_, stop, bound, rfl⟩
  | elided => exact absurd rfl retained

theorem HasRange.start_eq {dim : Dim} {range : Range} (h : dim.HasRange symbols index range) :
    range.start = .int 0 index := by
  cases dim with
  | const extent => rw [h.2]; rfl
  | symbol name =>
      obtain ⟨stop, -, rfl⟩ := h
      rfl
  | elided => exact h.elim

/-- A dimension that fits an addressable one is addressable. -/
theorem Fits.addressable {dim target : Dim} (fits : dim.Fits target)
    (h : target.Addressable symbols) : dim.Addressable symbols := by
  rcases fits with rfl | rfl
  · show (1 : UInt64).toNat ≤ 2 ^ 63 - 1
    decide
  · exact h

theorem ranges_eq_ok_iff {shape : Shape} {dims : List Dim} {ranges : List Range} :
    Dim.ranges shape symbols index dims = .ok ranges ↔
      List.Forall₂ (HasRange symbols index) (dims.filter fun dim => !dim.isElided) ranges := by
  induction dims generalizing ranges with
  | nil => simp [Dim.ranges, eq_comm]
  | cons dim dims ih =>
      -- The other dimensions are `ih`'s; a dimension with one possible range adds it in front.
      have step {range : Range} (only : ∀ r, dim.HasRange symbols index r ↔ r = range) :
          (do let others ← Dim.ranges shape symbols index dims
              .ok (range :: others) : Except Fault (List Range)) = .ok ranges ↔
            List.Forall₂ (HasRange symbols index)
              (dim :: dims.filter fun dim => !dim.isElided) ranges := by
        simp only [List.forall₂_cons_left_iff, only, ← ih]
        cases Dim.ranges shape symbols index dims <;> simp [Bind.bind, Except.bind, eq_comm]
      cases dim with
      | const extent =>
          show _ ↔ List.Forall₂ _ (.const extent :: dims.filter fun dim => !dim.isElided) ranges
          rw [Dim.ranges]
          split
          · next small => exact step fun r => and_iff_right small
          · next large =>
              simp only [reduceCtorEq, false_iff, List.forall₂_cons_left_iff]
              rintro ⟨range, others, hrange, _⟩
              exact large hrange.1
      | symbol name =>
          show _ ↔ List.Forall₂ _ (.symbol name :: dims.filter fun dim => !dim.isElided) ranges
          rw [Dim.ranges]
          split
          · next stop bound => exact step fun r => by simp [HasRange, bound]
          · next unbound => simp [List.forall₂_cons_left_iff, HasRange, unbound]
      | elided => simpa [Dim.ranges, isElided] using ih

theorem exists_ranges_iff {dims : List Dim} (retained : ∀ dim ∈ dims, dim ≠ .elided) :
    (∃ ranges, List.Forall₂ (HasRange symbols index) dims ranges) ↔
      ∀ dim ∈ dims, dim.Addressable symbols := by
  induction dims with
  | nil => simp
  | cons dim dims ih =>
      rw [List.forall_mem_cons] at retained
      have ih := ih retained.2
      simp only [List.forall₂_cons_left_iff, List.forall_mem_cons]
      constructor
      · rintro ⟨_, range, ranges, hrange, hranges, -⟩
        exact ⟨hrange.addressable, ih.mp ⟨ranges, hranges⟩⟩
      · rintro ⟨hdim, hdims⟩
        obtain ⟨range, hrange⟩ := hdim.exists_hasRange retained.1 index
        obtain ⟨ranges, hranges⟩ := ih.mpr hdims
        exact ⟨_, range, ranges, hrange, hranges, rfl⟩

end Dim

namespace Shape

/-- The ranges of a shape are the ranges of its retained dimensions. -/
theorem ranges_eq_ok_iff {shape : Shape} {ranges : List Range} :
    shape.ranges symbols index = .ok ranges ↔
      List.Forall₂ (Dim.HasRange symbols index) shape.retained ranges :=
  Dim.ranges_eq_ok_iff

theorem length_of_ranges_eq_ok {shape : Shape} {ranges : List Range}
    (h : shape.ranges symbols index = .ok ranges) : ranges.length = shape.rank :=
  (ranges_eq_ok_iff.mp h).length_eq.symm

/-- A shape has ranges exactly if all of its retained dimensions are addressable. -/
theorem exists_ranges_iff {shape : Shape} :
    (∃ ranges, shape.ranges symbols index = .ok ranges) ↔
      ∀ dim ∈ shape.retained, dim.Addressable symbols := by
  simp only [ranges_eq_ok_iff]
  exact Dim.exists_ranges_iff fun _ => ne_elided_of_mem_retained

/-- A shape that broadcasts to one with ranges has ranges. -/
theorem BroadcastsTo.exists_ranges {s t : Shape} (h : s.BroadcastsTo t) {ranges : List Range}
    (ht : t.ranges symbols index = .ok ranges) :
    ∃ ranges, s.ranges symbols index = .ok ranges := by
  have addressable := exists_ranges_iff.mp ⟨ranges, ht⟩
  refine exists_ranges_iff.mpr fun dim mem => ?_
  obtain ⟨i, hi, rfl⟩ := List.mem_iff_getElem.mp mem
  obtain ⟨same, fits⟩ := List.forall₂_iff_get.mp h.2
  exact (fits i hi (same ▸ hi)).addressable
    (addressable _ (List.mem_of_mem_drop (List.get_mem _ _)))

end Shape

end ArrayKernel
