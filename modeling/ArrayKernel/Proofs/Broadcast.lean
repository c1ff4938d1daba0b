import ArrayKernel.Shape.Broadcast
import Mathlib.Data.List.Forall2

/-!
The order of shapes under broadcasting.

A shape *broadcasts to* another one if its dimensions fit the other's last ones: each is a constant
extent of one, or the same. This is a preorder that looks at retained dimensions only, and two
shapes that broadcast to each other have the same ones.

* `Shape.broadcastsTo_of_broadcast`, `Shape.exists_broadcast`: `Shape.broadcast` answers exactly if
  some shape is above both of its arguments, and its answer is the least such shape.
* `IsCommonBroadcast`: the least shape above a list of shapes, with one lemma for each way in which
  the lowering puts shapes together.
* `Shape.broadcast_isLeast`: broadcasting is the join of this order, and so it is commutative,
  associative and idempotent, with the scalar shape as its identity, failures included.
-/

namespace ArrayKernel

/-! ### Lists aligned on their last elements -/

section Aligned

variable {α β γ : Type} {R : α → β → Prop} {S : β → γ → Prop} {T : α → γ → Prop}

/-- The elements of `xs` are related to the last elements of `ys`, one by one. -/
def Aligned (R : α → β → Prop) (xs : List α) (ys : List β) : Prop :=
  xs.length ≤ ys.length ∧ List.Forall₂ R xs (ys.drop (ys.length - xs.length))

theorem aligned_iff_append {xs : List α} {ys : List β} :
    Aligned R xs ys ↔ ∃ outer inner, ys = outer ++ inner ∧ List.Forall₂ R xs inner := by
  constructor
  · rintro ⟨_, related⟩
    exact ⟨_, _, (List.take_append_drop _ ys).symm, related⟩
  · rintro ⟨outer, inner, rfl, related⟩
    have same : xs.length = inner.length := related.length_eq
    refine ⟨by simp [same], ?_⟩
    simpa [same] using related

theorem aligned_nil (ys : List β) : Aligned R [] ys :=
  aligned_iff_append.mpr ⟨ys, [], by simp, .nil⟩

theorem aligned_of_forall₂ {xs : List α} {ys : List β} (h : List.Forall₂ R xs ys) :
    Aligned R xs ys :=
  aligned_iff_append.mpr ⟨[], ys, rfl, h⟩

theorem not_aligned_cons_nil {x : α} {xs : List α} : ¬ Aligned R (x :: xs).reverse [] := by
  rintro ⟨short, _⟩
  simp at short

/-- Alignment peels off last elements. The lists are given backwards, as broadcasting walks them. -/
theorem aligned_reverse_cons {x : α} {xs : List α} {y : β} {ys : List β} :
    Aligned R (x :: xs).reverse (y :: ys).reverse ↔ R x y ∧ Aligned R xs.reverse ys.reverse := by
  have enough : ys.length - xs.length ≤ ys.reverse.length := by simp
  have back : List.Forall₂ R xs (ys.reverse.drop (ys.length - xs.length)).reverse ↔
      List.Forall₂ R xs.reverse (ys.reverse.drop (ys.length - xs.length)) := by
    rw [← List.forall₂_reverse_iff, List.reverse_reverse]
  have peel : List.Forall₂ R (x :: xs).reverse ((y :: ys).reverse.drop (ys.length - xs.length)) ↔
      R x y ∧ List.Forall₂ R xs.reverse (ys.reverse.drop (ys.length - xs.length)) := by
    rw [List.reverse_cons, List.reverse_cons, List.drop_append_of_le_length enough,
      ← List.forall₂_reverse_iff, List.reverse_append, List.reverse_append, ← back]
    simp
  simp only [Aligned, List.length_reverse, List.length_cons, Nat.add_le_add_iff_right,
    Nat.add_sub_add_right, peel]
  exact and_left_comm

theorem forall₂_trans {xs : List α} {ys : List β} {zs : List γ} (h : List.Forall₂ R xs ys)
    (k : List.Forall₂ S ys zs) (compose : ∀ x y z, R x y → S y z → T x z) :
    List.Forall₂ T xs zs := by
  induction h generalizing zs with
  | nil => cases k; exact .nil
  | cons head _ ih =>
      cases k with
      | cons head' tail' => exact .cons (compose _ _ _ head head') (ih tail')

theorem forall₂_and {R' : α → β → Prop} {xs : List α} {ys : List β} (h : List.Forall₂ R xs ys)
    (k : List.Forall₂ R' xs ys) : List.Forall₂ (fun x y => R x y ∧ R' x y) xs ys := by
  induction h with
  | nil => exact .nil
  | cons head _ ih =>
      cases k with
      | cons head' tail' => exact .cons ⟨head, head'⟩ (ih tail')

theorem exists_of_forall₂ {xs : List α} {ys : List β} (h : List.Forall₂ R xs ys) {x : α}
    (mem : x ∈ xs) : ∃ y ∈ ys, R x y := by
  induction h with
  | nil => cases mem
  | cons head _ ih =>
      rcases List.mem_cons.mp mem with rfl | mem
      · exact ⟨_, List.mem_cons_self, head⟩
      · obtain ⟨y, inside, related⟩ := ih mem
        exact ⟨y, List.mem_cons_of_mem _ inside, related⟩

theorem exists_mem_iff_of_forall₂ {P : α → Prop} {Q : β → Prop} {xs : List α} {ys : List β}
    (h : List.Forall₂ R xs ys) (agree : ∀ x y, R x y → (P x ↔ Q y)) :
    (∃ x ∈ xs, P x) ↔ ∃ y ∈ ys, Q y := by
  induction h with
  | nil => simp
  | cons head _ ih => simp [agree _ _ head, ih]

theorem forall₂_iff_of_forall₂ {S : α → β → Prop} {P : α → Prop} {xs : List α} {ys : List β}
    (h : List.Forall₂ R xs ys) (agree : ∀ x y, R x y → (S x y ↔ P x)) :
    List.Forall₂ S xs ys ↔ ∀ x ∈ xs, P x := by
  induction h with
  | nil => simp
  | cons head _ ih => simp [agree _ _ head, ih]

theorem Aligned.trans {xs : List α} {ys : List β} {zs : List γ} (h : Aligned R xs ys)
    (k : Aligned S ys zs) (compose : ∀ x y z, R x y → S y z → T x z) : Aligned T xs zs := by
  obtain ⟨outer, inner, rfl, related⟩ := aligned_iff_append.mp h
  obtain ⟨outer', inner', rfl, related'⟩ := aligned_iff_append.mp k
  have innermost := List.forall₂_drop outer.length related'
  rw [List.drop_left] at innermost
  refine aligned_iff_append.mpr
    ⟨outer' ++ inner'.take outer.length, inner'.drop outer.length, ?_,
      forall₂_trans related innermost compose⟩
  rw [List.append_assoc, List.take_append_drop]

end Aligned

/-! ### Dimensions -/

namespace Dim

/-- `dim` repeats along `target`: it is a constant extent of one, or the same. -/
def Fits (dim target : Dim) : Prop :=
  dim = .const 1 ∨ dim = target

theorem Fits.refl (dim : Dim) : dim.Fits dim := .inr rfl

theorem Fits.trans {a b c : Dim} (h : a.Fits b) (k : b.Fits c) : a.Fits c := by
  rcases h with unit | rfl
  · exact .inl unit
  · exact k

theorem Fits.antisymm {a b : Dim} (h : a.Fits b) (k : b.Fits a) : a = b := by
  rcases h with unit | same
  · rcases k with unit' | same
    · rw [unit, unit']
    · exact same.symm
  · exact same

theorem fits_of_broadcast {l r dim : Dim} (h : l.broadcast r = some dim) :
    l.Fits dim ∧ r.Fits dim := by
  unfold broadcast at h
  split_ifs at h with same unit unit' <;> cases h
  · exact ⟨.refl l, .inr same.symm⟩
  · exact ⟨.inl unit, .refl r⟩
  · exact ⟨.refl l, .inl unit'⟩

theorem exists_broadcast {l r target : Dim} (hl : l.Fits target) (hr : r.Fits target) :
    ∃ dim, l.broadcast r = some dim ∧ dim.Fits target := by
  by_cases same : l = r
  · exact ⟨l, by simp [broadcast, same], hl⟩
  · by_cases unit : l = .const 1
    · subst unit
      exact ⟨r, by simp [broadcast, same], hr⟩
    · -- Two different dimensions that are both below `target` are not both equal to it.
      have same' : l = target := hl.resolve_left unit
      have unit' : r = .const 1 := hr.resolve_right fun h => same (same'.trans h.symm)
      exact ⟨l, by simp [broadcast, unit, unit'], hl⟩

theorem broadcast_unit_left (dim : Dim) : (Dim.const 1).broadcast dim = some dim := by
  by_cases same : .const 1 = dim
  · rw [← same]
    rfl
  · simp [broadcast, same]

theorem broadcast_unit_right (dim : Dim) : dim.broadcast (.const 1) = some dim := by
  by_cases same : dim = .const 1
  · rw [same]
    rfl
  · simp [broadcast, same]

theorem aligned_of_broadcastAll {ls rs dims : List Dim} (h : broadcastAll ls rs = some dims) :
    Aligned Fits ls.reverse dims.reverse ∧ Aligned Fits rs.reverse dims.reverse := by
  fun_induction broadcastAll ls rs generalizing dims with
  | case1 rs =>
      cases h
      exact ⟨aligned_nil _, aligned_of_forall₂ (List.forall₂_same.mpr fun dim _ => .refl dim)⟩
  | case2 ls =>
      cases h
      exact ⟨aligned_of_forall₂ (List.forall₂_same.mpr fun dim _ => .refl dim), aligned_nil _⟩
  | case3 l ls r rs ih =>
      obtain ⟨dim, hdim, h⟩ := Option.bind_eq_some_iff.mp h
      obtain ⟨others, hothers, h⟩ := Option.bind_eq_some_iff.mp h
      cases h
      obtain ⟨hl, hr⟩ := fits_of_broadcast hdim
      obtain ⟨hls, hrs⟩ := ih hothers
      exact ⟨aligned_reverse_cons.mpr ⟨hl, hls⟩, aligned_reverse_cons.mpr ⟨hr, hrs⟩⟩

theorem exists_broadcastAll {ls rs targets : List Dim}
    (hl : Aligned Fits ls.reverse targets.reverse) (hr : Aligned Fits rs.reverse targets.reverse) :
    ∃ dims, broadcastAll ls rs = some dims ∧ Aligned Fits dims.reverse targets.reverse := by
  fun_induction broadcastAll ls rs generalizing targets with
  | case1 rs => exact ⟨rs, rfl, hr⟩
  | case2 ls => exact ⟨ls, rfl, hl⟩
  | case3 l ls r rs ih =>
      cases targets with
      | nil => exact absurd hl not_aligned_cons_nil
      | cons target targets =>
          obtain ⟨hl, hls⟩ := aligned_reverse_cons.mp hl
          obtain ⟨hr, hrs⟩ := aligned_reverse_cons.mp hr
          obtain ⟨dim, hdim, fits⟩ := exists_broadcast hl hr
          obtain ⟨dims, hdims, aligned⟩ := ih hls hrs
          exact ⟨dim :: dims, by simp [hdim, hdims], aligned_reverse_cons.mpr ⟨fits, aligned⟩⟩

/-- Broadcasting invents no dimension. -/
theorem mem_of_mem_broadcastAll {ls rs dims : List Dim} (h : broadcastAll ls rs = some dims)
    {dim : Dim} (mem : dim ∈ dims) : dim ∈ ls ∨ dim ∈ rs := by
  fun_induction broadcastAll ls rs generalizing dims with
  | case1 rs => cases h; exact .inr mem
  | case2 ls => cases h; exact .inl mem
  | case3 l ls r rs ih =>
      obtain ⟨first, hfirst, h⟩ := Option.bind_eq_some_iff.mp h
      obtain ⟨others, hothers, h⟩ := Option.bind_eq_some_iff.mp h
      cases h
      rcases List.mem_cons.mp mem with rfl | mem
      · unfold broadcast at hfirst
        split_ifs at hfirst <;> cases hfirst <;> simp
      · rcases ih hothers mem with mem | mem
        · exact .inl (List.mem_cons_of_mem _ mem)
        · exact .inr (List.mem_cons_of_mem _ mem)

end Dim

/-! ### Shapes -/

namespace Shape

@[simp] theorem retained_retained (shape : Shape) :
    (⟨shape.retained⟩ : Shape).retained = shape.retained := by
  simp [retained]

/-- The dimensions of `s` fit the last dimensions of `t`. -/
def BroadcastsTo (s t : Shape) : Prop :=
  Aligned Dim.Fits s.retained t.retained

theorem BroadcastsTo.of_retained_eq {s t : Shape} (h : s.retained = t.retained) :
    s.BroadcastsTo t := by
  rw [BroadcastsTo, h]
  exact aligned_of_forall₂ (List.forall₂_same.mpr fun dim _ => .refl dim)

theorem BroadcastsTo.refl (s : Shape) : s.BroadcastsTo s := .of_retained_eq rfl

theorem BroadcastsTo.trans {s t u : Shape} (h : s.BroadcastsTo t) (k : t.BroadcastsTo u) :
    s.BroadcastsTo u :=
  Aligned.trans h k fun _ _ _ => Dim.Fits.trans

theorem BroadcastsTo.rank_le {s t : Shape} (h : s.BroadcastsTo t) : s.rank ≤ t.rank := h.1

theorem BroadcastsTo.antisymm {s t : Shape} (h : s.BroadcastsTo t) (k : t.BroadcastsTo s) :
    s.retained = t.retained := by
  have same : s.retained.length = t.retained.length := Nat.le_antisymm h.1 k.1
  have below := h.2
  have above := k.2
  simp only [same, Nat.sub_self, List.drop_zero] at below above
  have equal := (forall₂_and below above.flip).imp fun _ _ fits => fits.1.antisymm fits.2
  rwa [List.forall₂_eq_eq_eq] at equal

/-- A broadcast has no elided dimension. -/
theorem retained_of_broadcast {s t u : Shape} (h : s.broadcast t = some u) :
    u.retained = u.dims := by
  obtain ⟨dims, hdims, rfl⟩ := Option.map_eq_some_iff.mp h
  refine List.filter_eq_self.mpr fun dim mem => ?_
  have retained : dim ≠ .elided := by
    rcases Dim.mem_of_mem_broadcastAll hdims (List.mem_reverse.mp mem) with mem | mem
    · exact ne_elided_of_mem_retained (List.mem_reverse.mp mem)
    · exact ne_elided_of_mem_retained (List.mem_reverse.mp mem)
  cases dim with
  | const extent => rfl
  | symbol name => rfl
  | elided => exact absurd rfl retained

/-- Both shapes broadcast to the answer of `broadcast`. -/
theorem broadcastsTo_of_broadcast {s t u : Shape} (h : s.broadcast t = some u) :
    s.BroadcastsTo u ∧ t.BroadcastsTo u := by
  have retained := retained_of_broadcast h
  obtain ⟨dims, hdims, rfl⟩ := Option.map_eq_some_iff.mp h
  simpa [BroadcastsTo, retained] using Dim.aligned_of_broadcastAll hdims

/-- If two shapes broadcast to a third one then `broadcast` answers, with a shape that broadcasts
to the third as well. -/
theorem exists_broadcast {s t target : Shape} (hs : s.BroadcastsTo target)
    (ht : t.BroadcastsTo target) :
    ∃ u, s.broadcast t = some u ∧ u.BroadcastsTo target := by
  rw [BroadcastsTo, ← s.retained.reverse_reverse, ← target.retained.reverse_reverse] at hs
  rw [BroadcastsTo, ← t.retained.reverse_reverse, ← target.retained.reverse_reverse] at ht
  obtain ⟨dims, hdims, aligned⟩ := Dim.exists_broadcastAll hs ht
  have answer : s.broadcast t = some ⟨dims.reverse⟩ := by simp [broadcast, hdims]
  refine ⟨_, answer, ?_⟩
  rw [BroadcastsTo, retained_of_broadcast answer]
  simpa using aligned

/-- The least shape to which all of the given ones broadcast. -/
def IsCommonBroadcast (shapes : List Shape) (common : Shape) : Prop :=
  (∀ s ∈ shapes, s.BroadcastsTo common) ∧
    ∀ t, (∀ s ∈ shapes, s.BroadcastsTo t) → common.BroadcastsTo t

theorem isCommonBroadcast_nil : IsCommonBroadcast [] scalar :=
  ⟨by simp, fun _ _ => aligned_nil _⟩

theorem isCommonBroadcast_singleton (s : Shape) : IsCommonBroadcast [s] s :=
  ⟨by simpa using BroadcastsTo.refl s, fun _ above => above s (by simp)⟩

theorem IsCommonBroadcast.append {shapes shapes' : List Shape} {s t u : Shape}
    (h : IsCommonBroadcast shapes s) (k : IsCommonBroadcast shapes' t)
    (answer : s.broadcast t = some u) : IsCommonBroadcast (shapes ++ shapes') u := by
  obtain ⟨hs, ht⟩ := broadcastsTo_of_broadcast answer
  refine ⟨fun r mem => ?_, fun target above => ?_⟩
  · rcases List.mem_append.mp mem with mem | mem
    · exact (h.1 r mem).trans hs
    · exact (k.1 r mem).trans ht
  · have hs' := h.2 target fun r mem => above r (List.mem_append_left _ mem)
    have ht' := k.2 target fun r mem => above r (List.mem_append_right _ mem)
    obtain ⟨u', answer', below⟩ := exists_broadcast hs' ht'
    rw [answer] at answer'
    cases answer'
    exact below

/-- Only the retained dimensions of a least shape matter. -/
theorem IsCommonBroadcast.congr {shapes : List Shape} {s t : Shape} (h : IsCommonBroadcast shapes s)
    (same : s.retained = t.retained) : IsCommonBroadcast shapes t := by
  constructor
  · intro r mem
    exact (h.1 r mem).trans (.of_retained_eq same)
  · intro target above
    exact (BroadcastsTo.of_retained_eq same.symm).trans (h.2 target above)

/-- Two least shapes have the same retained dimensions. -/
theorem IsCommonBroadcast.retained_eq {shapes : List Shape} {s t : Shape}
    (h : IsCommonBroadcast shapes s) (k : IsCommonBroadcast shapes t) :
    s.retained = t.retained :=
  (h.2 t k.1).antisymm (k.2 s h.1)

/-- Which shapes a least one is above, and not their order, decides it. -/
theorem IsCommonBroadcast.of_mem_iff {shapes shapes' : List Shape} {common : Shape}
    (h : IsCommonBroadcast shapes common) (same : ∀ s, s ∈ shapes' ↔ s ∈ shapes) :
    IsCommonBroadcast shapes' common := by
  constructor
  · intro s mem
    exact h.1 s ((same s).mp mem)
  · intro target above
    exact h.2 target fun s mem => above s ((same s).mpr mem)

/-! ### The laws of broadcasting -/

/-- A shape without elided dimensions is given by its retained ones. -/
theorem eq_of_retained_eq {s t : Shape} (hs : s.retained = s.dims) (ht : t.retained = t.dims)
    (same : s.retained = t.retained) : s = t := by
  cases s
  cases t
  rw [hs, ht] at same
  exact congrArg Shape.mk same

/-- Broadcasting answers with the least shape above both shapes, written without elided
dimensions. -/
theorem broadcast_eq_some_iff {s t u : Shape} :
    s.broadcast t = some u ↔ u.retained = u.dims ∧ IsCommonBroadcast [s, t] u := by
  constructor
  · intro answer
    exact ⟨retained_of_broadcast answer,
      (isCommonBroadcast_singleton s).append (isCommonBroadcast_singleton t) answer⟩
  · rintro ⟨flat, least⟩
    obtain ⟨v, answer, -⟩ := exists_broadcast (least.1 s (by simp)) (least.1 t (by simp))
    have least' : IsCommonBroadcast [s, t] v :=
      (isCommonBroadcast_singleton s).append (isCommonBroadcast_singleton t) answer
    rw [answer, eq_of_retained_eq (retained_of_broadcast answer) flat (least'.retained_eq least)]

/-- Broadcasting twice answers with the least shape above three. -/
theorem broadcast_bind_eq_some_iff {s t u v : Shape} :
    ((s.broadcast t).bind fun st => st.broadcast u) = some v ↔
      v.retained = v.dims ∧ IsCommonBroadcast [s, t, u] v := by
  have chain {w x : Shape} (first : s.broadcast t = some w) (second : w.broadcast u = some x) :
      IsCommonBroadcast [s, t, u] x :=
    (broadcast_eq_some_iff.mp first).2.append (isCommonBroadcast_singleton u) second
  constructor
  · intro answer
    obtain ⟨w, first, second⟩ := Option.bind_eq_some_iff.mp answer
    exact ⟨retained_of_broadcast second, chain first second⟩
  · rintro ⟨flat, least⟩
    obtain ⟨w, first, below⟩ := exists_broadcast (least.1 s (by simp)) (least.1 t (by simp))
    obtain ⟨x, second, -⟩ := exists_broadcast below (least.1 u (by simp))
    have same := (chain first second).retained_eq least
    rw [first, Option.bind_some, second,
      eq_of_retained_eq (retained_of_broadcast second) flat same]

theorem broadcast_comm (s t : Shape) : s.broadcast t = t.broadcast s := by
  apply Option.ext
  intro u
  rw [broadcast_eq_some_iff, broadcast_eq_some_iff]
  have swapped : ∀ {a b : Shape}, IsCommonBroadcast [a, b] u → IsCommonBroadcast [b, a] u := by
    intro a b least
    refine least.of_mem_iff fun r => ?_
    simp only [List.mem_cons, List.not_mem_nil, or_false]
    exact or_comm
  exact and_congr_right fun _ => ⟨swapped, swapped⟩

/-- **Broadcasting is associative, failures included**: if one order of three shapes fails then so
does the other. -/
theorem broadcast_assoc (s t u : Shape) :
    ((s.broadcast t).bind fun st => st.broadcast u) = (t.broadcast u).bind s.broadcast := by
  have turned : (t.broadcast u).bind s.broadcast = (t.broadcast u).bind fun tu => tu.broadcast s :=
    congrArg _ (funext fun tu => broadcast_comm s tu)
  apply Option.ext
  intro v
  rw [turned, broadcast_bind_eq_some_iff, broadcast_bind_eq_some_iff]
  -- Both sides are the least shape above the same three shapes, listed from another one on.
  refine and_congr_right fun _ => ⟨fun least => ?_, fun least => ?_⟩
  · refine least.of_mem_iff fun r => ?_
    simp only [List.mem_cons, List.not_mem_nil, or_false]
    tauto
  · refine least.of_mem_iff fun r => ?_
    simp only [List.mem_cons, List.not_mem_nil, or_false]
    tauto

/-- A shape is above the scalar shape and itself, so broadcasting with either drops its elided
dimensions and does nothing else. -/
theorem broadcast_of_broadcastsTo {s t : Shape} (below : t.BroadcastsTo s) :
    s.broadcast t = some ⟨s.retained⟩ := by
  have same : (Shape.mk s.retained).retained = s.retained := s.retained_retained
  refine broadcast_eq_some_iff.mpr ⟨same, ?_, ?_⟩
  · intro r mem
    simp only [List.mem_cons, List.not_mem_nil, or_false] at mem
    rcases mem with rfl | rfl
    · exact .of_retained_eq same.symm
    · exact below.trans (.of_retained_eq same.symm)
  · intro target above
    exact (BroadcastsTo.of_retained_eq same).trans (above s (by simp))

/-- **Broadcasting is the join of shapes.** It answers exactly if some shape is above both of its
arguments, and then with the least such shape, which has no elided dimension. Hence it is
commutative and associative, failures included, and a shape broadcast with itself or with the scalar
shape keeps its retained dimensions. -/
theorem broadcast_isLeast (s t : Shape) :
    ((s.broadcast t).isSome ↔ ∃ target, s.BroadcastsTo target ∧ t.BroadcastsTo target) ∧
      (∀ u, s.broadcast t = some u →
        (∀ dim ∈ u.dims, dim ≠ .elided) ∧ s.BroadcastsTo u ∧ t.BroadcastsTo u ∧
          ∀ target, s.BroadcastsTo target → t.BroadcastsTo target → u.BroadcastsTo target) ∧
      s.broadcast t = t.broadcast s ∧
      (∀ u, ((s.broadcast t).bind fun st => st.broadcast u) = (t.broadcast u).bind s.broadcast) ∧
      s.broadcast s = some ⟨s.retained⟩ ∧
      s.broadcast .scalar = some ⟨s.retained⟩ ∧
      Shape.scalar.broadcast s = some ⟨s.retained⟩ := by
  have identity : s.broadcast .scalar = some ⟨s.retained⟩ :=
    broadcast_of_broadcastsTo (aligned_nil _)
  refine ⟨?_, ?_, broadcast_comm s t, broadcast_assoc s t,
    broadcast_of_broadcastsTo (.refl s), identity, broadcast_comm .scalar s ▸ identity⟩
  · constructor
    · intro answers
      obtain ⟨u, answer⟩ := Option.isSome_iff_exists.mp answers
      exact ⟨u, broadcastsTo_of_broadcast answer⟩
    · rintro ⟨target, hs, ht⟩
      obtain ⟨u, answer, -⟩ := exists_broadcast hs ht
      exact Option.isSome_iff_exists.mpr ⟨u, answer⟩
  · intro u answer
    obtain ⟨flat, above, least⟩ := broadcast_eq_some_iff.mp answer
    refine ⟨?_, above s (by simp), above t (by simp), ?_⟩
    · intro dim mem
      rw [← flat] at mem
      exact ne_elided_of_mem_retained mem
    · intro target hs ht
      refine least target fun r mem => ?_
      simp only [List.mem_cons, List.not_mem_nil, or_false] at mem
      rcases mem with rfl | rfl
      · exact hs
      · exact ht

/-- A column of four and a row of `N` broadcast to four rows of `N`, the least shape above both. A
row of one after them changes nothing, whichever two of the three come first. -/
theorem broadcast_isLeast_table :
    (Shape.mk [.const 4, .const 1]).broadcast ⟨[.elided, .symbol "N"]⟩ =
        some ⟨[.const 4, .symbol "N"]⟩ ∧
      (Shape.mk [.const 4, .symbol "N"]).BroadcastsTo ⟨[.const 2, .const 4, .symbol "N"]⟩ ∧
      ((Shape.mk [.elided, .symbol "N"]).broadcast ⟨[.const 1]⟩).bind
        (Shape.broadcast ⟨[.const 4, .const 1]⟩) = some ⟨[.const 4, .symbol "N"]⟩ := by
  have answer : (Shape.mk [.const 4, .const 1]).broadcast ⟨[.elided, .symbol "N"]⟩ =
      some ⟨[.const 4, .symbol "N"]⟩ := by decide
  obtain ⟨-, least, -, assoc, -⟩ :=
    broadcast_isLeast ⟨[.const 4, .const 1]⟩ ⟨[.elided, .symbol "N"]⟩
  refine ⟨answer, (least _ answer).2.2.2 _ ⟨by decide, ?_⟩ ⟨by decide, ?_⟩, ?_⟩
  · exact .cons (.inr rfl) (.cons (.inl rfl) .nil)
  · exact .cons (.inr rfl) .nil
  · rw [← assoc, answer]
    decide

end Shape

end ArrayKernel
