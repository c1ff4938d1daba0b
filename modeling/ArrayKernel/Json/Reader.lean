import ArrayKernel.Json.Lexeme
import ArrayKernel.Json.Number
import ArrayKernel.Json.Quoted

/-!
Readers of typed values. A reader takes a text from left to right against what is expected, and
the first problem it meets is the answer. It is told how many brackets may still be opened, and it
always consumes something, so that lists of anything can be read.
-/

namespace ArrayKernel.Json

/-- Reads a value of type `α` from the front of a text in which `depth` more brackets may be
opened, and returns it with the rest of the text. -/
structure Reader (α : Type) where
  run : (depth : Nat) → List Char → Except Problem (α × List Char)
  progress : ∀ {depth s a t}, run depth s = .ok (a, t) → t.length < s.length

namespace Reader

variable {α β : Type}

/-- A reader that accepts nothing. -/
def refuse : Reader α where
  run _ _ := .error .malformed
  progress := by simp

/-- Reads a value that stands for another one; one that stands for nothing is out of place. -/
def refine (r : Reader α) (f : α → Option β) : Reader β where
  run depth s :=
    match r.run depth s with
    | .error problem => .error problem
    | .ok (a, t) =>
        match f a with
        | some b => .ok (b, t)
        | none => .error .mistyped
  progress := by
    intro depth s b t h
    split at h
    · simp at h
    · next inner =>
      split at h
      · simp only [Except.ok.injEq, Prod.mk.injEq] at h
        exact h.2 ▸ r.progress inner
      · simp at h

/-- Reads a value and converts it. -/
def map (f : α → β) (r : Reader α) : Reader β :=
  r.refine fun a => some (f a)

/-! ### Leaves -/

/-- What is wrong where another kind of value is expected: a leaf must still be well formed. -/
def mismatch (s : List Char) : Problem :=
  let after {δ : Type} : Except Problem δ → Problem
    | .ok _ => .mistyped
    | .error problem => problem
  match s with
  | [] => .truncated
  | 'n' :: t => after (scanWord ['u', 'l', 'l'] t)
  | 't' :: t => after (scanWord ['r', 'u', 'e'] t)
  | 'f' :: t => after (scanWord ['a', 'l', 's', 'e'] t)
  | '"' :: t => after (scanQuoted t)
  | '[' :: _ => .mistyped
  | '\x7b' :: _ => .mistyped
  | s => if startsNumber s then after (scanNumeral s) else .malformed

/-- Reads a leaf: `scan` is given the text without leading blanks, and answers nothing if another
kind of value is there. -/
def leaf (scan : List Char → Option (Except Problem (α × List Char)))
    (shorter : ∀ {s a t}, scan s = some (.ok (a, t)) → t.length < s.length) : Reader α where
  run _ s :=
    match scan (skipBlanks s) with
    | some result => result
    | none => .error (mismatch (skipBlanks s))
  progress := by
    intro _ s a t h
    split at h
    · next found => exact Nat.lt_of_lt_of_le (shorter (h ▸ found)) (length_skipBlanks_le s)
    · simp at h

/-- A quoted text. -/
def string : Reader String :=
  (leaf (fun
    | '"' :: s => some (scanQuoted s)
    | _ => none) (by
      intro s a t h
      split at h
      · simp only [Option.some.injEq] at h
        exact Nat.lt_succ_of_lt (length_lt_of_scanQuoted h)
      · simp at h)).map String.ofList

/-- A number of either kind. -/
def numeral : Reader Numeral :=
  leaf (fun s => if startsNumber s then some (scanNumeral s) else none) (by
    intro s a t h
    split at h
    · simp only [Option.some.injEq] at h
      exact length_lt_of_scanNumeral h
    · simp at h)

/-- A word that stands for a value. -/
def scanConst (word : List Char) (a : α) (s : List Char) : Except Problem (α × List Char) :=
  match scanWord word s with
  | .error problem => .error problem
  | .ok t => .ok (a, t)

theorem length_le_of_scanConst {word s t : List Char} {a b : α}
    (h : scanConst word a s = .ok (b, t)) : t.length ≤ s.length := by
  unfold scanConst at h
  split at h
  · simp at h
  · next inner =>
    simp only [Except.ok.injEq, Prod.mk.injEq] at h
    exact h.2 ▸ length_le_of_scanWord inner

/-- A truth value. -/
def bool : Reader Bool :=
  leaf (fun
    | 't' :: s => some (scanConst ['r', 'u', 'e'] true s)
    | 'f' :: s => some (scanConst ['a', 'l', 's', 'e'] false s)
    | _ => none) (by
      intro s a t h
      split at h
      · simp only [Option.some.injEq] at h
        exact Nat.lt_succ_of_le (length_le_of_scanConst h)
      · simp only [Option.some.injEq] at h
        exact Nat.lt_succ_of_le (length_le_of_scanConst h)
      · simp at h)

/-- A null. -/
def null : Reader Unit :=
  leaf (fun
    | 'n' :: s => some (scanConst ['u', 'l', 'l'] () s)
    | _ => none) (by
      intro s a t h
      split at h
      · simp only [Option.some.injEq] at h
        exact Nat.lt_succ_of_le (length_le_of_scanConst h)
      · simp at h)

/-- An integer of 64 bits with a sign. -/
def int64 : Reader Int64 :=
  numeral.refine fun
    | .int n => if n < Nat.pow 2 63 then some (Int64.ofInt n) else none
    | .real _ => none

/-- An integer of 64 bits without a sign. -/
def uint64 : Reader UInt64 :=
  numeral.refine fun
    | .int n => if 0 ≤ n then some (UInt64.ofNat n.toNat) else none
    | .real _ => none

/-- A floating-point number; an integer stands for the nearest one. -/
def real : Reader Binary64 :=
  numeral.refine fun
    | .int n => some (.ofMagnitude (n < 0) (Binary64.nearest n.natAbs 1))
    | .real x => some x

/-- A value or a null. -/
def nullable (r : Reader α) : Reader (Option α) where
  run depth s :=
    match skipBlanks s with
    | 'n' :: t => scanConst ['u', 'l', 'l'] none t
    | _ =>
        match r.run depth s with
        | .error problem => .error problem
        | .ok (a, t) => .ok (some a, t)
  progress := by
    intro depth s a t h
    split at h
    · next found =>
      exact Nat.lt_of_le_of_lt (length_le_of_scanConst h) (length_lt_of_skipBlanks found)
    · split at h
      · simp at h
      · next inner =>
        simp only [Except.ok.injEq, Prod.mk.injEq] at h
        exact h.2 ▸ r.progress inner

/-! ### Lists -/

/-- Goes to the next item of a list, past the comma unless it is the first one: either an item
starts at the rest, or the list has been closed. -/
def nextItem (first : Bool) (s : List Char) : Except Problem (Bool × List Char) :=
  match skipBlanks s with
  | [] => .error .truncated
  | c :: t =>
      if c = ']' then .ok (false, t)
      else if first then .ok (true, c :: t)
      else if c = ',' then
        match skipBlanks t with
        | [] => .error .truncated
        | d :: u => if d = ']' then .error .malformed else .ok (true, d :: u)
      else .error .malformed

theorem length_le_of_nextItem {first item : Bool} {s t : List Char}
    (h : nextItem first s = .ok (item, t)) :
    t.length + (if item then 0 else 1) ≤ s.length := by
  unfold nextItem at h
  split at h
  · simp at h
  · next c u found =>
    have shorter := Nat.succ_le_of_lt (length_lt_of_skipBlanks found)
    split at h
    · simp only [Except.ok.injEq, Prod.mk.injEq] at h
      rw [← h.1, ← h.2]
      simpa using shorter
    · split at h
      · simp only [Except.ok.injEq, Prod.mk.injEq] at h
        rw [← h.1, ← h.2]
        simpa using shorter
      · split at h
        · split at h
          · simp at h
          · next d v found' =>
            have := length_lt_of_skipBlanks found'
            split at h
            · simp at h
            · simp only [Except.ok.injEq, Prod.mk.injEq] at h
              rw [← h.1, ← h.2]
              simp only [if_true, Nat.add_zero, List.length_cons]
              omega
        · simp at h

/-- Reads the items of a list up to its end. -/
def items (r : Reader α) (depth : Nat) (first : Bool) (s : List Char) :
    Except Problem (List α × List Char) :=
  match step : nextItem first s with
  | .error problem => .error problem
  | .ok (false, t) => .ok ([], t)
  | .ok (true, t) =>
      match item : r.run depth t with
      | .error problem => .error problem
      | .ok (a, u) =>
          have : u.length < s.length := by
            have := length_le_of_nextItem step
            have := r.progress item
            simp at *
            omega
          match items r depth false u with
          | .error problem => .error problem
          | .ok (others, v) => .ok (a :: others, v)
termination_by s.length

theorem length_lt_of_items {r : Reader α} {depth : Nat} {first : Bool} {s t : List Char}
    {values : List α} (h : items r depth first s = .ok (values, t)) : t.length < s.length := by
  fun_induction items r depth first s generalizing values t with
  | case1 => simp at h
  | case2 first s u step =>
    simp only [Except.ok.injEq, Prod.mk.injEq] at h
    have := length_le_of_nextItem step
    simp at this
    rw [← h.2]
    omega
  | case3 => simp at h
  | case4 => simp at h
  | case5 first s u step a v item shorter others w inner ih =>
    simp only [Except.ok.injEq, Prod.mk.injEq] at h
    have := ih inner
    rw [← h.2]
    omega

/-- A list of any length. -/
def list (r : Reader α) : Reader (List α) where
  run depth s :=
    match skipBlanks s with
    | '[' :: t =>
        match depth with
        | 0 => .error .malformed
        | depth + 1 => items r depth true t
    | t => .error (mismatch t)
  progress := by
    intro depth s a t h
    split at h
    · next found =>
      split at h
      · simp at h
      · exact Nat.lt_trans (length_lt_of_items h) (length_lt_of_skipBlanks found)
    · simp at h

/-- How many brackets may be open at a time. -/
def maxDepth : Nat := 127

end Reader

end ArrayKernel.Json
