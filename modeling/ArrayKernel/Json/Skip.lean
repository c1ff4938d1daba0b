import ArrayKernel.Json.Lexeme
import ArrayKernel.Json.Number
import ArrayKernel.Json.Quoted

/-!
Skipping a JSON value that nobody asked for. The value must be well formed, but it may be nested
to any depth: the open containers are kept in a list.
-/

namespace ArrayKernel.Json

/-- Skips a word, a quoted text or a number; a number that is cut off is malformed. -/
def skipLeaf (s : List Char) : Except Problem (List Char) :=
  match s with
  | [] => .error .truncated
  | 'n' :: t => scanWord ['u', 'l', 'l'] t
  | 't' :: t => scanWord ['r', 'u', 'e'] t
  | 'f' :: t => scanWord ['a', 'l', 's', 'e'] t
  | '"' :: t => skipQuoted t
  | s =>
      if startsNumber s then
        match scanNumber s with
        | .ok (_, t) => .ok t
        | .error _ => .error .malformed
      else .error .malformed

theorem length_lt_of_skipLeaf {s t : List Char} (h : skipLeaf s = .ok t) :
    t.length < s.length := by
  unfold skipLeaf at h
  split at h
  · simp at h
  · exact Nat.lt_succ_of_le (length_le_of_scanWord h)
  · exact Nat.lt_succ_of_le (length_le_of_scanWord h)
  · exact Nat.lt_succ_of_le (length_le_of_scanWord h)
  · exact Nat.lt_succ_of_lt (length_lt_of_skipQuoted h)
  · split at h
    · split at h
      · next inner =>
        simp only [Except.ok.injEq] at h
        exact h ▸ length_lt_of_scanNumber inner
      · simp at h
    · simp at h

/-- The kinds of containers. -/
inductive Container where
  | list | object
deriving DecidableEq, Repr

def Container.closing : Container → Char
  | .list => ']'
  | .object => '\x7d'

/-- Skips what stands before an item of a container: nothing in a list, and a key with its colon
in an object. -/
def Container.skipKey (container : Container) (s : List Char) : Except Problem (List Char) :=
  match container with
  | .list => .ok s
  | .object =>
      match skipBlanks s with
      | [] => .error .truncated
      | c :: t =>
          if c = '"' then
            match skipQuoted t with
            | .error problem => .error problem
            | .ok u => scanColon u
          else .error .malformed

theorem Container.length_le_of_skipKey {container : Container} {s t : List Char}
    (h : container.skipKey s = .ok t) : t.length ≤ s.length := by
  unfold skipKey at h
  split at h
  · simp_all
  · split at h
    · simp at h
    · next c u found =>
      split at h
      · split at h
        · simp at h
        · next v quoted =>
          have := length_lt_of_skipBlanks found
          have := length_lt_of_skipQuoted quoted
          have := length_lt_of_scanColon h
          omega
      · simp at h

/-- Where a text is, with regard to the innermost open container. -/
inductive Place where
  /-- Before a value. -/
  | value
  /-- After the opening bracket. -/
  | opened
  /-- After a value. -/
  | closed
deriving DecidableEq, Repr

/-- Skips the rest of a value, up to the end of the outermost one of the open containers. -/
def skipRest (place : Place) (stack : List Container) (s : List Char) :
    Except Problem (List Char) :=
  match place, stack with
  | .value, stack =>
      match _found : skipBlanks s with
      | '[' :: t => skipRest .opened (.list :: stack) t
      | '\x7b' :: t => skipRest .opened (.object :: stack) t
      | u =>
          match _leaf : skipLeaf u with
          | .error problem => .error problem
          | .ok t => skipRest .closed stack t
  | .opened, [] => .error .malformed
  | .opened, container :: outer =>
      match _found : skipBlanks s with
      | [] => .error .truncated
      | c :: t =>
          if c = container.closing then skipRest .closed outer t
          else
            match _key : container.skipKey (c :: t) with
            | .error problem => .error problem
            | .ok u => skipRest .value (container :: outer) u
  | .closed, [] => .ok s
  | .closed, container :: outer =>
      match _found : skipBlanks s with
      | [] => .error .truncated
      | c :: t =>
          if c = ',' then
            match _key : container.skipKey t with
            | .error problem => .error problem
            | .ok u => skipRest .value (container :: outer) u
          else if c = container.closing then skipRest .closed outer t
          else .error .malformed
termination_by 2 * s.length + (if place = .opened then 1 else 0)
decreasing_by
  · have := length_lt_of_skipBlanks _found
    simp
    omega
  · have := length_lt_of_skipBlanks _found
    simp
    omega
  · have := length_lt_of_skipLeaf _leaf
    have := length_skipBlanks_le s
    rw [_found] at this
    simp
    omega
  · have := length_lt_of_skipBlanks _found
    simp
    omega
  · have := Container.length_le_of_skipKey _key
    have := length_lt_of_skipBlanks _found
    simp only [List.length_cons] at *
    simp
    omega
  · have := Container.length_le_of_skipKey _key
    have := length_lt_of_skipBlanks _found
    simp
    omega
  · have := length_lt_of_skipBlanks _found
    simp
    omega

/-- Skips a value. -/
def skipValue (s : List Char) : Except Problem (List Char) :=
  skipRest .value [] s

/-- What is left after a step from one place to another. -/
theorem length_le_of_step {place place' : Place} {s t u : List Char}
    (later : t.length + (if place' = .closed then 0 else 1) ≤ u.length)
    (step : u.length < s.length) : t.length + (if place = .closed then 0 else 1) ≤ s.length := by
  split at later <;> split <;> omega

theorem length_le_of_skipRest {place : Place} {stack : List Container} {s t : List Char}
    (h : skipRest place stack s = .ok t) :
    t.length + (if place = .closed then 0 else 1) ≤ s.length := by
  fun_induction skipRest place stack s generalizing t with
  | case1 s stack u found ih => exact length_le_of_step (ih h) (length_lt_of_skipBlanks found)
  | case2 s stack u found ih => exact length_le_of_step (ih h) (length_lt_of_skipBlanks found)
  | case4 s stack _ _ u leaf ih =>
    exact length_le_of_step (ih h)
      (Nat.lt_of_lt_of_le (length_lt_of_skipLeaf leaf) (length_skipBlanks_le s))
  | case7 s container outer u found ih =>
    exact length_le_of_step (ih h) (length_lt_of_skipBlanks found)
  | case9 s container outer c u found _ v key ih =>
    -- A key may be empty, but a value has still to come.
    have shorter := Container.length_le_of_skipKey key
    rw [← found] at shorter
    exact Nat.le_trans (ih h) (Nat.le_trans shorter (length_skipBlanks_le s))
  | case10 =>
    simp only [Except.ok.injEq] at h
    simp [h]
  | case13 s container outer u v key found ih =>
    exact length_le_of_step (ih h)
      (Nat.lt_of_le_of_lt (Container.length_le_of_skipKey key) (length_lt_of_skipBlanks found))
  | case14 s container outer u found _ ih =>
    exact length_le_of_step (ih h) (length_lt_of_skipBlanks found)
  | _ => simp at h

theorem length_lt_of_skipValue {s t : List Char} (h : skipValue s = .ok t) :
    t.length < s.length := by
  exact length_le_of_skipRest h

end ArrayKernel.Json
