import ArrayKernel.Json.Library
import ArrayKernel.Json.Reader

/-!
Readers of values that come in several variants, each known by its name.
-/

namespace ArrayKernel.Json.Reader

variable {α : Type}

/-- Reads what a variant holds, as the only field of an object. -/
def runCase (case : Case Reader α) (depth : Nat) (s : List Char) : Except Problem (α × List Char) :=
  match case with
  | .constant value => (null.map fun _ => value).run depth s
  | .content reader => reader.run depth s

theorem length_lt_of_runCase {case : Case Reader α} {depth : Nat} {s t : List Char} {a : α}
    (h : runCase case depth s = .ok (a, t)) : t.length < s.length := by
  cases case with
  | constant value => exact (null.map fun _ => value).progress h
  | content reader => exact reader.progress h

/-- Closes an object after its only field. -/
def closeObject (result : Except Problem (α × List Char)) : Except Problem (α × List Char) :=
  match result with
  | .error problem => .error problem
  | .ok (a, s) =>
      match skipBlanks s with
      | [] => .error .truncated
      | c :: t => if c = '\x7d' then .ok (a, t) else .error .malformed

theorem length_lt_of_closeObject {result : Except Problem (α × List Char)} {a : α} {t : List Char}
    (h : closeObject result = .ok (a, t)) : ∃ s, result = .ok (a, s) ∧ t.length < s.length := by
  unfold closeObject at h
  split at h
  · simp at h
  · next b s =>
    split at h
    · simp at h
    · next found =>
      split at h
      · simp only [Except.ok.injEq, Prod.mk.injEq] at h
        exact ⟨s, by rw [h.1], h.2 ▸ length_lt_of_skipBlanks found⟩
      · simp at h

/-- Reads the name, the colon and the contents of a variant in an object. -/
def variantField (cases : String → Option (Case Reader α)) (depth : Nat) (s : List Char) :
    Except Problem (α × List Char) :=
  match scanKey s with
  | .error problem => .error problem
  | .ok (tag, t) =>
      match cases tag with
      | none => .error .mistyped
      | some case =>
          match scanColon t with
          | .error problem => .error problem
          | .ok u => runCase case depth u

theorem length_lt_of_variantField {cases : String → Option (Case Reader α)} {depth : Nat}
    {s t : List Char} {a : α} (h : variantField cases depth s = .ok (a, t)) :
    t.length < s.length := by
  unfold variantField at h
  split at h
  · simp at h
  · next key =>
    split at h
    · simp at h
    · split at h
      · simp at h
      · next colon =>
        have := length_lt_of_scanKey key
        have := length_lt_of_scanColon colon
        have := length_lt_of_runCase h
        omega

/-- A value of one of several variants: an object with one field, whose key is the variant's name,
or the bare name of a variant without contents. -/
def variant (cases : String → Option (Case Reader α)) : Reader α where
  run depth s :=
    match skipBlanks s with
    | [] => .error .truncated
    | '\x7b' :: t =>
        match depth with
        | 0 => .error .malformed
        | depth + 1 => closeObject (variantField cases depth t)
    | '"' :: t =>
        match scanQuoted t with
        | .error problem => .error problem
        | .ok (tag, u) =>
            match cases (String.ofList tag) with
            | some (.constant value) => .ok (value, u)
            | _ => .error .mistyped
    | _ => .error .malformed
  progress := by
    intro depth s a t h
    split at h
    · simp at h
    · next found =>
      split at h
      · simp at h
      · obtain ⟨u, field, closed⟩ := length_lt_of_closeObject h
        have := length_lt_of_variantField field
        have := length_lt_of_skipBlanks found
        omega
    · next found =>
      split at h
      · simp at h
      · next quoted =>
        split at h
        · simp only [Except.ok.injEq, Prod.mk.injEq] at h
          rw [← h.2]
          exact Nat.lt_trans (length_lt_of_scanQuoted quoted) (length_lt_of_skipBlanks found)
        · simp at h
    · simp at h

end ArrayKernel.Json.Reader
