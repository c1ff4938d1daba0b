import ArrayKernel.Json.Reader
import ArrayKernel.Json.Skip

/-!
Readers of records. A draft of the record is filled slot by slot, either in order from a list or
in any order from an object.
-/

namespace ArrayKernel.Json

/-- A part of a record that is put together in a draft of type `σ`: its key, whether the draft
has it already, and how it is read into the draft. -/
structure Slot (σ : Type) where
  key : String
  filled : σ → Bool
  read : σ → Reader σ

/-- A record of type `α`: its slots in order, the empty draft, and the record that a draft stands
for, if no slot is missing. -/
structure Fields (α : Type) where
  Draft : Type
  slots : List (Slot Draft)
  empty : Draft
  finish : Draft → Option α

namespace Fields

variable {α β σ : Type}

/-- Fills the slots in order from a list that has just been opened, and closes the list. -/
def fillList (depth : Nat) : (first : Bool) → List (Slot σ) → σ → List Char →
    Except Problem (σ × List Char)
  | _, [], draft, s =>
      match skipBlanks s with
      | [] => .error .truncated
      | c :: t => if c = ']' then .ok (draft, t) else .error .malformed
  | first, slot :: slots, draft, s =>
      match Reader.nextItem first s with
      | .error problem => .error problem
      | .ok (false, _) => .error .mistyped
      | .ok (true, t) =>
          match (slot.read draft).run depth t with
          | .error problem => .error problem
          | .ok (draft, u) => fillList depth false slots draft u

theorem length_lt_of_fillList {depth : Nat} {first : Bool} {slots : List (Slot σ)}
    {draft draft' : σ} {s t : List Char}
    (h : fillList depth first slots draft s = .ok (draft', t)) : t.length < s.length := by
  fun_induction fillList depth first slots draft s generalizing draft' t with
  | case1 => simp at h
  | case2 first draft s u found =>
    simp only [Except.ok.injEq, Prod.mk.injEq] at h
    exact h.2 ▸ length_lt_of_skipBlanks found
  | case3 => simp at h
  | case4 => simp at h
  | case5 => simp at h
  | case6 => simp at h
  | case7 first slot slots draft s u step draft'' v read ih =>
    have := Reader.length_le_of_nextItem step
    have := (slot.read draft).progress read
    have := ih h
    simp at *
    omega

/-- Goes to the next key of an object, past the comma unless it is the first one: either a key
has been read, or the object has been closed. -/
def nextKey (first : Bool) (s : List Char) : Except Problem (Option String × List Char) :=
  let key (t : List Char) : Except Problem (Option String × List Char) :=
    match scanKey t with
    | .error problem => .error problem
    | .ok (key, u) => .ok (some key, u)
  match skipBlanks s with
  | [] => .error .truncated
  | c :: t =>
      if c = '\x7d' then .ok (none, t)
      else if first then key (c :: t)
      else if c = ',' then key t
      else .error .malformed

theorem length_lt_of_nextKey {first : Bool} {key : Option String} {s t : List Char}
    (h : nextKey first s = .ok (key, t)) : t.length < s.length := by
  unfold nextKey at h
  split at h
  · simp at h
  · next c u found =>
    have shorter := length_lt_of_skipBlanks found
    split at h
    · simp only [Except.ok.injEq, Prod.mk.injEq] at h
      exact h.2 ▸ shorter
    · split at h
      · dsimp only at h
        split at h
        · simp at h
        · next scanned =>
          simp only [Except.ok.injEq, Prod.mk.injEq] at h
          have := length_lt_of_scanKey scanned
          rw [List.length_cons] at this
          rw [← h.2]
          omega
      · split at h
        · dsimp only at h
          split at h
          · simp at h
          · next scanned =>
            simp only [Except.ok.injEq, Prod.mk.injEq] at h
            have := length_lt_of_scanKey scanned
            rw [← h.2]
            omega
        · simp at h

/-- Fills the slots from an object that has just been opened, and closes the object. Keys that
belong to no slot are skipped with their values. -/
def fillObject (slots : List (Slot σ)) (depth : Nat) (first : Bool) (draft : σ) (s : List Char) :
    Except Problem (σ × List Char) :=
  match step : nextKey first s with
  | .error problem => .error problem
  | .ok (none, t) => .ok (draft, t)
  | .ok (some key, t) =>
      match slots.find? fun slot => slot.key == key with
      | none =>
          match colon : scanColon t with
          | .error problem => .error problem
          | .ok u =>
              match skip : skipValue u with
              | .error problem => .error problem
              | .ok v =>
                  have : v.length < s.length := by
                    have := length_lt_of_nextKey step
                    have := length_lt_of_scanColon colon
                    have := length_lt_of_skipValue skip
                    omega
                  fillObject slots depth false draft v
      | some slot =>
          if slot.filled draft then .error .mistyped
          else
            match colon : scanColon t with
            | .error problem => .error problem
            | .ok u =>
                match read : (slot.read draft).run depth u with
                | .error problem => .error problem
                | .ok (draft', v) =>
                    have : v.length < s.length := by
                      have := length_lt_of_nextKey step
                      have := length_lt_of_scanColon colon
                      have := (slot.read draft).progress read
                      omega
                    fillObject slots depth false draft' v
termination_by s.length

theorem length_lt_of_fillObject {slots : List (Slot σ)} {depth : Nat} {first : Bool}
    {draft draft' : σ} {s t : List Char}
    (h : fillObject slots depth first draft s = .ok (draft', t)) : t.length < s.length := by
  fun_induction fillObject slots depth first draft s generalizing draft' t with
  | case2 first draft s u step =>
    simp only [Except.ok.injEq, Prod.mk.injEq] at h
    exact h.2 ▸ length_lt_of_nextKey step
  | case5 _ _ _ _ _ _ _ _ _ _ _ shorter ih => exact Nat.lt_trans (ih h) shorter
  | case9 _ _ _ _ _ _ _ _ _ _ _ _ _ _ shorter ih => exact Nat.lt_trans (ih h) shorter
  | _ => simp at h

/-- Completes a draft; a missing slot makes the record one of another kind. -/
def complete (fields : Fields α) :
    Except Problem (fields.Draft × List Char) → Except Problem (α × List Char)
  | .error problem => .error problem
  | .ok (draft, t) =>
      match fields.finish draft with
      | some a => .ok (a, t)
      | none => .error .mistyped

theorem complete_eq_ok {fields : Fields α} {result : Except Problem (fields.Draft × List Char)}
    {a : α} {t : List Char} (h : fields.complete result = .ok (a, t)) :
    ∃ draft, result = .ok (draft, t) ∧ fields.finish draft = some a := by
  unfold complete at h
  split at h
  · simp at h
  · next draft u =>
    split at h
    · next finished =>
      simp only [Except.ok.injEq, Prod.mk.injEq] at h
      exact ⟨draft, by rw [h.2], h.1 ▸ finished⟩
    · simp at h

/-- The record of one part. -/
def single (key : String) (r : Reader α) : Fields α where
  Draft := Option α
  slots := [⟨key, (·.isSome), fun _ => r.map some⟩]
  empty := none
  finish := id

/-- The record with one more part in front. -/
def cons (key : String) (r : Reader α) (fields : Fields β) : Fields (α × β) where
  Draft := Option α × fields.Draft
  slots :=
    ⟨key, (·.1.isSome), fun draft => r.map fun a => (some a, draft.2)⟩ ::
      fields.slots.map fun slot =>
        ⟨slot.key, (slot.filled ·.2), fun draft => (slot.read draft.2).map fun b => (draft.1, b)⟩
  empty := (none, fields.empty)
  finish := fun (a, draft) => do
    let a ← a
    let b ← fields.finish draft
    some (a, b)

end Fields

namespace Reader

variable {α β γ : Type}

/-- A fixed number of parts in a list. -/
def tuple (fields : Fields α) : Reader α where
  run depth s :=
    match skipBlanks s with
    | '[' :: t =>
        match depth with
        | 0 => .error .malformed
        | depth + 1 => fields.complete (Fields.fillList depth true fields.slots fields.empty t)
    | t => .error (mismatch t)
  progress := by
    intro depth s a t h
    split at h
    · next found =>
      split at h
      · simp at h
      · obtain ⟨draft, filled, -⟩ := Fields.complete_eq_ok h
        exact Nat.lt_trans (Fields.length_lt_of_fillList filled) (length_lt_of_skipBlanks found)
    · simp at h

/-- Two values in a list. -/
def pair (r : Reader α) (r' : Reader β) : Reader (α × β) :=
  tuple (.cons "" r (.single "" r'))

/-- Three values in a list. -/
def triple (r : Reader α) (r' : Reader β) (r'' : Reader γ) : Reader (α × β × γ) :=
  tuple (.cons "" r (.cons "" r' (.single "" r'')))

/-- A record: an object with its keys in any order, or all parts in a list. -/
def record (fields : Fields α) : Reader α where
  run depth s :=
    match skipBlanks s with
    | '[' :: t =>
        match depth with
        | 0 => .error .malformed
        | depth + 1 => fields.complete (Fields.fillList depth true fields.slots fields.empty t)
    | '\x7b' :: t =>
        match depth with
        | 0 => .error .malformed
        | depth + 1 => fields.complete (Fields.fillObject fields.slots depth true fields.empty t)
    | t => .error (mismatch t)
  progress := by
    intro depth s a t h
    split at h
    · next found =>
      split at h
      · simp at h
      · obtain ⟨draft, filled, -⟩ := Fields.complete_eq_ok h
        exact Nat.lt_trans (Fields.length_lt_of_fillList filled) (length_lt_of_skipBlanks found)
    · next found =>
      split at h
      · simp at h
      · obtain ⟨draft, filled, -⟩ := Fields.complete_eq_ok h
        exact Nat.lt_trans (Fields.length_lt_of_fillObject filled) (length_lt_of_skipBlanks found)
    · simp at h

end Reader

end ArrayKernel.Json
