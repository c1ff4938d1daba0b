import ArrayKernel.Json.Basic
import Mathlib.Data.List.Basic

/-!
How deep JSON values are nested, and which floating-point numbers they hold.

A value `Fits` a number of brackets if no more are ever open in it and all its numbers are finite.
-/

namespace ArrayKernel.Json

mutual

/-- How many brackets are open at the innermost place of a value. -/
def depth : Json → Nat
  | .list items => listDepth items + 1
  | .object fields => fieldsDepth fields + 1
  | .null | .bool _ | .int _ | .real _ | .string _ => 0

/-- The greatest depth in a list. -/
def listDepth : List Json → Nat
  | [] => 0
  | item :: items => max item.depth (listDepth items)

/-- The greatest depth among the values of fields. -/
def fieldsDepth : List (String × Json) → Nat
  | [] => 0
  | (_, value) :: fields => max value.depth (fieldsDepth fields)

end

mutual

/-- The floating-point numbers of a value, from left to right. -/
def reals : Json → List Binary64
  | .real value => [value]
  | .list items => listReals items
  | .object fields => fieldsReals fields
  | .null | .bool _ | .int _ | .string _ => []

/-- The floating-point numbers of a list. -/
def listReals : List Json → List Binary64
  | [] => []
  | item :: items => item.reals ++ listReals items

/-- The floating-point numbers of fields. -/
def fieldsReals : List (String × Json) → List Binary64
  | [] => []
  | (_, value) :: fields => value.reals ++ fieldsReals fields

end

/-- At most `brackets` brackets are open at a time, and all numbers are finite. -/
def Fits (brackets : Nat) (value : Json) : Prop :=
  value.depth ≤ brackets ∧ ∀ x ∈ value.reals, x.isFinite

section Fits

variable {brackets : Nat}

theorem fits_int (value : Int) : (Json.int value).Fits brackets := by
  simp [Fits, depth, reals]

theorem fits_bool (value : Bool) : (Json.bool value).Fits brackets := by
  simp [Fits, depth, reals]

theorem fits_string (value : String) : (Json.string value).Fits brackets := by
  simp [Fits, depth, reals]

@[simp] theorem fits_real_iff {value : Binary64} :
    (Json.real value).Fits brackets ↔ value.isFinite := by
  simp [Fits, depth, reals]

/-- Lists and objects need a bracket of their own. -/
theorem not_fits_zero_list (items : List Json) : ¬(Json.list items).Fits 0 := by
  simp [Fits, depth]

theorem not_fits_zero_object (fields : List (String × Json)) : ¬(Json.object fields).Fits 0 := by
  simp [Fits, depth]

theorem fits_list_iff {items : List Json} :
    (Json.list items).Fits (brackets + 1) ↔ ∀ item ∈ items, item.Fits brackets := by
  simp only [Fits, depth, reals, Nat.add_le_add_iff_right]
  induction items with
  | nil => simp [listDepth, listReals]
  | cons item items ih =>
      simp only [listDepth, listReals, Nat.max_le, List.forall_mem_append, List.forall_mem_cons,
        ← ih]
      exact and_and_and_comm

theorem fits_object_iff {fields : List (String × Json)} :
    (Json.object fields).Fits (brackets + 1) ↔ ∀ field ∈ fields, field.2.Fits brackets := by
  simp only [Fits, depth, reals, Nat.add_le_add_iff_right]
  induction fields with
  | nil => simp [fieldsDepth, fieldsReals]
  | cons field fields ih =>
      simp only [fieldsDepth, fieldsReals, Nat.max_le, List.forall_mem_append,
        List.forall_mem_cons, ← ih]
      exact and_and_and_comm

end Fits

end ArrayKernel.Json
