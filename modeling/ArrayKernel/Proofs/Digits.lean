import ArrayKernel.Number.Decimal
import Mathlib.Algebra.Group.Nat.Defs

/-!
Decimal digits: how many a number has, what they are worth, and where a run of them ends.
-/

namespace ArrayKernel

/-- A run of items that pass a test ends where the next item does not pass it. -/
theorem takeWhile_append_of_all {α : Type} {p : α → Bool} {xs rest : List α}
    (all : ∀ x ∈ xs, p x) (stop : ∀ x ∈ rest.head?, p x = false) :
    (xs ++ rest).takeWhile p = xs ∧ (xs ++ rest).dropWhile p = rest := by
  rw [List.takeWhile_append_of_pos all, List.dropWhile_append_of_pos all]
  cases rest with
  | nil => simp
  | cons x rest => simp [stop x rfl]

theorem isDigit_iff {c : Char} : c.isDigit ↔ 48 ≤ c.toNat ∧ c.toNat ≤ 57 := by
  simp [Char.isDigit, UInt32.le_iff_toNat_le]

theorem isDigit_toDigits (n : Nat) : ∀ c ∈ Nat.toDigits 10 n, c.isDigit := fun _ mem =>
  Nat.isDigit_of_mem_toDigits (by decide) (by decide) mem

/-- Only zero is written with a leading zero. -/
theorem head_toDigits_ne_zero {n : Nat} (pos : 0 < n) : (Nat.toDigits 10 n).head? ≠ some '0' := by
  induction n using Nat.strongRecOn with
  | ind n ih =>
      by_cases small : n < 10
      · rw [Nat.toDigits_of_lt_base small]
        simpa using Nat.ne_of_gt pos
      · have large : 10 ≤ n := Nat.le_of_not_lt small
        have first := ih (n / 10) (Nat.div_lt_self pos (by decide)) (Nat.div_pos large (by decide))
        rw [Nat.toDigits_of_base_le (by decide) large]
        cases digits : Nat.toDigits 10 (n / 10) with
        | nil => exact absurd digits Nat.toDigits_ne_nil
        | cons c cs => simpa [digits] using first

/-- Zeros at the end of a run of digits multiply its value. -/
theorem ofDigitChars_append_zeros (digits : List Char) (count : Nat) :
    Nat.ofDigitChars 10 (digits ++ List.replicate count '0') 0 =
      Nat.ofDigitChars 10 digits 0 * 10 ^ count := by
  rw [Nat.ofDigitChars_append, Nat.ofDigitChars_replicate_zero, Nat.mul_comm]

/-- Zeros at its start do not count. -/
theorem ofDigitChars_zeros_append (digits : List Char) (count : Nat) :
    Nat.ofDigitChars 10 (List.replicate count '0' ++ digits) 0 = Nat.ofDigitChars 10 digits 0 := by
  rw [Nat.ofDigitChars_append, Nat.ofDigitChars_replicate_zero, Nat.mul_zero]

namespace Decimal

theorem digitCount_le_iff {n count : Nat} (pos : 0 < count) :
    digitCount n ≤ count ↔ n < 10 ^ count :=
  Nat.length_toDigits_le_iff (by decide) pos

theorem digitCount_mul_pow {n : Nat} (pos : 0 < n) (count : Nat) :
    digitCount (n * 10 ^ count) = digitCount n + count := by
  induction count with
  | zero => simp
  | succ count ih =>
      have nonzero : 0 < n * 10 ^ count := Nat.mul_pos pos (Nat.pow_pos (by decide))
      have more := congrArg List.length
        (Nat.toDigits_append_toDigits (b := 10) (d := 0) (by decide) nonzero (by decide))
      rw [List.length_append, Nat.toDigits_zero] at more
      rw [Nat.pow_succ, ← Nat.mul_assoc, Nat.mul_comm _ 10, ← Nat.add_assoc, ← ih]
      exact more.symm

end Decimal

end ArrayKernel
