import ArrayKernel.Json.Basic
import ArrayKernel.Number.Layout

/-!
Numbers: how floating-point numbers are written, and how a number is read, first as it is written
and then as what it stands for.
-/

namespace ArrayKernel.Json

/-! ### Writing -/

/-- Numbers are written positionally from `1e-5` up to, but not including, `1e16`, and positive
exponents with their sign. -/
def numberLayout : Layout := ⟨-5, 15, true⟩

/-- A floating-point number; what is no finite number is written as a null. -/
def realText (x : Binary64) : List Char :=
  if x.isFinite then numberLayout.finite x else ['n', 'u', 'l', 'l']

/-! ### Reading -/

/-- A number as written. -/
structure NumberText where
  negative : Bool
  whole : List Char
  fraction : Option (List Char)
  /-- Is the exponent negative, and its digits. -/
  exponent : Option (Bool × List Char)
deriving DecidableEq, Repr

/-- Reads one digit or more. -/
def scanDigits (s : List Char) : Except Problem (List Char × List Char) :=
  if (s.takeWhile Char.isDigit).isEmpty then
    .error (if s.isEmpty then .truncated else .malformed)
  else .ok (s.takeWhile Char.isDigit, s.dropWhile Char.isDigit)

theorem length_le_of_scanDigits {s t digits : List Char} (h : scanDigits s = .ok (digits, t)) :
    t.length ≤ s.length := by
  unfold scanDigits at h
  split at h
  · simp at h
  · simp only [Except.ok.injEq, Prod.mk.injEq] at h
    exact h.2 ▸ (List.dropWhile_sublist Char.isDigit).length_le

/-- Reads the digits before the point: a zero has no digits after it. -/
def scanWhole : List Char → Except Problem (List Char × List Char)
  | [] => .error .truncated
  | c :: s =>
      if c = '0' then
        if (s.takeWhile Char.isDigit).isEmpty then .ok (['0'], s) else .error .malformed
      else if c.isDigit then .ok (c :: s.takeWhile Char.isDigit, s.dropWhile Char.isDigit)
      else .error .malformed

theorem length_lt_of_scanWhole {s t digits : List Char} (h : scanWhole s = .ok (digits, t)) :
    t.length < s.length := by
  unfold scanWhole at h
  split at h
  · simp at h
  · next c s =>
    split at h
    · split at h
      · simp only [Except.ok.injEq, Prod.mk.injEq] at h
        simp [← h.2]
      · simp at h
    · split at h
      · simp only [Except.ok.injEq, Prod.mk.injEq] at h
        have := (List.dropWhile_sublist (l := s) Char.isDigit).length_le
        rw [← h.2, List.length_cons]
        omega
      · simp at h

/-- Reads a point and the digits after it, if there is a point. -/
def scanFraction (s : List Char) : Except Problem (Option (List Char) × List Char) :=
  match s with
  | '.' :: t =>
      match scanDigits t with
      | .error problem => .error problem
      | .ok (digits, u) => .ok (some digits, u)
  | s => .ok (none, s)

theorem length_le_of_scanFraction {s t : List Char} {fraction : Option (List Char)}
    (h : scanFraction s = .ok (fraction, t)) : t.length ≤ s.length := by
  unfold scanFraction at h
  split at h
  · split at h
    · simp at h
    · next u digits v inner =>
      simp only [Except.ok.injEq, Prod.mk.injEq] at h
      have := length_le_of_scanDigits inner
      rw [← h.2, List.length_cons]
      omega
  · simp only [Except.ok.injEq, Prod.mk.injEq] at h
    simp [← h.2]

/-- Reads the sign of an exponent, if there is one: is it negative? -/
def scanSign : List Char → Bool × List Char
  | '-' :: s => (true, s)
  | '+' :: s => (false, s)
  | s => (false, s)

theorem length_scanSign_le (s : List Char) : (scanSign s).2.length ≤ s.length := by
  unfold scanSign
  split <;> simp

/-- Reads an exponent, if there is one. -/
def scanExponent (s : List Char) : Except Problem (Option (Bool × List Char) × List Char) :=
  match s with
  | [] => .ok (none, [])
  | c :: t =>
      if c = 'e' ∨ c = 'E' then
        match scanDigits (scanSign t).2 with
        | .error problem => .error problem
        | .ok (digits, u) => .ok (some ((scanSign t).1, digits), u)
      else .ok (none, c :: t)

theorem length_le_of_scanExponent {s t : List Char} {exponent : Option (Bool × List Char)}
    (h : scanExponent s = .ok (exponent, t)) : t.length ≤ s.length := by
  unfold scanExponent at h
  split at h
  · simp_all
  · next c u =>
    split at h
    · split at h
      · simp at h
      · next digits v inner =>
        simp only [Except.ok.injEq, Prod.mk.injEq] at h
        have := length_le_of_scanDigits inner
        have := length_scanSign_le u
        rw [← h.2, List.length_cons]
        omega
    · simp only [Except.ok.injEq, Prod.mk.injEq] at h
      simp [← h.2]

/-- Does a number start here? -/
def startsNumber : List Char → Bool
  | [] => false
  | c :: _ => c == '-' || c.isDigit

/-- Reads the minus sign of a number, if there is one. -/
def scanMinus : List Char → Bool × List Char
  | '-' :: s => (true, s)
  | s => (false, s)

theorem length_scanMinus_le (s : List Char) : (scanMinus s).2.length ≤ s.length := by
  unfold scanMinus
  split <;> simp

/-- Reads a number as it is written. -/
def scanNumber (s : List Char) : Except Problem (NumberText × List Char) :=
  match scanWhole (scanMinus s).2 with
  | .error problem => .error problem
  | .ok (whole, t) =>
      match scanFraction t with
      | .error problem => .error problem
      | .ok (fraction, u) =>
          match scanExponent u with
          | .error problem => .error problem
          | .ok (exponent, v) => .ok (⟨(scanMinus s).1, whole, fraction, exponent⟩, v)

theorem length_lt_of_scanNumber {s t : List Char} {number : NumberText}
    (h : scanNumber s = .ok (number, t)) : t.length < s.length := by
  unfold scanNumber at h
  split at h
  · simp at h
  · next whole u first =>
    split at h
    · simp at h
    · next fraction v second =>
      split at h
      · simp at h
      · next exponent w third =>
        simp only [Except.ok.injEq, Prod.mk.injEq] at h
        have := length_scanMinus_le s
        have := length_lt_of_scanWhole first
        have := length_le_of_scanFraction second
        have := length_le_of_scanExponent third
        rw [← h.2]
        omega

/-- What a number in a text stands for. -/
inductive Numeral where
  | int (value : Int)
  | real (value : Binary64)
deriving DecidableEq, Repr

namespace NumberText

/-- The number that is written. -/
def decimal (number : NumberText) : Decimal :=
  let fraction := number.fraction.getD []
  let shift : Int := match number.exponent with
    | some (true, digits) => -(Nat.ofDigitChars 10 digits 0 : Int)
    | some (false, digits) => Nat.ofDigitChars 10 digits 0
    | none => 0
  ⟨Nat.ofDigitChars 10 (number.whole ++ fraction) 0, shift - fraction.length⟩

/-- The floating-point number nearest to what is written, if it is finite. -/
def real (number : NumberText) : Except Problem Numeral :=
  match number.decimal.magnitude? with
  | some magnitude => .ok (.real (.ofMagnitude number.negative magnitude))
  | none => .error .malformed

/-- A number without point and exponent is an integer, if it fits 64 bits and is not the negative
zero; every other number is a floating-point number. -/
def numeral (number : NumberText) : Except Problem Numeral :=
  match number.fraction, number.exponent with
  | none, none =>
      let n := Nat.ofDigitChars 10 number.whole 0
      if number.negative then
        if 0 < n ∧ n ≤ Nat.pow 2 63 then .ok (.int (-n)) else number.real
      else if n < Nat.pow 2 64 then .ok (.int n)
      else number.real
  | _, _ => number.real

end NumberText

/-- Reads a number and what it stands for. -/
def scanNumeral (s : List Char) : Except Problem (Numeral × List Char) :=
  match scanNumber s with
  | .error problem => .error problem
  | .ok (number, t) =>
      match number.numeral with
      | .error problem => .error problem
      | .ok numeral => .ok (numeral, t)

theorem length_lt_of_scanNumeral {s t : List Char} {numeral : Numeral}
    (h : scanNumeral s = .ok (numeral, t)) : t.length < s.length := by
  unfold scanNumeral at h
  split at h
  · simp at h
  · next number u inner =>
    split at h
    · simp at h
    · simp only [Except.ok.injEq, Prod.mk.injEq] at h
      exact h.2 ▸ length_lt_of_scanNumber inner

end ArrayKernel.Json
