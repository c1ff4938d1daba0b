/-!
Binary floating-point numbers of 64 bits, held as their bit patterns.

The numbers of one sign lie on a grid that doubles its step at every power of two. Read as a
natural number, the lower 63 bits (the *magnitude*) count the grid points from zero, so the
magnitude of the number next to a fraction is found by rounding to the grid once:
`Binary64.nearest` does it in exact natural-number arithmetic, a half going to the even neighbour.
`Binary64.nearest_units` says that a number on the grid is its own nearest neighbour.
-/

namespace ArrayKernel

/-- A binary64 number by its bits: a sign, eleven bits of exponent, 52 bits of fraction. -/
structure Binary64 where
  bits : UInt64
deriving DecidableEq, Repr

namespace Binary64

/-- The sign bit. -/
def isNegative (x : Binary64) : Bool :=
  Nat.pow 2 63 ≤ x.bits.toNat

/-- The bits below the sign: the position of `|x|` on the grid of non-negative numbers. -/
def magnitude (x : Binary64) : Nat :=
  x.bits.toNat % Nat.pow 2 63

/-- The magnitude of infinity: all magnitudes below it are finite, all above it are no numbers. -/
def infinity : Nat := 2047 * Nat.pow 2 52

/-- Neither infinite nor a NaN. -/
def isFinite (x : Binary64) : Bool :=
  x.magnitude < infinity

/-- Not a number. -/
def isNaN (x : Binary64) : Bool :=
  infinity < x.magnitude

/-- Equality of values: all NaNs are one value, and so are the two zeros. -/
def sameValue (x y : Binary64) : Bool :=
  x.bits == y.bits || (x.isNaN && y.isNaN) || (x.magnitude == 0 && y.magnitude == 0)

/-- The number of the given sign and magnitude. -/
def ofMagnitude (negative : Bool) (magnitude : Nat) : Binary64 :=
  ⟨UInt64.ofNat (if negative then Nat.pow 2 63 + magnitude else magnitude)⟩

/-! ### The grid -/

/-- The grid step at a finite magnitude is `2 ^ scale` units. -/
def scale (magnitude : Nat) : Nat :=
  magnitude / Nat.pow 2 52 - 1

/-- A finite magnitude counts `significand` steps of its scale. -/
def significand (magnitude : Nat) : Nat :=
  magnitude - scale magnitude * Nat.pow 2 52

/-- The number of units in one; a unit, `2 ^ (-1074)`, is the least positive number. -/
def unitsInOne : Nat := Nat.pow 2 1074

/-- The value of a finite magnitude, in units. -/
def units (magnitude : Nat) : Nat :=
  significand magnitude * Nat.pow 2 (scale magnitude)

/-- The quotient of two natural numbers rounded to the nearest, a half to the even neighbour. -/
def roundDiv (a b : Nat) : Nat :=
  let q := a / b
  if 2 * (a % b) < b then q
  else if b < 2 * (a % b) then q + 1
  else q + q % 2

/-- The magnitude of the number nearest to `num / den`; `infinity` or more if that is too large.

The step is the least one for which 53 bits hold the quotient. If rounding carries into a 54th
bit, the sum below moves to the next step by itself. -/
def nearest (num den : Nat) : Nat :=
  let whole := num * unitsInOne / den
  let step := whole.log2 + 1 - 53
  step * Nat.pow 2 52 + roundDiv (num * unitsInOne) (den * Nat.pow 2 step)

/-! ### Exact values -/

theorem unitsInOne_pos : 0 < unitsInOne := by
  unfold unitsInOne
  apply Nat.pow_pos
  decide

/-- A quotient without remainder needs no rounding. -/
theorem roundDiv_mul_self (q : Nat) {b : Nat} (pos : 0 < b) : roundDiv (q * b) b = q := by
  simp [roundDiv, Nat.mul_div_cancel q pos, pos]

/-- A common factor of numerator and denominator does not matter. -/
theorem roundDiv_mul_mul (a b : Nat) {c : Nat} (pos : 0 < c) :
    roundDiv (a * c) (b * c) = roundDiv a b := by
  have remainder : 2 * (a * c % (b * c)) = 2 * (a % b) * c := by
    rw [Nat.mul_mod_mul_right, Nat.mul_assoc]
  simp only [roundDiv, Nat.mul_div_mul_right a b pos, remainder, Nat.mul_lt_mul_right pos]

theorem nearest_mul_mul (num den : Nat) {c : Nat} (pos : 0 < c) :
    nearest (num * c) (den * c) = nearest num den := by
  simp only [nearest, Nat.mul_right_comm _ c, Nat.mul_div_mul_right _ _ pos,
    roundDiv_mul_mul _ _ pos]

/-- Scale and significand make up the magnitude. -/
theorem scale_add_significand (magnitude : Nat) :
    scale magnitude * Nat.pow 2 52 + significand magnitude = magnitude := by
  simp only [scale, significand, Nat.pow_eq]
  omega

/-- The step that holds a number in 53 bits is its own scale. -/
theorem log2_units (magnitude : Nat) :
    (units magnitude).log2 + 1 - 53 = scale magnitude := by
  have sum := scale_add_significand magnitude
  by_cases zero : scale magnitude = 0
  · have small : magnitude < 2 ^ 53 := by
      simp only [scale, Nat.pow_eq] at zero
      omega
    have bits : magnitude.log2 < 53 := by
      by_cases none : magnitude = 0
      · simp [none]
      · exact (Nat.log2_lt none).mpr small
    simp only [zero, Nat.zero_mul, Nat.zero_add] at sum
    simp only [units, zero, sum, Nat.pow_eq, Nat.pow_zero, Nat.mul_one]
    omega
  · have low : 2 ^ 52 ≤ significand magnitude := by
      simp only [scale, Nat.pow_eq] at zero
      simp only [significand, scale, Nat.pow_eq]
      omega
    have high : significand magnitude < 2 ^ 53 := by
      simp only [significand, scale, Nat.pow_eq]
      omega
    have bits : (units magnitude).log2 = 52 + scale magnitude := by
      refine (Nat.log2_eq_iff ?_).mpr ⟨?_, ?_⟩
      · exact Nat.ne_of_gt (Nat.mul_pos (by omega) (Nat.two_pow_pos _))
      · rw [units, Nat.pow_eq, Nat.pow_add]
        exact Nat.mul_le_mul_right _ low
      · rw [units, Nat.pow_eq, show 52 + scale magnitude + 1 = 53 + scale magnitude by omega,
          Nat.pow_add]
        exact Nat.mul_lt_mul_of_pos_right high (Nat.two_pow_pos _)
    omega

/-- A number on the grid is its own nearest neighbour. -/
theorem nearest_units (magnitude : Nat) : nearest (units magnitude) unitsInOne = magnitude := by
  have pos : 0 < unitsInOne * Nat.pow 2 (scale magnitude) :=
    Nat.mul_pos unitsInOne_pos (Nat.two_pow_pos _)
  simp only [nearest, Nat.mul_div_cancel _ unitsInOne_pos, log2_units]
  rw [units, Nat.mul_assoc, Nat.mul_comm (Nat.pow 2 (scale magnitude)), roundDiv_mul_self _ pos]
  exact scale_add_significand magnitude

end Binary64

end ArrayKernel
