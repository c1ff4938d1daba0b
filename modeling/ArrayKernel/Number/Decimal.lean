import ArrayKernel.Number.Binary64

/-!
Decimal numbers, the binary64 number nearest to one, and the shortest decimal for a binary64
number: the one with the fewest digits among those that read back as the same number and, of two
equally short ones, the nearer, a tie going to the even one.
-/

namespace ArrayKernel

/-- The number `digits * 10 ^ exponent`. -/
structure Decimal where
  digits : Nat
  exponent : Int
deriving DecidableEq, Repr

namespace Decimal

/-- How many decimal digits a natural number is written with. -/
def digitCount (n : Nat) : Nat :=
  (Nat.toDigits 10 n).length

/-- A nonzero decimal lies below `10 ^ top` and not below `10 ^ (top - 1)`. -/
def top (d : Decimal) : Int :=
  digitCount d.digits + d.exponent

/-- The magnitude of the binary64 number nearest to the decimal, `none` if that is infinite.
The first two tests keep the powers of ten small: finite numbers lie below `10 ^ 309`, and what
lies below `10 ^ (-324)` is nearest to zero. -/
def magnitude? (d : Decimal) : Option Nat :=
  if d.digits = 0 ∨ d.top < -324 then some 0
  else if 309 < d.top then none
  else
    let magnitude := Binary64.nearest (d.digits * Nat.pow 10 d.exponent.toNat)
      (Nat.pow 10 (-d.exponent).toNat)
    if magnitude < Binary64.infinity then some magnitude else none

/-- Moves trailing zeros of the digits into the exponent. -/
def normalize (d : Decimal) : Decimal :=
  if h : d.digits ≠ 0 ∧ d.digits % 10 = 0 then normalize ⟨d.digits / 10, d.exponent + 1⟩ else d
termination_by d.digits
decreasing_by exact Nat.div_lt_self (by omega) (by decide)

/-! ### Shortest decimals -/

/-- The digits of one unit, the last of which stands at `10 ^ (-1074)`. -/
def unitDigits : Nat := Nat.pow 5 1074

/-- Every digit of a finite magnitude's value. -/
def exact (magnitude : Nat) : Decimal :=
  ⟨Binary64.units magnitude * unitDigits, -1074⟩

/-- The exponent `p` with `10 ^ (p - 1) ≤ value < 10 ^ p`, for a finite nonzero magnitude. -/
def topOf (magnitude : Nat) : Int :=
  (digitCount (Binary64.units magnitude * Nat.pow 10 400 / Binary64.unitsInOne) : Int) - 400

/-- The two multiples of `10 ^ exponent` around the value of a magnitude, the nearer one first and,
if they are equally near, the even one. -/
def neighbours (magnitude : Nat) (exponent : Int) : List Decimal :=
  let num := Binary64.units magnitude * Nat.pow 10 (-exponent).toNat
  let den := Binary64.unitsInOne * Nat.pow 10 exponent.toNat
  let lower : Decimal := ⟨num / den, exponent⟩
  let upper : Decimal := ⟨num / den + 1, exponent⟩
  if Binary64.roundDiv num den = num / den then [lower.normalize, upper.normalize]
  else [upper.normalize, lower.normalize]

/-- A multiple of `10 ^ exponent` that reads back as the magnitude. Only the two neighbours of the
value have to be tried, for no point of the grid is nearer. -/
def onGrid? (magnitude : Nat) (exponent : Int) : Option Decimal :=
  (neighbours magnitude exponent).find? fun d => d.magnitude? = some magnitude

/-- The shortest decimal that reads back as the finite nonzero magnitude: the grids are tried from
one digit on. Seventeen digits are always enough; past them stands the exact value. -/
def shortest (magnitude : Nat) : Decimal :=
  let top := topOf magnitude
  ((List.range 17).findSome? fun n => onGrid? magnitude (top - (n + 1 : Nat))).getD
    (exact magnitude).normalize

end Decimal

end ArrayKernel
