import ArrayKernel.Number.Decimal

/-!
How a binary64 number is written: the shortest decimal in positional notation for exponents of a
given interval and in scientific notation outside it.
-/

namespace ArrayKernel

/-- The decisions of a number format. With `d.ddd * 10 ^ e` as the scientific form, positional
notation is used for `leastFixed ≤ e ≤ greatestFixed`. -/
structure Layout where
  leastFixed : Int
  greatestFixed : Int
  /-- Is a positive exponent written with its sign? -/
  plusSign : Bool
deriving DecidableEq, Repr

namespace Layout

/-- Digits in positional notation, with at least one digit on each side of the point. -/
def positional (digits : List Char) (e : Int) : List Char :=
  if e < 0 then '0' :: '.' :: (List.replicate (-e - 1).toNat '0' ++ digits)
  else
    let whole := e.toNat + 1
    if digits.length ≤ whole then
      digits ++ List.replicate (whole - digits.length) '0' ++ ['.', '0']
    else digits.take whole ++ '.' :: digits.drop whole

/-- Digits in scientific notation; a point stands only where digits follow it. -/
def scientific (plusSign : Bool) (digits : List Char) (e : Int) : List Char :=
  let fraction := digits.drop 1
  let sign := if e < 0 then ['-'] else if plusSign then ['+'] else []
  digits.take 1 ++ (if fraction.isEmpty then [] else '.' :: fraction) ++
    'e' :: (sign ++ Nat.toDigits 10 e.natAbs)

/-- A decimal without trailing zeros in the notation that its size asks for. -/
def decimal (layout : Layout) (d : Decimal) : List Char :=
  let digits := Nat.toDigits 10 d.digits
  let e := d.top - 1
  if layout.leastFixed ≤ e ∧ e ≤ layout.greatestFixed then positional digits e
  else scientific layout.plusSign digits e

/-- A finite number: its sign and the shortest decimal for its magnitude. -/
def finite (layout : Layout) (x : Binary64) : List Char :=
  let text :=
    if x.magnitude = 0 then ['0', '.', '0'] else layout.decimal (Decimal.shortest x.magnitude)
  if x.isNegative then '-' :: text else text

end Layout

end ArrayKernel
