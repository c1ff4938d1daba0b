import ArrayKernel.Proofs.Digits

/-!
The shortest decimal of a finite number reads back as that number.

A decimal found on one of the coarse grids has been tried, so only the last resort, the exact value,
needs an argument. Its digits lie within the limits of `Decimal.magnitude?`, and trailing zeros may
be moved into the exponent of any decimal without changing what is read.
-/

namespace ArrayKernel

namespace Binary64

/-- Equal fractions have the same nearest number. -/
theorem nearest_eq_of_mul_eq {a b c d : Nat} (hb : 0 < b) (hd : 0 < d) (h : a * d = c * b) :
    nearest a b = nearest c d := by
  rw [← nearest_mul_mul a b hd, ← nearest_mul_mul c d hb, h, Nat.mul_comm b d]

/-- Sign and magnitude make up a number. -/
theorem ofMagnitude_magnitude (x : Binary64) : ofMagnitude x.isNegative x.magnitude = x := by
  have size := x.bits.toNat_lt
  have bits : (if x.isNegative then Nat.pow 2 63 + x.magnitude else x.magnitude) =
      x.bits.toNat := by
    simp only [isNegative, magnitude, Nat.pow_eq, decide_eq_true_eq]
    split <;> omega
  rw [ofMagnitude, bits, UInt64.ofNat_toNat]

theorem significand_lt (magnitude : Nat) : significand magnitude < 2 ^ 53 := by
  simp only [significand, scale, Nat.pow_eq]
  omega

theorem units_pos {magnitude : Nat} (nonzero : magnitude ≠ 0) : 0 < units magnitude := by
  refine Nat.mul_pos ?_ (Nat.two_pow_pos _)
  simp only [significand, scale, Nat.pow_eq]
  omega

theorem units_lt {magnitude bits : Nat} (finite : magnitude < infinity) (enough : 2098 ≤ bits) :
    units magnitude < 2 ^ bits := by
  have small : scale magnitude ≤ 2045 := by
    simp only [infinity, Nat.pow_eq] at finite
    simp only [scale, Nat.pow_eq]
    omega
  calc units magnitude
      < 2 ^ 53 * 2 ^ scale magnitude :=
        Nat.mul_lt_mul_of_pos_right (significand_lt magnitude) (Nat.two_pow_pos _)
    _ = 2 ^ (53 + scale magnitude) := (Nat.pow_add 2 53 _).symm
    _ ≤ 2 ^ bits := Nat.pow_le_pow_right Nat.two_pos (by omega)

end Binary64

namespace Decimal

/-! ### Zeros between digits and exponent -/

theorem top_mul_pow {digits : Nat} (pos : 0 < digits) (exponent : Int) (count : Nat) :
    top ⟨digits * 10 ^ count, exponent - count⟩ = top ⟨digits, exponent⟩ := by
  simp only [top, digitCount_mul_pow pos]
  omega

/-- Zeros may be moved from the exponent to the digits. -/
theorem magnitude?_mul_pow {digits : Nat} (pos : 0 < digits) (exponent : Int) (count : Nat) :
    magnitude? ⟨digits * 10 ^ count, exponent - count⟩ = magnitude? ⟨digits, exponent⟩ := by
  have nonzero : digits * 10 ^ count ≠ 0 :=
    Nat.ne_of_gt (Nat.mul_pos pos (Nat.pow_pos (by decide)))
  have powers : 10 ^ count * 10 ^ (exponent - count).toNat * 10 ^ (-exponent).toNat =
      10 ^ exponent.toNat * 10 ^ (-(exponent - count)).toNat := by
    rw [← Nat.pow_add, ← Nat.pow_add, ← Nat.pow_add]
    congr 1
    omega
  have nearest :
      Binary64.nearest (digits * 10 ^ count * 10 ^ (exponent - count).toNat)
          (10 ^ (-(exponent - count)).toNat) =
        Binary64.nearest (digits * 10 ^ exponent.toNat) (10 ^ (-exponent).toNat) := by
    refine Binary64.nearest_eq_of_mul_eq (Nat.pow_pos (by decide)) (Nat.pow_pos (by decide)) ?_
    rw [Nat.mul_assoc digits, Nat.mul_assoc digits, powers, Nat.mul_assoc digits]
  simp only [magnitude?, top_mul_pow pos, nonzero, Nat.ne_of_gt pos, Nat.pow_eq, nearest]

theorem magnitude?_normalize (d : Decimal) : d.normalize.magnitude? = d.magnitude? := by
  fun_induction normalize d with
  | case1 d h ih =>
      have pos : 0 < d.digits / 10 := by omega
      have digits : d.digits / 10 * 10 ^ 1 = d.digits := by omega
      have moved := magnitude?_mul_pow pos (d.exponent + 1) 1
      rw [digits, Int.natCast_one, Int.add_sub_cancel] at moved
      exact ih.trans moved.symm
  | case2 => rfl

/-! ### Exact values -/

theorem unitDigits_pos : 0 < unitDigits := by
  decide +kernel

theorem unitsInOne_mul_unitDigits : Binary64.unitsInOne * unitDigits = Nat.pow 10 1074 := by
  decide +kernel

theorem digits_exact_lt {magnitude : Nat} (finite : magnitude < Binary64.infinity) :
    (exact magnitude).digits < 10 ^ 1383 :=
  Nat.lt_of_lt_of_le
    (Nat.mul_lt_mul_of_pos_right (Binary64.units_lt finite (Nat.le_refl 2098)) unitDigits_pos)
    (by decide +kernel)

theorem le_digits_exact {magnitude : Nat} (nonzero : magnitude ≠ 0) :
    10 ^ 750 ≤ (exact magnitude).digits :=
  Nat.le_trans (by decide +kernel)
    (Nat.le_mul_of_pos_left unitDigits (Binary64.units_pos nonzero))

/-- The exact value of a finite number lies within the limits for which powers of ten are taken. -/
theorem top_exact {magnitude : Nat} (nonzero : magnitude ≠ 0)
    (finite : magnitude < Binary64.infinity) :
    -324 ≤ (exact magnitude).top ∧ (exact magnitude).top ≤ 309 := by
  have least : 750 < digitCount (exact magnitude).digits := by
    refine Nat.lt_of_not_le fun fewer => ?_
    exact Nat.not_lt_of_le (le_digits_exact nonzero) ((digitCount_le_iff (by decide)).mp fewer)
  have most : digitCount (exact magnitude).digits ≤ 1383 :=
    (digitCount_le_iff (by decide)).mpr (digits_exact_lt finite)
  have exponent : (exact magnitude).exponent = -1074 := by rw [exact]
  rw [top, exponent]
  omega

theorem nearest_exact (magnitude : Nat) :
    Binary64.nearest (exact magnitude).digits (Binary64.unitsInOne * unitDigits) = magnitude := by
  rw [exact, Binary64.nearest_mul_mul _ _ unitDigits_pos, Binary64.nearest_units]

/-- What is read from digits after the point, within the limits for powers of ten. -/
theorem magnitude?_of_nearest {digits places power magnitude : Nat} (pos : 0 < digits)
    (low : -324 ≤ top ⟨digits, -places⟩) (high : top ⟨digits, -places⟩ ≤ 309)
    (ten : power = Nat.pow 10 places) (nearest : Binary64.nearest digits power = magnitude)
    (finite : magnitude < Binary64.infinity) :
    magnitude? ⟨digits, -places⟩ = some magnitude := by
  have outside : ¬(digits = 0 ∨ top ⟨digits, -places⟩ < -324) := by omega
  have below : ¬309 < top ⟨digits, -places⟩ := by omega
  have whole : (-(places : Int)).toNat = 0 := by omega
  have fraction : (- -(places : Int)).toNat = places := by omega
  have one : Nat.pow 10 0 = 1 := rfl
  rw [magnitude?, if_neg outside, if_neg below]
  simp only [whole, fraction, one, Nat.mul_one, ← ten, nearest, finite, if_true]

theorem magnitude?_exact {magnitude : Nat} (nonzero : magnitude ≠ 0)
    (finite : magnitude < Binary64.infinity) :
    (exact magnitude).magnitude? = some magnitude := by
  have pos := Nat.mul_pos (Binary64.units_pos nonzero) unitDigits_pos
  obtain ⟨low, high⟩ := top_exact nonzero finite
  exact magnitude?_of_nearest pos low high unitsInOne_mul_unitDigits (nearest_exact magnitude)
    finite

/-! ### Shortest decimals -/

/-- **The shortest decimal of a finite number reads back** as that number. -/
theorem magnitude?_shortest {magnitude : Nat} (nonzero : magnitude ≠ 0)
    (finite : magnitude < Binary64.infinity) :
    (shortest magnitude).magnitude? = some magnitude := by
  rw [shortest]
  cases found : (List.range 17).findSome? fun n =>
    onGrid? magnitude (topOf magnitude - (n + 1 : Nat)) with
  | some d =>
      obtain ⟨n, -, tried⟩ := List.exists_of_findSome?_eq_some found
      rw [Option.getD_some]
      simpa using List.find?_some tried
  | none => rw [Option.getD_none, magnitude?_normalize, magnitude?_exact nonzero finite]

theorem digits_pos_of_magnitude? {d : Decimal} {magnitude : Nat} (nonzero : magnitude ≠ 0)
    (h : d.magnitude? = some magnitude) : 0 < d.digits := by
  refine Nat.pos_of_ne_zero fun zero => nonzero ?_
  simpa [magnitude?, zero] using h.symm

end Decimal

end ArrayKernel
