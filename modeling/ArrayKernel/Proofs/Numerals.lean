import ArrayKernel.Json.Lexeme
import ArrayKernel.Json.Number
import ArrayKernel.Proofs.Shortest
import Mathlib.Algebra.Ring.Int.Defs

/-!
Numbers of JSON texts read back.

A number is taken apart as it is written, and `NumberText.text` puts its parts together again.
`scanNumber_text` says that the reader finds the same parts, provided that no digit, point or
exponent follows. What remains is arithmetic: integers are their digits, and each notation of a
floating-point number stands for the decimal that was written.
-/

namespace ArrayKernel.Json

/-- Nothing that belongs to a number comes next: what follows a value inside a text. -/
def Boundary (tail : List Char) : Prop :=
  ∀ c ∈ tail.head?, c = ',' ∨ c = ']' ∨ c = '\x7d' ∨ c = '\n'

theorem Boundary.nil : Boundary [] := by
  simp [Boundary]

/-- At a boundary there is no digit, point or exponent. -/
theorem Boundary.stop {tail : List Char} (h : Boundary tail) :
    ∀ c ∈ tail.head?, c.isDigit = false ∧ c ≠ '.' ∧ c ≠ 'e' ∧ c ≠ 'E' := by
  intro c mem
  rcases h c mem with rfl | rfl | rfl | rfl <;> decide

/-- One digit or more, and nothing else. -/
def Digits (digits : List Char) : Prop :=
  digits ≠ [] ∧ ∀ c ∈ digits, c.isDigit

theorem digits_toDigits (n : Nat) : Digits (Nat.toDigits 10 n) :=
  ⟨Nat.toDigits_ne_nil, isDigit_toDigits n⟩

theorem Digits.scanDigits_append {digits rest : List Char} (h : Digits digits)
    (stop : ∀ c ∈ rest.head?, c.isDigit = false) :
    scanDigits (digits ++ rest) = .ok (digits, rest) := by
  obtain ⟨taken, dropped⟩ := takeWhile_append_of_all h.2 stop
  simp [scanDigits, taken, dropped, h.1]

/-- The digits before the point: no zero stands in front of others. -/
theorem Digits.scanWhole_append {digits rest : List Char} (h : Digits digits)
    (leading : digits = ['0'] ∨ digits.head? ≠ some '0')
    (stop : ∀ c ∈ rest.head?, c.isDigit = false) :
    scanWhole (digits ++ rest) = .ok (digits, rest) := by
  cases digits with
  | nil => exact absurd rfl h.1
  | cons c cs =>
      have digit : c.isDigit := h.2 c List.mem_cons_self
      have later : ∀ d ∈ cs, d.isDigit := fun d mem => h.2 d (List.mem_cons_of_mem c mem)
      obtain ⟨taken, dropped⟩ := takeWhile_append_of_all later stop
      by_cases zero : c = '0'
      · have alone : cs = [] := by simpa [zero] using leading
        subst zero alone
        simpa [scanWhole] using taken
      · simp [scanWhole, zero, digit, taken, dropped]

namespace NumberText

/-! ### Numbers as they are written -/

def fractionText : Option (List Char) → List Char
  | none => []
  | some digits => '.' :: digits

/-- An exponent is written with its sign. -/
def exponentText : Option (Bool × List Char) → List Char
  | none => []
  | some (negative, digits) => 'e' :: (if negative then '-' else '+') :: digits

/-- The text of a number without its sign. -/
def unsigned (number : NumberText) : List Char :=
  number.whole ++ (fractionText number.fraction ++ exponentText number.exponent)

def text (number : NumberText) : List Char :=
  if number.negative then '-' :: number.unsigned else number.unsigned

/-- The parts of a number that JSON admits. -/
structure Proper (number : NumberText) : Prop where
  whole : Digits number.whole
  leading : number.whole = ['0'] ∨ number.whole.head? ≠ some '0'
  fraction : ∀ digits, number.fraction = some digits → Digits digits
  exponent : ∀ negative digits, number.exponent = some (negative, digits) → Digits digits

theorem scanExponent_append {exponent : Option (Bool × List Char)} {tail : List Char}
    (h : ∀ negative digits, exponent = some (negative, digits) → Digits digits)
    (boundary : Boundary tail) :
    scanExponent (exponentText exponent ++ tail) = .ok (exponent, tail) := by
  rcases exponent with _ | ⟨negative, digits⟩
  · cases tail with
    | nil => rfl
    | cons c tail =>
        obtain ⟨-, -, lower, upper⟩ := boundary.stop c rfl
        simp [exponentText, scanExponent, lower, upper]
  · have scanned := (h negative digits rfl).scanDigits_append fun c mem => (boundary.stop c mem).1
    cases negative <;> simp [exponentText, scanExponent, scanSign, scanned]

theorem stop_exponentText (exponent : Option (Bool × List Char)) {tail : List Char}
    (boundary : Boundary tail) :
    ∀ c ∈ (exponentText exponent ++ tail).head?, c.isDigit = false ∧ c ≠ '.' := by
  rcases exponent with _ | ⟨negative, digits⟩
  · exact fun c mem => ⟨(boundary.stop c mem).1, (boundary.stop c mem).2.1⟩
  · simp [exponentText]

theorem scanFraction_append {fraction : Option (List Char)} {rest : List Char}
    (h : ∀ digits, fraction = some digits → Digits digits)
    (stop : ∀ c ∈ rest.head?, c.isDigit = false ∧ c ≠ '.') :
    scanFraction (fractionText fraction ++ rest) = .ok (fraction, rest) := by
  cases fraction with
  | none =>
      rw [fractionText, List.nil_append]
      unfold scanFraction
      split
      · exact absurd rfl (stop '.' rfl).2
      · rfl
  | some digits =>
      have scanned := (h digits rfl).scanDigits_append fun c mem => (stop c mem).1
      simp [fractionText, scanFraction, scanned]

theorem stop_fractionText (fraction : Option (List Char)) {rest : List Char}
    (stop : ∀ c ∈ rest.head?, c.isDigit = false) :
    ∀ c ∈ (fractionText fraction ++ rest).head?, c.isDigit = false := by
  cases fraction with
  | none => exact stop
  | some digits => simp [fractionText]

variable {number : NumberText} {tail : List Char}

/-- The text of a number starts with a digit or its sign. -/
theorem Proper.text_eq_cons (h : number.Proper) :
    ∃ c cs, number.text = c :: cs ∧ (c = '-' ∨ c.isDigit) := by
  unfold text
  split
  · exact ⟨'-', _, rfl, .inl rfl⟩
  · obtain ⟨c, cs, eq⟩ := List.exists_cons_of_ne_nil h.whole.1
    exact ⟨c, _, by rw [unsigned, eq, List.cons_append], .inr (h.whole.2 c (by simp [eq]))⟩

theorem Proper.scanMinus_text (h : number.Proper) :
    scanMinus (number.text ++ tail) = (number.negative, number.unsigned ++ tail) := by
  cases sign : number.negative with
  | true => simp [text, sign, scanMinus]
  | false =>
      obtain ⟨c, cs, eq⟩ := List.exists_cons_of_ne_nil h.whole.1
      have digit : c.isDigit := h.whole.2 c (by simp [eq])
      have minus : c ≠ '-' := by
        rintro rfl
        exact absurd digit (by decide)
      simp [text, sign, unsigned, eq, scanMinus, minus]

/-- **The reader finds the parts of a number** as they were written. -/
theorem Proper.scanNumber_text (h : number.Proper) (boundary : Boundary tail) :
    scanNumber (number.text ++ tail) = .ok (number, tail) := by
  have exponent := scanExponent_append h.exponent boundary
  have stop := stop_exponentText number.exponent boundary
  have fraction := scanFraction_append h.fraction stop
  have whole := h.whole.scanWhole_append h.leading
    (stop_fractionText number.fraction fun c mem => (stop c mem).1)
  simp only [scanNumber, h.scanMinus_text, unsigned, List.append_assoc, whole, fraction, exponent]

/-- What a number stands for is read with it. -/
theorem Proper.scanNumeral_text {numeral : Numeral} (h : number.Proper) (boundary : Boundary tail)
    (value : number.numeral = .ok numeral) :
    scanNumeral (number.text ++ tail) = .ok (numeral, tail) := by
  simp only [scanNumeral, h.scanNumber_text boundary, value]

/-! ### Integers -/

/-- An integer as it is written. -/
def ofInt (value : Int) : NumberText :=
  ⟨value < 0, Nat.toDigits 10 value.natAbs, none, none⟩

theorem proper_ofInt (value : Int) : (ofInt value).Proper where
  whole := digits_toDigits _
  leading := by
    by_cases zero : value.natAbs = 0
    · exact .inl (by simp [ofInt, zero])
    · exact .inr (head_toDigits_ne_zero (Nat.pos_of_ne_zero zero))
  fraction := by simp [ofInt]
  exponent := by simp [ofInt]

theorem text_ofInt (value : Int) : (ofInt value).text = (toString value).toList := by
  rw [Int.toString_eq_repr, Int.repr_eq_if]
  by_cases negative : value < 0
  · have magnitude : (-value).toNat = value.natAbs := by omega
    rw [if_neg (Int.not_le.mpr negative), magnitude]
    simp [ofInt, text, unsigned, fractionText, exponentText, negative]
  · have magnitude : value.toNat = value.natAbs := by omega
    rw [if_pos (Int.not_lt.mp negative), magnitude]
    simp [ofInt, text, unsigned, fractionText, exponentText, negative]

/-- Integers of 64 bits, with or without a sign, are read as they are. -/
theorem numeral_ofInt {value : Int} (low : -2 ^ 63 ≤ value) (high : value < 2 ^ 64) :
    (ofInt value).numeral = .ok (.int value) := by
  have digits : Nat.ofDigitChars 10 (Nat.toDigits 10 value.natAbs) 0 = value.natAbs :=
    Nat.ofDigitChars_ten_toDigits
  by_cases negative : value < 0
  · have range : 0 < value.natAbs ∧ value.natAbs ≤ Nat.pow 2 63 := by
      simp only [Nat.pow_eq]
      omega
    have same : -(value.natAbs : Int) = value := by omega
    simp only [numeral, ofInt, digits, negative, decide_true, if_true, range, and_self, same]
  · have range : value.natAbs < Nat.pow 2 64 := by
      simp only [Nat.pow_eq]
      omega
    have same : (value.natAbs : Int) = value := by omega
    simp only [numeral, ofInt, digits, negative, decide_false, Bool.false_eq_true, if_false, range,
      if_true, same]

/-! ### Floating-point numbers -/

/-- A number with a point or an exponent is no integer. -/
theorem numeral_eq_real (h : number.fraction ≠ none ∨ number.exponent ≠ none) :
    number.numeral = number.real := by
  unfold numeral
  split
  · next whole integer => simp [whole, integer] at h
  · rfl

/-- The number is written as `text` after its sign, and not as an integer is; and it is read as the
decimal `d` is. -/
structure Spells (number : NumberText) (text : List Char) (d : Decimal) : Prop where
  proper : number.Proper
  unsigned_eq : number.unsigned = text
  notInteger : number.fraction ≠ none ∨ number.exponent ≠ none
  magnitude?_eq : number.decimal.magnitude? = d.magnitude?

theorem isDigit_zeros (count : Nat) : ∀ c ∈ List.replicate count '0', c.isDigit := by
  intro c mem
  rw [List.eq_of_mem_replicate mem]
  decide

/-- The decimal of a number with a point and no exponent. -/
theorem decimal_of_point (negative : Bool) (whole fraction : List Char) :
    decimal ⟨negative, whole, some fraction, none⟩ =
      ⟨Nat.ofDigitChars 10 (whole ++ fraction) 0, -fraction.length⟩ := by
  simp [decimal]

/-- The decimal of a number with an exponent. -/
theorem decimal_of_exponent (negative : Bool) (whole : List Char) (fraction : Option (List Char))
    (e : Int) :
    decimal ⟨negative, whole, fraction, some (decide (e < 0), Nat.toDigits 10 e.natAbs)⟩ =
      ⟨Nat.ofDigitChars 10 (whole ++ fraction.getD []) 0, e - (fraction.getD []).length⟩ := by
  by_cases small : e < 0
  · have magnitude : -(e.natAbs : Int) = e := by omega
    simp only [decimal, small, decide_true, Nat.ofDigitChars_ten_toDigits, magnitude]
  · have magnitude : (e.natAbs : Int) = e := by omega
    simp only [decimal, small, decide_false, Nat.ofDigitChars_ten_toDigits, magnitude]

section Notations

variable {d : Decimal} {e : Int} (top : d.top = e + 1) (negative : Bool)

include top in
theorem length_toDigits : (Nat.toDigits 10 d.digits).length = e + 1 - d.exponent := by
  have count : (Nat.toDigits 10 d.digits).length = Decimal.digitCount d.digits := rfl
  rw [count, ← top, Decimal.top]
  omega

include top in
/-- Zeros stand between the point and the digits of a number below one. -/
theorem exists_spells_below_one (below : e < 0) : ∃ number : NumberText,
    number.negative = negative ∧
      number.Spells (Layout.positional (Nat.toDigits 10 d.digits) e) d := by
  have length := length_toDigits top
  refine ⟨⟨negative, ['0'], some (List.replicate (-e - 1).toNat '0' ++ Nat.toDigits 10 d.digits),
    none⟩, rfl, ⟨?_, .inl rfl, ?_, by simp⟩, ?_, .inl (by simp), ?_⟩
  · simp [Digits]
  · rintro digits ⟨⟩
    refine ⟨by simp [Nat.toDigits_ne_nil], fun c mem => ?_⟩
    exact (List.mem_append.mp mem).elim (isDigit_zeros _ c) (isDigit_toDigits _ c)
  · simp [unsigned, fractionText, exponentText, Layout.positional, below]
  · rw [decimal_of_point, List.singleton_append, ← List.cons_append, ← List.replicate_succ,
      ofDigitChars_zeros_append, Nat.ofDigitChars_ten_toDigits, List.length_append,
      List.length_replicate]
    congr 2
    omega

variable (pos : 0 < d.digits)

include top pos

/-- Zeros follow the digits of a number that has none after the point. -/
theorem exists_spells_whole (above : ¬e < 0)
    (whole : (Nat.toDigits 10 d.digits).length ≤ e.toNat + 1) : ∃ number : NumberText,
    number.negative = negative ∧
      number.Spells (Layout.positional (Nat.toDigits 10 d.digits) e) d := by
  have length := length_toDigits top
  have first := head_toDigits_ne_zero pos
  have moved := Decimal.magnitude?_mul_pow pos d.exponent (d.exponent.toNat + 1)
  have missing : e.toNat + 1 - (Nat.toDigits 10 d.digits).length = d.exponent.toNat := by omega
  refine ⟨⟨negative, Nat.toDigits 10 d.digits ++ List.replicate d.exponent.toNat '0', some ['0'],
    none⟩, rfl, ⟨⟨by simp [Nat.toDigits_ne_nil], fun c mem => ?_⟩, .inr ?_, ?_, by simp⟩, ?_,
    .inl (by simp), ?_⟩
  · exact (List.mem_append.mp mem).elim (isDigit_toDigits _ c) (isDigit_zeros _ c)
  · obtain ⟨c, cs, digits⟩ := List.exists_cons_of_ne_nil (digits_toDigits d.digits).1
    simpa [digits] using first
  · rintro digits ⟨⟩
    simp [Digits]
  · simp [unsigned, fractionText, exponentText, Layout.positional, above, whole, missing]
  · rw [decimal_of_point, List.append_assoc, ← List.replicate_succ', ofDigitChars_append_zeros,
      Nat.ofDigitChars_ten_toDigits, ← moved]
    congr 2
    simp
    omega

/-- The point stands among the digits. -/
theorem exists_spells_within (above : ¬e < 0)
    (more : ¬(Nat.toDigits 10 d.digits).length ≤ e.toNat + 1) : ∃ number : NumberText,
    number.negative = negative ∧
      number.Spells (Layout.positional (Nat.toDigits 10 d.digits) e) d := by
  have length := length_toDigits top
  have first := head_toDigits_ne_zero pos
  refine ⟨⟨negative, (Nat.toDigits 10 d.digits).take (e.toNat + 1),
    some ((Nat.toDigits 10 d.digits).drop (e.toNat + 1)), none⟩, rfl,
    ⟨⟨by simp [Nat.toDigits_ne_nil], fun c mem => ?_⟩, .inr ?_, ?_, by simp⟩, ?_,
    .inl (by simp), ?_⟩
  · exact isDigit_toDigits _ c (List.mem_of_mem_take mem)
  · simpa [List.head?_take] using first
  · rintro digits ⟨⟩
    exact ⟨by simpa using more, fun c mem => isDigit_toDigits _ c (List.mem_of_mem_drop mem)⟩
  · simp [unsigned, fractionText, exponentText, Layout.positional, above, more]
  · rw [decimal_of_point, List.take_append_drop, Nat.ofDigitChars_ten_toDigits, List.length_drop]
    congr 2
    omega

/-- One digit stands before the point, which is left out if there are no others. -/
theorem exists_spells_scientific : ∃ number : NumberText,
    number.negative = negative ∧
      number.Spells (Layout.scientific true (Nat.toDigits 10 d.digits) e) d := by
  have length := length_toDigits top
  have first := head_toDigits_ne_zero pos
  obtain ⟨c, cs, digits⟩ := List.exists_cons_of_ne_nil (digits_toDigits d.digits).1
  have isDigit := isDigit_toDigits d.digits
  have value := Nat.ofDigitChars_ten_toDigits (n := d.digits)
  rw [digits] at length first isDigit value ⊢
  have fraction : (if cs.isEmpty then none else some cs).getD [] = cs := by
    cases cs <;> rfl
  refine ⟨⟨negative, [c], if cs.isEmpty then none else some cs,
    some (decide (e < 0), Nat.toDigits 10 e.natAbs)⟩, rfl, ⟨⟨by simp, ?_⟩, .inr ?_, ?_, ?_⟩, ?_,
    .inr (by simp), ?_⟩
  · simpa using isDigit c List.mem_cons_self
  · simpa using first
  · rintro digits some
    split at some
    · cases some
    · next nonempty =>
      cases some
      exact ⟨by simpa using nonempty, fun c mem => isDigit c (List.mem_cons_of_mem _ mem)⟩
  · rintro sign exponent ⟨⟩
    exact digits_toDigits _
  · cases cs <;> by_cases small : e < 0 <;>
      simp [unsigned, fractionText, exponentText, Layout.scientific, small]
  · rw [decimal_of_exponent, fraction, List.singleton_append, value]
    rw [List.length_cons] at length
    congr 2
    omega

end Notations

/-- Whatever notation the size of a decimal asks for, it is read as the decimal. -/
theorem exists_spells_decimal {d : Decimal} (pos : 0 < d.digits) (negative : Bool) :
    ∃ number : NumberText,
      number.negative = negative ∧ number.Spells (numberLayout.decimal d) d := by
  have top : d.top = d.top - 1 + 1 := by omega
  unfold Layout.decimal
  dsimp only
  split
  · by_cases below : d.top - 1 < 0
    · exact exists_spells_below_one top negative below
    · by_cases whole : (Nat.toDigits 10 d.digits).length ≤ (d.top - 1).toNat + 1
      · exact exists_spells_whole top negative pos below whole
      · exact exists_spells_within top negative pos below whole
  · exact exists_spells_scientific top negative pos

theorem spells_zero (negative : Bool) :
    Spells ⟨negative, ['0'], some ['0'], none⟩ ['0', '.', '0'] ⟨0, -1⟩ where
  proper := ⟨by simp [Digits], .inl rfl, by simp [Digits], by simp⟩
  unsigned_eq := rfl
  notInteger := .inl (by simp)
  magnitude?_eq := rfl

theorem Spells.numeral_eq {text : List Char} {d : Decimal} {magnitude : Nat}
    (h : number.Spells text d) (read : d.magnitude? = some magnitude) :
    number.numeral = .ok (.real (.ofMagnitude number.negative magnitude)) := by
  rw [numeral_eq_real h.notInteger, real, h.magnitude?_eq, read]

/-- **A finite number is read as it is written**, down to its bits. -/
theorem exists_realText {x : Binary64} (finite : x.isFinite) : ∃ number : NumberText,
    number.Proper ∧ number.text = realText x ∧ number.numeral = .ok (.real x) := by
  -- Sign and magnitude determine the bits, so it is enough to spell the magnitude.
  have spelled : ∃ number : NumberText, number.negative = x.isNegative ∧
      ∃ d, d.magnitude? = some x.magnitude ∧ number.Spells (if x.magnitude = 0 then ['0', '.', '0']
        else numberLayout.decimal (Decimal.shortest x.magnitude)) d := by
    by_cases zero : x.magnitude = 0
    · rw [if_pos zero, zero]
      exact ⟨_, rfl, _, rfl, spells_zero x.isNegative⟩
    · have read := Decimal.magnitude?_shortest zero (of_decide_eq_true finite)
      have pos := Decimal.digits_pos_of_magnitude? zero read
      obtain ⟨number, sign, spells⟩ := exists_spells_decimal pos x.isNegative
      rw [if_neg zero]
      exact ⟨number, sign, _, read, spells⟩
  obtain ⟨number, sign, d, read, spells⟩ := spelled
  refine ⟨number, spells.proper, ?_, ?_⟩
  · rw [realText, if_pos finite, text, sign, spells.unsigned_eq]
    rfl
  · rw [spells.numeral_eq read, sign, Binary64.ofMagnitude_magnitude]

end NumberText

section Numerals

variable {tail : List Char}

theorem scanNumeral_int {value : Int} (low : -2 ^ 63 ≤ value) (high : value < 2 ^ 64)
    (boundary : Boundary tail) :
    scanNumeral ((toString value).toList ++ tail) = .ok (.int value, tail) := by
  rw [← NumberText.text_ofInt]
  exact (NumberText.proper_ofInt value).scanNumeral_text boundary
    (NumberText.numeral_ofInt low high)

theorem scanNumeral_real {x : Binary64} (finite : x.isFinite) (boundary : Boundary tail) :
    scanNumeral (realText x ++ tail) = .ok (.real x, tail) := by
  obtain ⟨number, proper, text, value⟩ := NumberText.exists_realText finite
  rw [← text]
  exact proper.scanNumeral_text boundary value

end Numerals

end ArrayKernel.Json
