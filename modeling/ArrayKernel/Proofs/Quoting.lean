import ArrayKernel.Json.Quoted

/-!
Quoted texts read back, whatever characters they hold.

Every character is read from its own escape, and what follows it is read as if the text started
there. So a text is read character by character, up to the closing quote.
-/

namespace ArrayKernel.Json

theorem hexValue?_digitChar {n : Nat} (h : n < 16) : hexValue? (Nat.digitChar n) = some n := by
  revert n
  decide

theorem utf8Size_digitChar {n : Nat} (h : n < 16) : (Nat.digitChar n).utf8Size = 1 := by
  revert n
  decide

/-- The number of a control character is read from its four digits. -/
theorem scanHex_control {n : Nat} (control : n < 32) (s : List Char) :
    scanHex ('0' :: '0' :: Nat.digitChar (n / 16) :: Nat.digitChar (n % 16) :: s) =
      .ok (n, s) := by
  have high : n / 16 < 16 := by omega
  have low : n % 16 < 16 := by omega
  have zero : hexValue? '0' = some 0 := by decide
  have number : ((0 * 16 + 0) * 16 + n / 16) * 16 + n % 16 = n := by omega
  simp only [scanHex, byteCount, List.take_succ_cons, List.take_zero, List.foldr_cons,
    List.foldr_nil, utf8Size_digitChar high, utf8Size_digitChar low, hexValue?_digitChar high,
    hexValue?_digitChar low, zero, number]
  simp [Char.utf8Size]

theorem scanUnicode_control {c : Char} (control : c.toNat < 32) (s : List Char) :
    scanUnicode ('0' :: '0' :: Nat.digitChar (c.toNat / 16) :: Nat.digitChar (c.toNat % 16) :: s) =
      .ok (c, s) := by
  have trailing : isTrailing c.toNat = false := by
    simp [isTrailing]
    omega
  have leading : isLeading c.toNat = false := by
    simp [isLeading]
    omega
  simp [scanUnicode, scanHex_control control, trailing, leading, Char.ofNat_toNat]

/-- Puts a character in front of what was read after it. -/
def putFront (c : Char) (read : List Char × List Char) : List Char × List Char :=
  (c :: read.1, read.2)

theorem scanQuoted_backslash {s t : List Char} {c : Char} (h : scanEscape s = .ok (c, t)) :
    scanQuoted ('\\' :: s) = (scanQuoted t).map (putFront c) := by
  rw [scanQuoted, if_neg (by decide), if_pos rfl]
  split
  · next failed =>
    rw [h] at failed
    cases failed
  · next found =>
    rw [h] at found
    cases found
    cases scanQuoted t <;> rfl

theorem scanQuoted_plain {c : Char} (quote : c ≠ '"') (backslash : c ≠ '\\')
    (printable : ¬c.toNat < 32) (s : List Char) :
    scanQuoted (c :: s) = (scanQuoted s).map (putFront c) := by
  rw [scanQuoted, if_neg quote, if_neg backslash, if_neg printable]
  cases scanQuoted s <;> rfl

/-- A character is read from its escape. -/
theorem scanQuoted_escape (c : Char) (s : List Char) :
    scanQuoted (escape c ++ s) = (scanQuoted s).map (putFront c) := by
  unfold escape
  split
  case h_8 quote backslash _ _ _ _ _ =>
    split
    · next control => exact scanQuoted_backslash (scanUnicode_control control s)
    · next printable => exact scanQuoted_plain quote backslash printable s
  -- The escapes of one letter.
  all_goals exact scanQuoted_backslash rfl

/-- **A text is read from its quotes**, and what follows them is left. -/
theorem scanQuoted_flatMap_escape (text tail : List Char) :
    scanQuoted (text.flatMap escape ++ '"' :: tail) = .ok (text, tail) := by
  induction text with
  | nil => rw [List.flatMap_nil, List.nil_append, scanQuoted, if_pos rfl]
  | cons c text ih =>
      rw [List.flatMap_cons, List.append_assoc, scanQuoted_escape, ih]
      rfl

end ArrayKernel.Json
