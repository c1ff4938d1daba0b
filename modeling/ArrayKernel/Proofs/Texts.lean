import ArrayKernel.Json.Writer
import ArrayKernel.Proofs.Numerals
import ArrayKernel.Proofs.Quoting

/-!
JSON values as they stand in a text: what the text of a value starts with, and what it is followed
by.
-/

namespace ArrayKernel.Json

/-! ### Where a value starts -/

theorem isBlank_of_isDigit {c : Char} (digit : c = '-' ∨ c.isDigit) :
    isBlank c = false ∧ c ≠ ']' := by
  rcases digit with rfl | digit
  · decide
  · have range := isDigit_iff.mp digit
    constructor
    · refine Bool.eq_false_iff.mpr fun blank => ?_
      simp only [isBlank, Bool.or_eq_true, beq_iff_eq] at blank
      rcases blank with ((rfl | rfl) | rfl) | rfl <;> exact absurd range (by decide)
    · rintro rfl
      exact absurd range (by decide)

theorem realText_eq_cons (x : Binary64) :
    ∃ c cs, realText x = c :: cs ∧ isBlank c = false ∧ c ≠ ']' := by
  by_cases finite : x.isFinite
  · obtain ⟨number, proper, text, -⟩ := NumberText.exists_realText finite
    obtain ⟨c, cs, eq, starts⟩ := proper.text_eq_cons
    exact ⟨c, cs, text ▸ eq, isBlank_of_isDigit starts⟩
  · exact ⟨'n', ['u', 'l', 'l'], by rw [realText, if_neg finite], by decide⟩

section Texts

variable (style : Style) (level : Nat) (tail : List Char)

/-- A value starts with no blank, and not with what closes a list. -/
theorem write_eq_cons (value : Json) :
    ∃ c cs, value.write style level tail = c :: cs ∧ isBlank c = false ∧ c ≠ ']' := by
  cases value with
  | null => exact ⟨'n', _, by rw [write], by decide⟩
  | bool value => cases value <;> exact ⟨_, _, by rw [write], by decide⟩
  | int value =>
      obtain ⟨c, cs, eq, starts⟩ := (NumberText.proper_ofInt value).text_eq_cons
      rw [NumberText.text_ofInt] at eq
      exact ⟨c, cs ++ tail, by rw [write, eq, List.cons_append], isBlank_of_isDigit starts⟩
  | real value =>
      obtain ⟨c, cs, eq, starts⟩ := realText_eq_cons value
      exact ⟨c, cs ++ tail, by rw [write, eq, List.cons_append], starts⟩
  | string value => exact ⟨'"', _, by rw [write, quote], by decide⟩
  | list items => cases items <;> exact ⟨'[', _, by rw [write], by decide⟩
  | object fields => rcases fields with _ | ⟨⟨key, value⟩, fields⟩ <;>
      exact ⟨'\x7b', _, by rw [write], by decide⟩

variable {style level tail}

theorem skipBlanks_cons {c : Char} {s : List Char} (h : isBlank c = false) :
    skipBlanks (c :: s) = c :: s := by
  rw [skipBlanks, List.dropWhile_cons_of_neg (by simp [h])]

theorem skipBlanks_write (value : Json) :
    skipBlanks (value.write style level tail) = value.write style level tail := by
  obtain ⟨c, cs, eq, blank, -⟩ := write_eq_cons style level tail value
  rw [eq, skipBlanks_cons blank]

@[simp] theorem skipBlanks_newline :
    skipBlanks (style.newline level tail) = skipBlanks tail := by
  cases style with
  | compact => rfl
  | indented =>
      have blanks : ∀ c ∈ '\n' :: List.replicate (2 * level) ' ', isBlank c := by
        intro c mem
        rcases List.mem_cons.mp mem with rfl | mem
        · decide
        · rw [List.eq_of_mem_replicate mem]
          decide
      rw [Style.newline, skipBlanks, ← List.cons_append, List.dropWhile_append_of_pos blanks,
        skipBlanks]

/-! ### What follows a value -/

theorem boundary_comma : Boundary (',' :: tail) := by
  simp [Boundary]

theorem boundary_newline {c : Char} (close : c = ']' ∨ c = '\x7d') :
    Boundary (style.newline level (c :: tail)) := by
  cases style with
  | compact => rcases close with rfl | rfl <;> simp [Style.newline, Boundary]
  | indented => simp [Style.newline, Boundary]

theorem boundary_writeItems (items : List Json) : Boundary (writeItems style level items tail) := by
  cases items with
  | nil => rw [writeItems]; exact boundary_newline (.inl rfl)
  | cons item items => rw [writeItems]; exact boundary_comma

theorem boundary_writeFields (fields : List (String × Json)) :
    Boundary (writeFields style level fields tail) := by
  rcases fields with _ | ⟨⟨key, value⟩, fields⟩
  · rw [writeFields]
    exact boundary_newline (.inr rfl)
  · rw [writeFields]
    exact boundary_comma

theorem skipBlanks_quote (key : String) : skipBlanks (quote key tail) = quote key tail :=
  skipBlanks_cons (by decide)

/-- A key is read from its quotes. -/
theorem scanKey_of_skipBlanks {s : List Char} {key : String}
    (text : skipBlanks s = quote key tail) : scanKey s = .ok (key, tail) := by
  simp only [scanKey, text, quote, if_true, scanQuoted_flatMap_escape, String.ofList_toList]

theorem scanKey_newline (key : String) :
    scanKey (style.newline level (quote key tail)) = .ok (key, tail) :=
  scanKey_of_skipBlanks (skipBlanks_newline.trans (skipBlanks_quote key))

/-- After the colon stands the value, perhaps after a blank. -/
theorem exists_scanColon (style : Style) (tail : List Char) :
    ∃ s, scanColon (style.colon tail) = .ok s ∧ skipBlanks s = skipBlanks tail := by
  cases style with
  | compact => exact ⟨tail, rfl, rfl⟩
  | indented => exact ⟨' ' :: tail, rfl, rfl⟩

end Texts

end ArrayKernel.Json
