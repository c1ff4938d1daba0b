import ArrayKernel.Json.Variant
import ArrayKernel.Proofs.Library
import ArrayKernel.Proofs.Texts

/-!
What the readers of this project do with texts that were written: they return the value, or they
refuse the text because it is nested too deep or holds a number that is not finite.

`Reads r j a` says that `r` reads the text of `j` as `a` whenever `j` fits the brackets that may be
opened, and answers with a problem otherwise. There is one lemma for each reader, and the lemma for
a composed reader rests on those of its parts.
-/

namespace ArrayKernel.Json

variable {α β : Type}

/-- The reader reads the text of `j` as `a` where fewer than `levels` brackets may be opened. -/
def Reads (style : Style) (levels : Nat) (r : Reader α) (j : Json) (a : α) : Prop :=
  ∀ depth, depth < levels → ∀ level s tail, Boundary tail →
    skipBlanks s = j.write style level tail → Answers (r.run depth s) (j.Fits depth) (a, tail)

variable {style : Style} {levels : Nat}

namespace Reader

theorem run_map (f : α → β) (r : Reader α) (depth : Nat) (s : List Char) :
    (r.map f).run depth s = (r.run depth s).map fun read => (f read.1, read.2) := by
  simp only [map, refine]
  cases r.run depth s <;> rfl

end Reader

theorem Reads.map {r : Reader α} {j : Json} {a : α} (h : Reads style levels r j a) (f : α → β) :
    Reads style levels (r.map f) j (f a) := by
  intro depth lt level s tail boundary text
  rw [Reader.run_map]
  exact (h depth lt level s tail boundary text).map fun read => (f read.1, read.2)

/-! ### Leaves -/

namespace Reader

theorem reads_string (text : String) : Reads style levels string (.string text) text := by
  intro depth _ level s tail _ start
  rw [write, quote] at start
  simp only [string, run_map, leaf, start, scanQuoted_flatMap_escape, Except.map,
    String.ofList_toList]
  exact .ok (fits_string text)

theorem reads_bool (value : Bool) : Reads style levels bool (.bool value) value := by
  intro depth _ level s tail _ start
  cases value with
  | true =>
      rw [write] at start
      simp only [bool, leaf, start]
      exact .ok (fits_bool true)
  | false =>
      rw [write] at start
      simp only [bool, leaf, start]
      exact .ok (fits_bool false)

/-- A number is read where one starts. -/
theorem run_numeral {s : List Char} {c : Char} {cs : List Char} (depth : Nat)
    (text : skipBlanks s = c :: cs) (starts : c = '-' ∨ c.isDigit) :
    numeral.run depth s = scanNumeral (c :: cs) := by
  have number : startsNumber (c :: cs) = true := by
    simpa [startsNumber] using starts
  simp only [numeral, leaf, text, number, if_true]

theorem run_numeral_int {s tail : List Char} {value : Int} (depth : Nat)
    (text : skipBlanks s = (toString value).toList ++ tail) (low : -2 ^ 63 ≤ value)
    (high : value < 2 ^ 64) (boundary : Boundary tail) :
    numeral.run depth s = .ok (.int value, tail) := by
  obtain ⟨c, cs, eq, starts⟩ := (NumberText.proper_ofInt value).text_eq_cons
  rw [NumberText.text_ofInt] at eq
  have read := scanNumeral_int low high boundary
  rw [eq] at text read
  rw [run_numeral depth text starts]
  exact read

theorem run_numeral_real {s tail : List Char} {x : Binary64} (depth : Nat)
    (text : skipBlanks s = realText x ++ tail) (finite : x.isFinite) (boundary : Boundary tail) :
    numeral.run depth s = .ok (.real x, tail) := by
  obtain ⟨number, proper, spelled, -⟩ := NumberText.exists_realText finite
  obtain ⟨c, cs, eq, starts⟩ := proper.text_eq_cons
  have read := scanNumeral_real finite boundary
  rw [← spelled, eq] at text read
  rw [run_numeral depth text starts]
  exact read

theorem reads_int64 (value : Int64) : Reads style levels int64 (.int value.toInt) value := by
  intro depth _ level s tail boundary text
  have low := value.le_toInt
  have high := value.toInt_lt
  rw [write] at text
  have read := run_numeral_int depth text low (by omega) boundary
  have small : value.toInt < (Nat.pow 2 63 : Nat) := high
  simp only [int64, refine, read, small, if_true, Int64.ofInt_toInt]
  exact .ok (fits_int _)

theorem reads_uint64 (value : UInt64) : Reads style levels uint64 (.int value.toNat) value := by
  intro depth _ level s tail boundary text
  have high : (value.toNat : Int) < 2 ^ 64 := by
    have := value.toNat_lt
    omega
  rw [write] at text
  have read := run_numeral_int depth text (by omega) high boundary
  have nonneg : (0 : Int) ≤ value.toNat := Int.natCast_nonneg _
  simp only [uint64, refine, read, nonneg, if_true, Int.toNat_natCast, UInt64.ofNat_toNat]
  exact .ok (fits_int _)

/-- A floating-point number is read if it is finite; otherwise a null stands in its place. -/
theorem reads_real (x : Binary64) : Reads style levels real (.real x) x := by
  intro depth _ level s tail boundary text
  rw [write] at text
  by_cases finite : x.isFinite
  · simp only [real, refine, run_numeral_real depth text finite boundary]
    exact .ok (fits_real_iff.mpr finite)
  · have null : skipBlanks s = 'n' :: 'u' :: 'l' :: 'l' :: tail := by
      rw [text, realText, if_neg finite]
      rfl
    have other : startsNumber ('n' :: 'u' :: 'l' :: 'l' :: tail) = false := rfl
    simp only [real, refine, numeral, leaf, null, other]
    exact .error (fun fits => finite (fits_real_iff.mp fits))

/-! ### Lists -/

section Lists

variable {level : Nat} {tail : List Char}

theorem nextItem_close {s : List Char} (first : Bool) (text : skipBlanks s = ']' :: tail) :
    nextItem first s = .ok (false, tail) := by
  simp only [nextItem, text, if_true]

theorem nextItem_first {level' : Nat} (j : Json) :
    nextItem true (style.newline level' (j.write style level tail)) =
      .ok (true, j.write style level tail) := by
  obtain ⟨c, cs, eq, blank, open'⟩ := write_eq_cons style level tail j
  simp only [nextItem, skipBlanks_newline, eq, skipBlanks_cons blank, open', if_false, if_true]

theorem nextItem_comma {level' : Nat} (j : Json) :
    nextItem false (',' :: style.newline level' (j.write style level tail)) =
      .ok (true, j.write style level tail) := by
  have comma : ∀ s, skipBlanks (',' :: s) = ',' :: s := fun s => skipBlanks_cons (by decide)
  obtain ⟨c, cs, eq, blank, open'⟩ := write_eq_cons style level tail j
  have close : ',' ≠ ']' := by decide
  simp only [nextItem, comma, close, if_false, if_true, skipBlanks_newline, skipBlanks_write]
  simp only [eq, open', if_false, Bool.false_eq_true]

variable {r : Reader α} {depth : Nat} {first : Bool} {s t : List Char}

theorem items_close (step : nextItem first s = .ok (false, t)) :
    items r depth first s = .ok ([], t) := by
  rw [items]
  split <;> simp_all

theorem items_next (step : nextItem first s = .ok (true, t)) :
    items r depth first s = (r.run depth t).bind fun read =>
      (items r depth false read.2).map fun others => (read.1 :: others.1, others.2) := by
  rw [items]
  split
  · simp_all
  · simp_all
  · next u step' =>
    rw [step] at step'
    cases step'
    split
    · next failed => rw [failed]; rfl
    · next a v read =>
      simp only [read, Except.bind]
      cases items r depth false v <;> rfl

/-- The items after the first one are read in turn. -/
theorem answers_items {js : List Json} {as : List α}
    (h : List.Forall₂ (Reads style levels r) js as) (lt : depth < levels) :
    Answers (items r depth false (writeItems style level js tail)) (∀ j ∈ js, j.Fits depth)
      (as, tail) := by
  induction h with
  | nil =>
      have close : skipBlanks (style.newline level (']' :: tail)) = ']' :: tail := by
        rw [skipBlanks_newline, skipBlanks_cons (by decide)]
      rw [writeItems, items_close (nextItem_close false close)]
      exact .ok (by simp)
  | @cons j a js as head _ ih =>
      rw [writeItems, items_next (nextItem_comma j)]
      have read := head depth lt (level + 1) _ (writeItems style level js tail)
        (boundary_writeItems js) (skipBlanks_write j)
      exact (read.bind (ih.map fun others => (a :: others.1, others.2))).congr
        List.forall_mem_cons.symm

end Lists

/-- What starts with a bracket is refused if none may be opened. -/
theorem answers_nested {f : Nat → Except Problem α} {j : Json} {a : α} {depth : Nat}
    (lt : depth < levels) (zero : ¬j.Fits 0)
    (h : ∀ inner, inner < levels → Answers (f inner) (j.Fits (inner + 1)) a) :
    Answers (match depth with | 0 => .error .malformed | inner + 1 => f inner) (j.Fits depth)
      a := by
  cases depth with
  | zero => exact .error zero
  | succ inner => exact h inner (Nat.lt_of_succ_lt lt)

theorem reads_list {r : Reader α} {js : List Json} {as : List α}
    (h : List.Forall₂ (Reads style levels r) js as) :
    Reads style levels (list r) (.list js) as := by
  intro depth lt level s tail _ text
  cases h with
  | nil =>
      rw [write] at text
      simp only [list, text]
      refine answers_nested lt (not_fits_zero_list _) fun inner _ => ?_
      rw [items_close (nextItem_close true (skipBlanks_cons (by decide)))]
      exact .ok (fits_list_iff.mpr (by simp))
  | @cons j a js as head rest =>
      rw [write] at text
      simp only [list, text]
      refine answers_nested lt (not_fits_zero_list _) fun inner lt' => ?_
      rw [items_next (nextItem_first j)]
      have read := head inner lt' (level + 1) _ (writeItems style level js tail)
        (boundary_writeItems js) (skipBlanks_write j)
      refine (read.bind ((answers_items rest lt').map fun others =>
        (a :: others.1, others.2))).congr ?_
      rw [fits_list_iff, List.forall_mem_cons]

/-! ### Variants -/

theorem reads_constant {cases : String → Option (Case Reader α)} {tag : String} {a : α}
    (found : cases tag = some (.constant a)) :
    Reads style levels (variant cases) (.string tag) a := by
  intro depth _ level s tail _ text
  rw [write, quote] at text
  simp only [variant, text, scanQuoted_flatMap_escape, String.ofList_toList, found]
  exact .ok (fits_string tag)

theorem answers_closeObject {result : Except Problem (α × List Char)} {P : Prop} {a : α}
    {s t : List Char} (h : Answers result P (a, s)) (close : skipBlanks s = '\x7d' :: t) :
    Answers (closeObject result) P (a, t) := by
  refine ⟨fun p => ?_, fun no => ?_⟩
  · simp only [h.1 p, closeObject, close, if_true]
  · obtain ⟨problem, failed⟩ := h.2 no
    exact ⟨problem, by rw [failed, closeObject]⟩

/-- The contents of a variant stand one bracket deeper, so they may be read with one level less. -/
theorem reads_tagged {cases : String → Option (Case Reader α)} {tag : String} {r : Reader α}
    {j : Json} {a : α} (found : cases tag = some (.content r)) (h : Reads style levels r j a) :
    Reads style (levels + 1) (variant cases) (.tagged tag j) a := by
  intro depth lt level s tail _ text
  rw [tagged, write] at text
  simp only [variant, text]
  cases depth with
  | zero => exact .error (not_fits_zero_object _)
  | succ inner =>
      have close : skipBlanks (writeFields style level [] tail) = '\x7d' :: tail := by
        rw [writeFields, skipBlanks_newline, skipBlanks_cons (by decide)]
      obtain ⟨u, colon, value⟩ := exists_scanColon style
        (j.write style (level + 1) (writeFields style level [] tail))
      have read := h inner (Nat.lt_of_succ_lt_succ lt) (level + 1) u _ (boundary_writeFields [])
        (value.trans (skipBlanks_write j))
      simp only [variantField, scanKey_newline, found, colon, runCase]
      refine (answers_closeObject read close).congr ?_
      rw [tagged, fits_object_iff]
      simp

end Reader

end ArrayKernel.Json
