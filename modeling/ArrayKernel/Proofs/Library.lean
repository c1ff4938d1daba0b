import ArrayKernel.Json.Library
import ArrayKernel.Proofs.Nesting
import Mathlib.Data.List.Forall2

/-!
What is assumed of a JSON library.

A library is opaque: nothing is known of its texts, and of its readers only what they do with a text
that the library has written itself. This is what `Library.Layout.Documented` says, one assumption
for each kind of value. Everything about formats is proved from these assumptions. That a decimal is
read as the number it was written for is no part of them: it is asked for one number at a time.

* `Answers`: an answer under a condition.
* `Library.Layout.Exact`: a number is read back from its decimal text.
* `Library.Layout.Reads`: a reader reads a value back, or refuses it because it is nested too deep
  or holds a number that is not finite.
* `Library.Layout.Documented`: what a library is documented to do.
* `Library.Layout.Documented.answers_parse`: what becomes of a value that is printed and parsed.
-/

namespace ArrayKernel.Json

variable {α β γ : Type}

/-! ### Answers under a condition -/

/-- The answer is `a` if `P` holds, and a problem otherwise. -/
def Answers (result : Except Problem α) (P : Prop) (a : α) : Prop :=
  (P → result = .ok a) ∧ (¬P → ∃ problem, result = .error problem)

namespace Answers

variable {result : Except Problem α} {P Q : Prop} {a : α} {b : β}

theorem ok (h : P) : Answers (.ok a) P a :=
  ⟨fun _ => rfl, fun no => absurd h no⟩

theorem error {problem : Problem} (h : ¬P) : Answers (.error problem) P a :=
  ⟨fun yes => absurd yes h, fun _ => ⟨problem, rfl⟩⟩

theorem congr (h : Answers result P a) (iff : P ↔ Q) : Answers result Q a :=
  ⟨fun q => h.1 (iff.mpr q), fun no => h.2 fun p => no (iff.mp p)⟩

/-- One answer after the other: both conditions have to hold. -/
theorem bind {f : α → Except Problem β} (h : Answers result P a) (h' : Answers (f a) Q b) :
    Answers (result.bind f) (P ∧ Q) b := by
  refine ⟨fun ⟨p, q⟩ => ?_, fun no => ?_⟩
  · rw [h.1 p]
    exact h'.1 q
  · by_cases p : P
    · rw [h.1 p]
      exact h'.2 fun q => no ⟨p, q⟩
    · obtain ⟨problem, failed⟩ := h.2 p
      exact ⟨problem, by rw [failed]; rfl⟩

theorem map (f : α → β) (h : Answers result P a) : Answers (result.map f) P (f a) := by
  refine ⟨fun p => by rw [h.1 p]; rfl, fun no => ?_⟩
  obtain ⟨problem, failed⟩ := h.2 no
  exact ⟨problem, by rw [failed]; rfl⟩

/-- Every answer is the value. -/
theorem eq_of_eq_ok {a' : α} (h : Answers result P a) (answer : result = .ok a') : P ∧ a' = a := by
  by_cases p : P
  · rw [h.1 p] at answer
    cases answer
    exact ⟨p, rfl⟩
  · obtain ⟨problem, failed⟩ := h.2 p
    rw [failed] at answer
    cases answer

end Answers

/-! ### Libraries -/

namespace Library

variable {lib : Library}

/-- Where the texts of values stand: `At j s t` says that `s` goes on with the text of `j`, and `t`
is what is left after it. -/
def Layout (lib : Library) : Type := Json → lib.Rest → lib.Rest → Prop

namespace Layout

/-- The decimal text of the number is read as that number. -/
def Exact (At : lib.Layout) (x : Binary64) : Prop :=
  ∀ s t, At (.real x) s t → ∀ depth, lib.run lib.real depth s = .ok (x, t)

/-- The reader reads `j` as `a` where fewer than `levels` brackets may be opened: it returns `a` and
what is left if `j` fits the brackets, and a problem otherwise. The finite numbers in `j` have to be
exact. -/
def Reads (At : lib.Layout) (levels : Nat) (r : lib.Reader α) (j : Json) (a : α) : Prop :=
  (∀ x ∈ j.reals, x.isFinite → At.Exact x) → ∀ depth, depth < levels → ∀ s t, At j s t →
    Answers (lib.run r depth s) (j.Fits depth) (a, t)

/-- The entries of an object, in order, are read as the parts of a record. -/
inductive Takes (At : lib.Layout) (levels : Nat) :
    {α : Type} → Parts lib.Reader α → List (String × Json) → α → Prop where
  | single {α : Type} {key : String} {r : lib.Reader α} {j : Json} {a : α} :
      At.Reads levels r j a → Takes At levels (.single key r) [(key, j)] a
  | cons {α β : Type} {key : String} {r : lib.Reader α} {parts : Parts lib.Reader β} {j : Json}
      {entries : List (String × Json)} {a : α} {b : β} :
      At.Reads levels r j a → Takes At levels parts entries b → key ∉ entries.map Prod.fst →
      Takes At levels (.cons key r parts) ((key, j) :: entries) (a, b)

/-- **What a library is documented to do** with the texts that it writes. -/
structure Documented (At : lib.Layout) : Prop where
  /-- Texts that are nested to the depth of 128 are refused. -/
  limit : lib.limit = 128
  /-- The text of a printed value is all of the text. -/
  layout : ∀ j, ∃ t, At j (lib.start (lib.print j)) t ∧ lib.finished t = true
  /-- Conversions do not touch the text. -/
  conversions : ∀ {α β : Type} (f : α → β) (r : lib.Reader α) depth s,
    lib.run (lib.map f r) depth s = (lib.run r depth s).map fun read => (f read.1, read.2)
  /-- Strings are read as they were before they were escaped. -/
  escapes : ∀ {text : String} {s t}, At (.string text) s t →
    ∀ depth, lib.run lib.string depth s = .ok (text, t)
  truths : ∀ {value : Bool} {s t}, At (.bool value) s t →
    ∀ depth, lib.run lib.bool depth s = .ok (value, t)
  signed : ∀ {value : Int64} {s t}, At (.int value.toInt) s t →
    ∀ depth, lib.run lib.int64 depth s = .ok (value, t)
  unsigned : ∀ {value : UInt64} {s t}, At (.int value.toNat) s t →
    ∀ depth, lib.run lib.uint64 depth s = .ok (value, t)
  /-- What is written for a number that is not finite is not read as a number. -/
  nulls : ∀ {x : Binary64} {s t}, ¬ x.isFinite → At (.real x) s t →
    ∀ depth, ∃ problem, lib.run lib.real depth s = .error problem
  /-- Lists are read item by item, under one more bracket. -/
  lists : ∀ {α : Type} {levels : Nat} {r : lib.Reader α} {js : List Json} {as : List α},
    List.Forall₂ (At.Reads levels r) js as → At.Reads levels (lib.list r) (.list js) as
  pairs : ∀ {α β : Type} {levels : Nat} {r : lib.Reader α} {r' : lib.Reader β} {j j' : Json}
    {a : α} {b : β}, At.Reads levels r j a → At.Reads levels r' j' b →
    At.Reads levels (lib.pair r r') (.list [j, j']) (a, b)
  triples : ∀ {α β γ : Type} {levels : Nat} {r : lib.Reader α} {r' : lib.Reader β}
    {r'' : lib.Reader γ} {j j' j'' : Json} {a : α} {b : β} {c : γ}, At.Reads levels r j a →
    At.Reads levels r' j' b → At.Reads levels r'' j'' c →
    At.Reads levels (lib.triple r r' r'') (.list [j, j', j'']) (a, b, c)
  /-- Records are objects with the keys of their parts. -/
  records : ∀ {α : Type} {levels : Nat} {parts : Parts lib.Reader α}
    {entries : List (String × Json)} {a : α}, At.Takes levels parts entries a →
    At.Reads levels (lib.record parts) (.object entries) a
  /-- Variants without contents are known by their name. -/
  names : ∀ {α : Type} {levels : Nat} {cases : String → Option (Case lib.Reader α)} {tag : String}
    {a : α}, cases tag = some (.constant a) → At.Reads levels (lib.variant cases) (.string tag) a
  /-- Variants with contents are tagged by their name. The contents stand one bracket deeper, so
  that they may be read with one level less. -/
  tags : ∀ {α : Type} {levels : Nat} {cases : String → Option (Case lib.Reader α)} {tag : String}
    {r : lib.Reader α} {j : Json} {a : α}, cases tag = some (.content r) → At.Reads levels r j a →
    At.Reads (levels + 1) (lib.variant cases) (.tagged tag j) a

variable {At : lib.Layout} {levels : Nat} {r : lib.Reader α} {j : Json} {a : α}

theorem Reads.mono {levels' : Nat} (h : At.Reads levels r j a) (le : levels' ≤ levels) :
    At.Reads levels' r j a :=
  fun exact depth lt => h exact depth (Nat.lt_of_lt_of_le lt le)

/-- A value without brackets and numbers to fit is read if its text always is. -/
theorem Reads.of_run (read : ∀ s t, At j s t → ∀ depth, lib.run r depth s = .ok (a, t))
    (fits : ∀ depth, j.Fits depth) : At.Reads levels r j a := by
  intro _ depth _ s t text
  rw [read s t text]
  exact .ok (fits depth)

namespace Documented

theorem reads_map (h : At.Documented) (f : α → β) (read : At.Reads levels r j a) :
    At.Reads levels (lib.map f r) j (f a) := by
  intro exact depth lt s t text
  rw [h.conversions]
  exact (read exact depth lt s t text).map fun read => (f read.1, read.2)

theorem reads_string (h : At.Documented) (text : String) :
    At.Reads levels lib.string (.string text) text :=
  .of_run (fun _ _ => h.escapes) fun _ => fits_string text

theorem reads_bool (h : At.Documented) (value : Bool) :
    At.Reads levels lib.bool (.bool value) value :=
  .of_run (fun _ _ => h.truths) fun _ => fits_bool value

theorem reads_int64 (h : At.Documented) (value : Int64) :
    At.Reads levels lib.int64 (.int value.toInt) value :=
  .of_run (fun _ _ => h.signed) fun _ => fits_int _

theorem reads_uint64 (h : At.Documented) (value : UInt64) :
    At.Reads levels lib.uint64 (.int value.toNat) value :=
  .of_run (fun _ _ => h.unsigned) fun _ => fits_int _

/-- A floating-point number is read if it is finite. -/
theorem reads_real (h : At.Documented) (x : Binary64) : At.Reads levels lib.real (.real x) x := by
  intro exact depth _ s t start
  by_cases finite : x.isFinite
  · rw [exact x (by simp [reals]) finite s t start]
    exact .ok (fits_real_iff.mpr finite)
  · obtain ⟨problem, refused⟩ := h.nulls finite start depth
    rw [refused]
    exact .error fun fits => finite (fits_real_iff.mp fits)

/-- Items of one kind are read as a list. -/
theorem reads_list_map (h : At.Documented) {toJson : α → Json}
    (item : ∀ a, At.Reads levels r (toJson a) a) (as : List α) :
    At.Reads levels (lib.list r) (.list (as.map toJson)) as := by
  apply h.lists
  induction as with
  | nil => exact .nil
  | cons a as ih => exact .cons (item a) ih

theorem reads_enum (h : At.Documented) {values : List α} {name : α → String}
    (found : (values.find? fun value => name value == name a) = some a) :
    At.Reads levels (lib.enum values name) (.string (name a)) a :=
  h.names (by rw [found]; rfl)

/-- **Parsing what was printed** gives the value back if it is not nested too deep and all its
numbers are finite, and a problem otherwise. -/
theorem answers_parse (h : At.Documented) (read : At.Reads lib.limit r j a)
    (exact : ∀ x ∈ j.reals, x.isFinite → At.Exact x) :
    Answers (lib.parse r (lib.print j)) (j.Fits 127) a := by
  obtain ⟨t, text, finished⟩ := h.layout j
  have answers := read exact 127 (by rw [h.limit]; decide) _ _ text
  have brackets : lib.limit - 1 = 127 := by rw [h.limit]
  refine ⟨fun fits => ?_, fun no => ?_⟩
  · simp [parse, brackets, answers.1 fits, finished]
  · obtain ⟨problem, failed⟩ := answers.2 no
    exact ⟨problem, by simp only [parse, brackets, failed]⟩

end Documented

end Layout

end Library

end ArrayKernel.Json
