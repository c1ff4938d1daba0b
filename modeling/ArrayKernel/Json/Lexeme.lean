import ArrayKernel.Json.Basic

/-!
Blanks, words and colons of a JSON text. Every scanner takes the text from its current place on
and returns what follows; lemmas named `length_…` say that it never gets longer, on which the
termination of all readers rests.
-/

namespace ArrayKernel.Json

/-- The characters that may stand between leaves. -/
def isBlank (c : Char) : Bool :=
  c == ' ' || c == '\n' || c == '\t' || c == '\r'

/-- Skips blanks. -/
def skipBlanks (s : List Char) : List Char :=
  s.dropWhile isBlank

theorem length_skipBlanks_le (s : List Char) : (skipBlanks s).length ≤ s.length :=
  (List.dropWhile_sublist isBlank).length_le

/-- What follows a character that is no blank is shorter than the text. -/
theorem length_lt_of_skipBlanks {s t : List Char} {c : Char} (h : skipBlanks s = c :: t) :
    t.length < s.length := by
  have shorter := length_skipBlanks_le s
  rwa [h, List.length_cons] at shorter

/-- Reads the given letters. -/
def scanWord : List Char → List Char → Except Problem (List Char)
  | [], s => .ok s
  | _ :: _, [] => .error .truncated
  | c :: word, d :: s => if c = d then scanWord word s else .error .malformed

theorem length_le_of_scanWord {word s t : List Char} (h : scanWord word s = .ok t) :
    t.length ≤ s.length := by
  fun_induction scanWord word s with
  | case1 s => simp_all
  | case2 => simp at h
  | case3 word c s ih => exact Nat.le_succ_of_le (ih h)
  | case4 => simp at h

/-- Reads a colon. -/
def scanColon (s : List Char) : Except Problem (List Char) :=
  match skipBlanks s with
  | [] => .error .truncated
  | c :: t => if c = ':' then .ok t else .error .malformed

theorem length_lt_of_scanColon {s t : List Char} (h : scanColon s = .ok t) :
    t.length < s.length := by
  unfold scanColon at h
  split at h
  · simp at h
  · next c u found =>
    split at h
    · simp only [Except.ok.injEq] at h
      exact h ▸ length_lt_of_skipBlanks found
    · simp at h

end ArrayKernel.Json
