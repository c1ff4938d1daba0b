import ArrayKernel.Json.Lexeme

/-!
Quoted texts: how characters are escaped, and how a text is read back or skipped. The keys of
objects are quoted texts too.
-/

namespace ArrayKernel.Json

/-! ### Writing -/

/-- A character inside quotes: quotes, backslashes and control characters are escaped. -/
def escape (c : Char) : List Char :=
  match c with
  | '"' => ['\\', '"']
  | '\\' => ['\\', '\\']
  | '\x08' => ['\\', 'b']
  | '\x09' => ['\\', 't']
  | '\x0a' => ['\\', 'n']
  | '\x0c' => ['\\', 'f']
  | '\x0d' => ['\\', 'r']
  | c =>
      if c.toNat < 32 then
        ['\\', 'u', '0', '0', Nat.digitChar (c.toNat / 16), Nat.digitChar (c.toNat % 16)]
      else [c]

/-- A text in quotes. -/
def quote (text : String) (tail : List Char) : List Char :=
  '"' :: (text.toList.flatMap escape ++ '"' :: tail)

/-! ### Reading -/

/-- The value of a hexadecimal digit. -/
def hexValue? (c : Char) : Option Nat :=
  if '0' ≤ c ∧ c ≤ '9' then some (c.toNat - '0'.toNat)
  else if 'a' ≤ c ∧ c ≤ 'f' then some (c.toNat - 'a'.toNat + 10)
  else if 'A' ≤ c ∧ c ≤ 'F' then some (c.toNat - 'A'.toNat + 10)
  else none

/-- The number of bytes that characters take up in UTF-8. -/
def byteCount (s : List Char) : Nat :=
  s.foldr (fun c count => c.utf8Size + count) 0

/-- Reads four hexadecimal digits. The text is cut off only if fewer than four bytes are left. -/
def scanHex (s : List Char) : Except Problem (Nat × List Char) :=
  if byteCount (s.take 4) < 4 then .error .truncated
  else match s with
    | a :: b :: c :: d :: t =>
        match hexValue? a, hexValue? b, hexValue? c, hexValue? d with
        | some a, some b, some c, some d => .ok (((a * 16 + b) * 16 + c) * 16 + d, t)
        | _, _, _, _ => .error .malformed
    | _ => .error .malformed

theorem length_lt_of_scanHex {s t : List Char} {n : Nat} (h : scanHex s = .ok (n, t)) :
    t.length < s.length := by
  unfold scanHex at h
  split at h
  · simp at h
  · split at h
    · split at h
      · simp only [Except.ok.injEq, Prod.mk.injEq] at h
        simp only [← h.2, List.length_cons]
        omega
      · simp at h
    · simp at h

/-- Is a code unit the first half of a surrogate pair? -/
def isLeading (n : Nat) : Bool := 0xD800 ≤ n && n < 0xDC00

/-- Is a code unit the second half of a surrogate pair? -/
def isTrailing (n : Nat) : Bool := 0xDC00 ≤ n && n < 0xE000

/-- Reads the character of a numeric escape, after its mark. A leading surrogate must be followed
by the escape of a trailing one, and a trailing one stands for no character by itself. -/
def scanUnicode (s : List Char) : Except Problem (Char × List Char) :=
  match scanHex s with
  | .error problem => .error problem
  | .ok (n, t) =>
      if isTrailing n then .error .malformed
      else if isLeading n then
        match t with
        | [] | ['\\'] => .error .truncated
        | '\\' :: 'u' :: u =>
            match scanHex u with
            | .error problem => .error problem
            | .ok (m, rest) =>
                if isTrailing m then
                  .ok (Char.ofNat ((n - 0xD800) * 0x400 + (m - 0xDC00) + 0x10000), rest)
                else .error .malformed
        | _ => .error .malformed
      else .ok (Char.ofNat n, t)

theorem length_lt_of_scanUnicode {s t : List Char} {c : Char} (h : scanUnicode s = .ok (c, t)) :
    t.length < s.length := by
  unfold scanUnicode at h
  split at h
  · simp at h
  · next n u first =>
    have shorter := length_lt_of_scanHex first
    split at h
    · simp at h
    · split at h
      · split at h
        · simp at h
        · simp at h
        · next v _ =>
          split at h
          · simp at h
          · next m rest second =>
            have := length_lt_of_scanHex second
            split at h
            · simp only [Except.ok.injEq, Prod.mk.injEq] at h
              simp only [List.length_cons] at shorter
              rw [← h.2]
              omega
            · simp at h
        · simp at h
      · simp only [Except.ok.injEq, Prod.mk.injEq] at h
        exact h.2 ▸ shorter

/-- The character of a one-letter escape. -/
def unescape? : Char → Option Char
  | '"' => some '"'
  | '\\' => some '\\'
  | '/' => some '/'
  | 'b' => some '\x08'
  | 'f' => some '\x0c'
  | 'n' => some '\n'
  | 'r' => some '\r'
  | 't' => some '\t'
  | _ => none

/-- Reads an escape, after its backslash. -/
def scanEscape : List Char → Except Problem (Char × List Char)
  | [] => .error .truncated
  | c :: s =>
      if c = 'u' then scanUnicode s
      else match unescape? c with
        | some d => .ok (d, s)
        | none => .error .malformed

theorem length_lt_of_scanEscape {s t : List Char} {c : Char} (h : scanEscape s = .ok (c, t)) :
    t.length < s.length := by
  unfold scanEscape at h
  split at h
  · simp at h
  · split at h
    · exact Nat.lt_succ_of_lt (length_lt_of_scanUnicode h)
    · split at h
      · simp only [Except.ok.injEq, Prod.mk.injEq] at h
        simp [← h.2]
      · simp at h

/-- Reads a quoted text, after its opening quote, up to and including the closing one. -/
def scanQuoted (s : List Char) : Except Problem (List Char × List Char) :=
  match s with
  | [] => .error .truncated
  | c :: rest =>
      if c = '"' then .ok ([], rest)
      else if c = '\\' then
        match h : scanEscape rest with
        | .error problem => .error problem
        | .ok (d, t) =>
            have : t.length < rest.length := length_lt_of_scanEscape h
            match scanQuoted t with
            | .error problem => .error problem
            | .ok (text, u) => .ok (d :: text, u)
      else if c.toNat < 32 then .error .malformed
      else
        match scanQuoted rest with
        | .error problem => .error problem
        | .ok (text, u) => .ok (c :: text, u)
termination_by s.length

theorem length_lt_of_scanQuoted {s t text : List Char} (h : scanQuoted s = .ok (text, t)) :
    t.length < s.length := by
  fun_induction scanQuoted s generalizing text t with
  | case1 => simp at h
  | case2 rest =>
    simp only [Except.ok.injEq, Prod.mk.injEq] at h
    simp [← h.2]
  | case3 => simp at h
  | case4 => simp at h
  | case5 rest d u _ _ text' v inner _ ih =>
    simp only [Except.ok.injEq, Prod.mk.injEq] at h
    have := ih inner
    rw [← h.2, List.length_cons]
    omega
  | case6 => simp at h
  | case7 => simp at h
  | case8 c rest _ _ _ text' v inner ih =>
    simp only [Except.ok.injEq, Prod.mk.injEq] at h
    have := ih inner
    rw [← h.2, List.length_cons]
    omega

/-! ### Skipping -/

/-- Skips an escape, after its backslash. A numeric escape may be half of a character. -/
def skipEscape : List Char → Except Problem (List Char)
  | [] => .error .truncated
  | c :: s =>
      if c = 'u' then
        match scanHex s with
        | .error problem => .error problem
        | .ok (_, t) => .ok t
      else if (unescape? c).isSome then .ok s
      else .error .malformed

theorem length_lt_of_skipEscape {s t : List Char} (h : skipEscape s = .ok t) :
    t.length < s.length := by
  unfold skipEscape at h
  split at h
  · simp at h
  · split at h
    · split at h
      · simp at h
      · next inner =>
        simp only [Except.ok.injEq] at h
        exact h ▸ Nat.lt_succ_of_lt (length_lt_of_scanHex inner)
    · split at h
      · simp only [Except.ok.injEq] at h
        simp [← h]
      · simp at h

/-- Skips a quoted text, after its opening quote. -/
def skipQuoted (s : List Char) : Except Problem (List Char) :=
  match s with
  | [] => .error .truncated
  | c :: rest =>
      if c = '"' then .ok rest
      else if c = '\\' then
        match h : skipEscape rest with
        | .error problem => .error problem
        | .ok t =>
            have : t.length < rest.length := length_lt_of_skipEscape h
            skipQuoted t
      else if c.toNat < 32 then .error .malformed
      else skipQuoted rest
termination_by s.length

theorem length_lt_of_skipQuoted {s t : List Char} (h : skipQuoted s = .ok t) :
    t.length < s.length := by
  fun_induction skipQuoted s generalizing t with
  | case1 => simp at h
  | case2 rest =>
    simp only [Except.ok.injEq] at h
    simp [← h]
  | case3 => simp at h
  | case4 rest u _ shorter _ ih =>
    have := ih h
    rw [List.length_cons]
    omega
  | case5 => simp at h
  | case6 c rest _ _ _ ih => exact Nat.lt_succ_of_lt (ih h)

/-! ### Keys -/

/-- Reads a key of an object. Nothing but a quoted text can stand there, so any other value is
malformed and not of another kind. -/
def scanKey (s : List Char) : Except Problem (String × List Char) :=
  match skipBlanks s with
  | [] => .error .truncated
  | c :: t =>
      if c = '"' then
        match scanQuoted t with
        | .error problem => .error problem
        | .ok (key, u) => .ok (String.ofList key, u)
      else .error .malformed

theorem length_lt_of_scanKey {s t : List Char} {key : String} (h : scanKey s = .ok (key, t)) :
    t.length < s.length := by
  unfold scanKey at h
  split at h
  · simp at h
  · next found =>
    split at h
    · split at h
      · simp at h
      · next quoted =>
        simp only [Except.ok.injEq, Prod.mk.injEq] at h
        rw [← h.2]
        exact Nat.lt_trans (length_lt_of_scanQuoted quoted) (length_lt_of_skipBlanks found)
    · simp at h

end ArrayKernel.Json
