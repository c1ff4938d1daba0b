import ArrayKernel.Proofs.Digits
import ArrayKernel.Proofs.Unambiguous

/-!
The tokens of a text.

Which characters make up names is left open beyond the ASCII ones (`Alphabet`). Tokens are as long
as they can be, so a name or a number ends before a character that could not go on with it: a text
that ends in one is `Lexed` only if such a character follows, and all other texts are `Firm`.
-/

namespace ArrayKernel.Grammar

/-- The characters of names: among the ASCII ones letters, the underscore and, except in front,
digits. Others may be added. -/
structure Alphabet where
  starts : Char → Bool
  continues : Char → Bool
  starts_ascii : ∀ c : Char, c.toNat < 128 → starts c = (c.isAlpha || c == '_')
  continues_ascii : ∀ c : Char, c.toNat < 128 → continues c = (c.isAlphanum || c == '_')

/-- The alphabet without any further characters. -/
def Alphabet.ascii : Alphabet where
  starts c := c.isAlpha || c == '_'
  continues c := c.isAlphanum || c == '_'
  starts_ascii _ _ := rfl
  continues_ascii _ _ := rfl

/-- Is a text a name, and no reserved word? -/
def Alphabet.isName (A : Alphabet) (id : String) : Bool :=
  match id.toList with
  | [] => false
  | c :: cs => A.starts c && cs.all A.continues && !reserved.contains id

theorem Alphabet.not_mem_reserved {A : Alphabet} {id : String} (name : A.isName id) :
    id ∉ reserved := by
  unfold isName at name
  split at name
  · cases name
  · simp only [Bool.and_eq_true, Bool.not_eq_true', List.contains_eq_mem,
      decide_eq_false_iff_not] at name
    exact name.2

/-- The operator or bracket at the front of a text. -/
def scanMark : List Char → Option (Token × List Char)
  | '*' :: '*' :: s => some (.arith .pow, s)
  | '/' :: '/' :: s => some (.arith .floorDiv, s)
  | '=' :: '=' :: s => some (.compare .eq, s)
  | '!' :: '=' :: s => some (.compare .ne, s)
  | '<' :: '=' :: s => some (.compare .le, s)
  | '>' :: '=' :: s => some (.compare .ge, s)
  | '*' :: s => some (.arith .mul, s)
  | '/' :: s => some (.arith .div, s)
  | '<' :: s => some (.compare .lt, s)
  | '>' :: s => some (.compare .gt, s)
  | '+' :: s => some (.arith .add, s)
  | '-' :: s => some (.arith .sub, s)
  | '%' :: s => some (.arith .mod, s)
  | '~' :: s => some (.tilde, s)
  | '(' :: s => some (.parenOpen, s)
  | ')' :: s => some (.parenClose, s)
  | '[' :: s => some (.bracketOpen, s)
  | ']' :: s => some (.bracketClose, s)
  | ',' :: s => some (.comma, s)
  | _ => none

theorem length_lt_of_scanMark {s t : List Char} {tok : Token} (h : scanMark s = some (tok, t)) :
    t.length < s.length := by
  unfold scanMark at h
  split at h <;> cases h <;> simp only [List.length_cons] <;> omega

/-- The token at the front of a text. -/
def scanToken (A : Alphabet) : List Char → Option (Token × List Char)
  | [] => none
  | c :: s =>
      if A.starts c then
        some (.word (String.ofList (c :: s.takeWhile A.continues)), s.dropWhile A.continues)
      else if c.isDigit then
        some (.number (Nat.ofDigitChars 10 (c :: s.takeWhile Char.isDigit) 0),
          s.dropWhile Char.isDigit)
      else scanMark (c :: s)

theorem length_lt_of_scanToken {A : Alphabet} {s t : List Char} {tok : Token}
    (h : scanToken A s = some (tok, t)) : t.length < s.length := by
  unfold scanToken at h
  split at h
  · cases h
  · next c s =>
    split at h
    · cases h
      exact Nat.lt_succ_of_le (List.dropWhile_sublist _).length_le
    · split at h
      · cases h
        exact Nat.lt_succ_of_le (List.dropWhile_sublist _).length_le
      · exact length_lt_of_scanMark h

/-- The tokens of a text; blanks may stand between them. -/
def tokenize (A : Alphabet) (s : List Char) : Option (List Token) :=
  match s with
  | [] => some []
  | c :: t =>
      if c = ' ' then tokenize A t
      else
        match found : scanToken A (c :: t) with
        | none => none
        | some (tok, rest) =>
            have := length_lt_of_scanToken found
            (tokenize A rest).map (tok :: ·)
termination_by s.length
decreasing_by
  · exact Nat.lt_succ_self _
  · exact this

/-- What a text means. -/
def meaning (A : Alphabet) (text : String) : Option Term :=
  (tokenize A text.toList).bind readAll

/-! ### Texts and their tokens -/

section Lexed

variable {A : Alphabet}

/-- No name or number goes on here. -/
def Separated (A : Alphabet) (rest : List Char) : Prop :=
  ∀ c ∈ rest.head?, A.continues c = false

/-- A text has these tokens, whatever follows. -/
def Firm (A : Alphabet) (text : List Char) (tokens : List Token) : Prop :=
  ∀ rest, tokenize A (text ++ rest) = (tokenize A rest).map (tokens ++ ·)

/-- A text has these tokens, if no name or number goes on after it. -/
def Lexed (A : Alphabet) (text : List Char) (tokens : List Token) : Prop :=
  ∀ rest, Separated A rest → tokenize A (text ++ rest) = (tokenize A rest).map (tokens ++ ·)

theorem Firm.lexed {text : List Char} {tokens : List Token} (h : Firm A text tokens) :
    Lexed A text tokens :=
  fun rest _ => h rest

theorem Firm.append {text text' : List Char} {tokens tokens' : List Token}
    (h : Firm A text tokens) (h' : Firm A text' tokens') :
    Firm A (text ++ text') (tokens ++ tokens') := by
  intro rest
  rw [List.append_assoc, h, h', Option.map_map]
  simp [Function.comp_def]

theorem Firm.append_lexed {text text' : List Char} {tokens tokens' : List Token}
    (h : Firm A text tokens) (h' : Lexed A text' tokens') :
    Lexed A (text ++ text') (tokens ++ tokens') := by
  intro rest separated
  rw [List.append_assoc, h, h' rest separated, Option.map_map]
  simp [Function.comp_def]

/-- A text ends where a mark follows. -/
theorem Lexed.append_firm {text text' : List Char} {tokens tokens' : List Token}
    (h : Lexed A text tokens) (h' : Firm A text' tokens')
    (separated : ∀ rest, Separated A (text' ++ rest)) :
    Firm A (text ++ text') (tokens ++ tokens') := by
  intro rest
  rw [List.append_assoc, h _ (separated rest), h', Option.map_map]
  simp [Function.comp_def]

theorem Lexed.tokenize_eq {text : List Char} {tokens : List Token} (h : Lexed A text tokens) :
    tokenize A text = some tokens := by
  have whole := h [] (by simp [Separated])
  rw [List.append_nil] at whole
  rw [whole, tokenize]
  simp

/-! Blanks and marks. -/

theorem firm_blank : Firm A [' '] [] := by
  intro rest
  rw [List.singleton_append, tokenize, if_pos rfl]
  simp

theorem tokenize_of_scanToken {c : Char} {s rest : List Char} {tok : Token} (ne : c ≠ ' ')
    (h : scanToken A (c :: s) = some (tok, rest)) :
    tokenize A (c :: s) = (tokenize A rest).map (tok :: ·) := by
  rw [tokenize, if_neg ne]
  split
  · next none => rw [h] at none; cases none
  · next tok' rest' found =>
    rw [h] at found
    cases found
    rfl

/-- The ASCII characters that neither are blanks nor occur in names and numbers. -/
def isMark (c : Char) : Bool :=
  c.toNat < 128 && !c.isAlphanum && c != '_' && c != ' '

theorem separated_of_isMark {c : Char} (mark : isMark c) (rest : List Char) :
    Separated A (c :: rest) := by
  simp only [isMark, Bool.and_eq_true, decide_eq_true_eq, Bool.not_eq_true', bne_iff_ne] at mark
  obtain ⟨⟨⟨ascii, alphanum⟩, underscore⟩, -⟩ := mark
  simp [Separated, A.continues_ascii c ascii, alphanum, underscore]

theorem separated_blank (rest : List Char) : Separated A (' ' :: rest) := by
  simp [Separated, A.continues_ascii ' ' (by decide)]

theorem tokenize_mark {c : Char} {s rest : List Char} {tok : Token} (mark : isMark c)
    (h : scanMark (c :: s) = some (tok, rest)) :
    tokenize A (c :: s) = (tokenize A rest).map (tok :: ·) := by
  simp only [isMark, Char.isAlphanum, Bool.and_eq_true, decide_eq_true_eq, Bool.not_eq_true',
    Bool.or_eq_false_iff, bne_iff_ne] at mark
  obtain ⟨⟨⟨ascii, alpha, digit⟩, underscore⟩, blank⟩ := mark
  refine tokenize_of_scanToken blank ?_
  simp [scanToken, A.starts_ascii c ascii, alpha, digit, underscore, h]

/-- A single character that is a token by itself, whatever follows. -/
theorem firm_mark {c : Char} {tok : Token} (mark : isMark c)
    (h : ∀ rest, scanMark (c :: rest) = some (tok, rest)) : Firm A [c] [tok] := by
  intro rest
  simpa using tokenize_mark mark (h rest)

/-- A mark between blanks. -/
theorem firm_between {c : Char} {text : List Char} {tok : Token} (mark : isMark c)
    (h : ∀ rest, scanMark (c :: (text ++ ' ' :: rest)) = some (tok, ' ' :: rest)) :
    Firm A (' ' :: (c :: text ++ [' '])) [tok] := by
  intro rest
  have blank : tokenize A (' ' :: rest) = tokenize A rest := by
    rw [tokenize, if_pos rfl]
  rw [List.cons_append, tokenize, if_pos rfl, List.append_assoc, List.singleton_append,
    List.cons_append, tokenize_mark mark (h rest), blank]
  rfl

theorem firm_arith (op : ArithOp) : Firm A (' ' :: (op.symbol.toList ++ [' '])) [.arith op] := by
  cases op <;> exact firm_between (by decide) fun _ => rfl

theorem firm_compare (op : CompareOp) :
    Firm A (' ' :: (op.symbol.toList ++ [' '])) [.compare op] := by
  cases op <;> exact firm_between (by decide) fun _ => rfl

/-! Names and numbers. -/

theorem lexed_word {c : Char} {cs : List Char} (starts : A.starts c)
    (continues : ∀ d ∈ cs, A.continues d) :
    Lexed A (c :: cs) [.word (String.ofList (c :: cs))] := by
  intro rest separated
  have blank : c ≠ ' ' := by
    rintro rfl
    rw [A.starts_ascii ' ' (by decide)] at starts
    exact absurd starts (by decide)
  obtain ⟨taken, dropped⟩ := takeWhile_append_of_all continues separated
  refine tokenize_of_scanToken blank ?_
  simp [scanToken, starts, taken, dropped]

theorem lexed_letters {c : Char} {cs : List Char}
    (letters : (c :: cs).all fun d => d.isAlpha && d.toNat < 128) :
    Lexed A (c :: cs) [.word (String.ofList (c :: cs))] := by
  have letter : ∀ d ∈ c :: cs, d.isAlpha ∧ d.toNat < 128 := by
    simpa using letters
  refine lexed_word ?_ fun d mem => ?_
  · obtain ⟨alpha, ascii⟩ := letter c List.mem_cons_self
    simp [A.starts_ascii c ascii, alpha]
  · obtain ⟨alpha, ascii⟩ := letter d (List.mem_cons_of_mem c mem)
    simp [A.continues_ascii d ascii, Char.isAlphanum, alpha]

theorem lexed_name {id : String} (name : A.isName id) : Lexed A id.toList [.word id] := by
  unfold Alphabet.isName at name
  split at name
  · cases name
  · next c cs chars =>
    simp only [Bool.and_eq_true, List.all_eq_true] at name
    have lexed := lexed_word name.1.1 name.1.2
    rwa [← chars, String.ofList_toList] at lexed

/-- Digits are ASCII characters, and no letters. -/
theorem ascii_of_isDigit {c : Char} (digit : c.isDigit) :
    c.toNat < 128 ∧ c.isAlpha = false ∧ c ≠ '_' ∧ c ≠ ' ' := by
  have range : 48 ≤ c.toNat ∧ c.toNat ≤ 57 := isDigit_iff.mp digit
  have digits : ∀ n, n < 58 → 48 ≤ n →
      (Char.ofNat n).isAlpha = false ∧ Char.ofNat n ≠ '_' ∧ Char.ofNat n ≠ ' ' := by decide
  have other := digits c.toNat (by omega) range.1
  rw [Char.ofNat_toNat] at other
  exact ⟨by omega, other⟩

theorem lexed_number (n : Nat) : Lexed A (Nat.toDigits 10 n) [.number n] := by
  intro rest separated
  have digits := isDigit_toDigits n
  have value : Nat.ofDigitChars 10 (Nat.toDigits 10 n) 0 = n := Nat.ofDigitChars_ten_toDigits
  cases chars : Nat.toDigits 10 n with
  | nil => exact absurd chars Nat.toDigits_ne_nil
  | cons c cs =>
      rw [chars] at digits value
      have digit : c.isDigit := digits c List.mem_cons_self
      obtain ⟨ascii, alpha, underscore, blank⟩ := ascii_of_isDigit digit
      have notLetter : A.starts c = false := by
        simp [A.starts_ascii c ascii, alpha, underscore]
      have stop : ∀ d ∈ rest.head?, d.isDigit = false := by
        intro d mem
        refine Bool.eq_false_iff.mpr fun isDigit => ?_
        have continues := A.continues_ascii d (ascii_of_isDigit isDigit).1
        rw [separated d mem, Char.isAlphanum, isDigit] at continues
        simp at continues
      obtain ⟨taken, dropped⟩ :=
        takeWhile_append_of_all (fun d mem => digits d (List.mem_cons_of_mem c mem)) stop
      refine tokenize_of_scanToken blank ?_
      simp [scanToken, notLetter, digit, taken, dropped, value]

end Lexed

end ArrayKernel.Grammar
