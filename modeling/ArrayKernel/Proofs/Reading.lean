import ArrayKernel.Loop.Text
import ArrayKernel.Proofs.Immediates
import ArrayKernel.Proofs.Lexing
import Mathlib.Data.List.Forall2

/-!
Printed expressions read back.

An expression is printed with as few parentheses as the precedences of its operators allow. Read by
the grammar, its text gives the expression back, without element types, with one exception: a
negative immediate prints as an operator and an operand, and as the base of a power it is read as a
power under a minus.

* `Expr.lexed_text`: the tokens of the text.
* `Expr.derives_tokens`: the grammar takes these tokens for `Expr.reading`.
* `Expr.reading_eq_erased_iff`: which is the expression itself unless it has a negative base.
* `Expr.text_reads_back_iff`: all of this together.
-/

namespace ArrayKernel.Loop.Expr

open Grammar (Alphabet Token Term Phrase Derives Lexed Firm)

/-! ### What is read -/

/-- The magnitude of a negative integer immediate. -/
def negative? : Expr → Option Nat
  | .int value _ => if value.toInt < 0 then some value.toInt.natAbs else none
  | _ => none

mutual

/-- The variables and buffers of an expression. -/
def names : Expr → List String
  | .int .. | .float .. | .bool _ => []
  | .var v => [v.name]
  | .load buffer indices => buffer.name :: namesOfList indices
  | .arith _ lhs rhs => lhs.names ++ rhs.names
  | .compare _ lhs rhs => lhs.names ++ rhs.names
  | .unary _ operand => operand.names

/-- The variables and buffers of a list of expressions. -/
def namesOfList : List Expr → List String
  | [] => []
  | e :: es => e.names ++ namesOfList es

end

mutual

/-- Is a negative immediate the base of a power, anywhere in an expression? -/
def hasNegativeBase : Expr → Bool
  | .int .. | .float .. | .bool _ | .var _ => false
  | .load _ indices => anyNegativeBase indices
  | .arith op lhs rhs =>
      op == .pow && lhs.negative?.isSome || lhs.hasNegativeBase || rhs.hasNegativeBase
  | .compare _ lhs rhs => lhs.hasNegativeBase || rhs.hasNegativeBase
  | .unary _ operand => operand.hasNegativeBase

/-- Is a negative immediate the base of a power, anywhere in a list of expressions? -/
def anyNegativeBase : List Expr → Bool
  | [] => false
  | e :: es => e.hasNegativeBase || anyNegativeBase es

end

mutual

/-- An expression without element types and without the types of its buffers. A negative immediate
is a minus before its magnitude. -/
def erased : Expr → Term
  | .int value _ =>
      if value.toInt < 0 then .unary .minus (.number value.toInt.natAbs)
      else .number value.toInt.natAbs
  | .float value _ => .float value
  | .bool value => .truth value
  | .var v => .name v.name
  | .load buffer indices => .element buffer.name (erasedList indices)
  | .arith op lhs rhs => .arith op lhs.erased rhs.erased
  | .compare op lhs rhs => .compare lhs.erased [(op, rhs.erased)]
  | .unary op operand => .unary op operand.erased

/-- A list of expressions without types. -/
def erasedList : List Expr → List Term
  | [] => []
  | e :: es => e.erased :: erasedList es

end

mutual

/-- What the text of an expression is read as: a minus before a power applies to the whole power,
also where it belongs to an immediate. -/
def reading : Expr → Term
  | .int value _ =>
      if value.toInt < 0 then .unary .minus (.number value.toInt.natAbs)
      else .number value.toInt.natAbs
  | .float value _ => .float value
  | .bool value => .truth value
  | .var v => .name v.name
  | .load buffer indices => .element buffer.name (readingOfList indices)
  | .arith op lhs rhs =>
      match op, lhs.negative? with
      | .pow, some magnitude => .unary .minus (.arith .pow (.number magnitude) rhs.reading)
      | op, _ => .arith op lhs.reading rhs.reading
  | .compare op lhs rhs => .compare lhs.reading [(op, rhs.reading)]
  | .unary op operand => .unary op operand.reading

/-- What the texts of a list of expressions are read as. -/
def readingOfList : List Expr → List Term
  | [] => []
  | e :: es => e.reading :: readingOfList es

end

theorem reading_arith {op : ArithOp} {lhs rhs : Expr}
    (h : (op == .pow && lhs.negative?.isSome) = false) :
    (Expr.arith op lhs rhs).reading = .arith op lhs.reading rhs.reading := by
  rw [reading]
  rintro magnitude rfl found
  simp [found] at h

mutual

/-- **The exception is the only one**: an expression is read as itself exactly if no power in it has
a negative base. -/
theorem reading_eq_erased_iff : ∀ e : Expr, e.reading = e.erased ↔ e.hasNegativeBase = false
  | .int .. | .float .. | .bool _ | .var _ => by simp [reading, erased, hasNegativeBase]
  | .arith op lhs rhs => by
      have hl := reading_eq_erased_iff lhs
      have hr := reading_eq_erased_iff rhs
      by_cases base : (op == .pow && lhs.negative?.isSome) = true
      · obtain ⟨pow, negative⟩ := Bool.and_eq_true_iff.mp base
        obtain ⟨magnitude, found⟩ := Option.isSome_iff_exists.mp negative
        simp only [beq_iff_eq] at pow
        subst pow
        simp [reading, erased, hasNegativeBase, found]
      · have base := Bool.eq_false_iff.mpr base
        simp [reading_arith base, erased, hasNegativeBase, base, hl, hr]
  | .compare op lhs rhs => by
      simp [reading, erased, hasNegativeBase, reading_eq_erased_iff lhs, reading_eq_erased_iff rhs]
  | .unary op operand => by
      simp [reading, erased, hasNegativeBase, reading_eq_erased_iff operand]
  | .load buffer indices => by
      simp [reading, erased, hasNegativeBase, readingOfList_eq_erasedList_iff indices]

theorem readingOfList_eq_erasedList_iff : ∀ es : List Expr,
    readingOfList es = erasedList es ↔ anyNegativeBase es = false
  | [] => by simp [readingOfList, erasedList, anyNegativeBase]
  | e :: es => by
      simp [readingOfList, erasedList, anyNegativeBase, reading_eq_erased_iff e,
        readingOfList_eq_erasedList_iff es]

end

/-! ### Tokens -/

/-- Puts tokens in parentheses if they are needed. -/
def enclose (needed : Bool) (ts : List Token) : List Token :=
  if needed then .parenOpen :: (ts ++ [.parenClose]) else ts

/-- The tokens of an index list, each index being given by its tokens. -/
def indexTokens : List (List Token) → List Token
  | [] => [.parenOpen, .parenClose]
  | ts :: others => ts ++ others.flatMap (.comma :: ·)

/-- The token of a unary operator. -/
def signToken : UnaryOp → Token
  | .plus => .arith .add
  | .minus => .arith .sub
  | .not => .word "not"
  | .invert => .tilde

mutual

/-- The tokens of an expression's text. Floating-point immediates are left out. -/
def tokens : Expr → List Token
  | .int value _ =>
      if value.toInt < 0 then [.arith .sub, .number value.toInt.natAbs]
      else [.number value.toInt.natAbs]
  | .float .. => []
  | .bool value => [.word (if value then "True" else "False")]
  | .var v => [.word v.name]
  | .load buffer indices =>
      .word buffer.name :: .bracketOpen :: (indexTokens (tokensOfList indices) ++ [.bracketClose])
  | .arith op l r =>
      enclose (op.association.leftParens op.precedence l.precedence) l.tokens ++
        .arith op :: enclose (op.association.rightParens op.precedence r.precedence) r.tokens
  | .compare op l r =>
      enclose (Association.neither.leftParens CompareOp.precedence l.precedence) l.tokens ++
        .compare op ::
          enclose (Association.neither.rightParens CompareOp.precedence r.precedence) r.tokens
  | .unary op e => signToken op :: enclose (e.precedence < op.precedence) e.tokens

/-- The tokens of each of several expressions. -/
def tokensOfList : List Expr → List (List Token)
  | [] => []
  | e :: es => e.tokens :: tokensOfList es

end

section Text

variable {A : Alphabet}

theorem firm_parenOpen : Firm A ['('] [.parenOpen] :=
  Grammar.firm_mark (by decide) fun _ => rfl

theorem firm_parenClose : Firm A [')'] [.parenClose] :=
  Grammar.firm_mark (by decide) fun _ => rfl

theorem lexed_parenthesize {needed : Bool} {text : String} {ts : List Token}
    (h : Lexed A text.toList ts) :
    Lexed A (parenthesize needed text).toList (enclose needed ts) := by
  cases needed with
  | false => exact h
  | true =>
      have closed : Firm A (text.toList ++ [')']) (ts ++ [.parenClose]) :=
        h.append_firm firm_parenClose fun rest => Grammar.separated_of_isMark (by decide) rest
      have whole := (firm_parenOpen.append closed).lexed
      simpa [parenthesize, enclose, String.toList_append] using whole

theorem lexed_int (value : Int64) (type : ElementType) :
    Lexed A (Expr.int value type).text.toList (Expr.int value type).tokens := by
  rw [text, tokens, Int.toString_eq_repr]
  cases value.toInt with
  | ofNat n =>
      have lexed : Lexed A (Nat.toDigits 10 n) [.number n] := Grammar.lexed_number n
      simpa [Int.repr, Nat.repr, Int.not_lt.mpr (Int.natCast_nonneg n)] using lexed
  | negSucc n =>
      have minus : Firm A ['-'] [.arith .sub] := Grammar.firm_mark (by decide) fun _ => rfl
      have lexed := minus.append_lexed (Grammar.lexed_number (A := A) (n + 1))
      simpa [Int.repr, Nat.repr, String.toList_append, Int.negSucc_lt_zero] using lexed

theorem lexed_bool (value : Bool) :
    Lexed A (Expr.bool value).text.toList (Expr.bool value).tokens := by
  cases value with
  | true => exact Grammar.lexed_letters (by decide)
  | false => exact Grammar.lexed_letters (by decide)

/-- Two operands with an operator between blanks. -/
theorem lexed_binary {symbol l r : String} {tok : Token} {ts us : List Token}
    (hl : Lexed A l.toList ts) (hop : Firm A (' ' :: (symbol.toList ++ [' '])) [tok])
    (hr : Lexed A r.toList us) :
    Lexed A (l ++ " " ++ symbol ++ " " ++ r).toList (ts ++ tok :: us) := by
  have left : Firm A (l.toList ++ ' ' :: (symbol.toList ++ [' '])) (ts ++ [tok]) :=
    hl.append_firm hop fun rest => Grammar.separated_blank _
  have whole := left.append_lexed hr
  simpa [String.toList_append] using whole

theorem firm_sign (op : UnaryOp) : Firm A op.symbol.toList [signToken op] := by
  cases op with
  | plus => exact Grammar.firm_mark (by decide) fun _ => rfl
  | minus => exact Grammar.firm_mark (by decide) fun _ => rfl
  | invert => exact Grammar.firm_mark (by decide) fun _ => rfl
  | not =>
      have word : Lexed A ['n', 'o', 't'] [.word "not"] := Grammar.lexed_letters (by decide)
      exact word.append_firm Grammar.firm_blank fun rest => Grammar.separated_blank rest

theorem lexed_indexText {texts : List String} {tss : List (List Token)}
    (h : List.Forall₂ (fun text ts => Lexed A text.toList ts) texts tss) :
    Lexed A (indexText texts).toList (indexTokens tss) := by
  cases h with
  | nil => exact (firm_parenOpen.append firm_parenClose).lexed
  | cons head tail =>
      rename_i text ts texts tss
      have comma : Firm A [',', ' '] [.comma] :=
        (Grammar.firm_mark (by decide) fun _ => rfl).append Grammar.firm_blank
      show Lexed A (String.intercalate ", " (text :: texts)).toList (indexTokens (ts :: tss))
      induction tail generalizing text ts with
      | nil => simpa [indexTokens] using head
      | cons next _ ih =>
          have left := head.append_firm comma fun rest => Grammar.separated_of_isMark (by decide) _
          have whole := left.append_lexed (ih next)
          simpa [String.toList_intercalate, indexTokens, List.intercalate] using whole

mutual

theorem lexed_text : ∀ e : Expr, e.floats = [] → (∀ id ∈ e.names, A.isName id) →
    Lexed A e.text.toList e.tokens
  | .int value type, _, _ => lexed_int value type
  | .float _ _, noFloat, _ => by simp [floats] at noFloat
  | .bool value, _, _ => lexed_bool value
  | .var v, _, named => by
      have name : A.isName v.name := named v.name (by simp [names])
      simpa [text, tokens] using Grammar.lexed_name name
  | .load buffer indices, noFloat, named => by
      simp only [names, List.forall_mem_cons] at named
      have openBracket : Firm A ['['] [.bracketOpen] :=
        Grammar.firm_mark (by decide) fun _ => rfl
      have closeBracket : Firm A [']'] [.bracketClose] :=
        Grammar.firm_mark (by decide) fun _ => rfl
      have inside := lexed_indexText (lexed_texts indices noFloat named.2)
      have name := (Grammar.lexed_name named.1).append_firm openBracket fun rest =>
        Grammar.separated_of_isMark (by decide) rest
      have whole := name.append (inside.append_firm closeBracket fun rest =>
        Grammar.separated_of_isMark (by decide) rest)
      simpa [text, tokens, String.toList_append] using whole.lexed
  | .arith op l r, noFloat, named => by
      simp only [floats, List.append_eq_nil_iff] at noFloat
      simp only [names, List.forall_mem_append] at named
      rw [text, tokens]
      exact lexed_binary (lexed_parenthesize (lexed_text l noFloat.1 named.1))
        (Grammar.firm_arith op) (lexed_parenthesize (lexed_text r noFloat.2 named.2))
  | .compare op l r, noFloat, named => by
      simp only [floats, List.append_eq_nil_iff] at noFloat
      simp only [names, List.forall_mem_append] at named
      rw [text, tokens]
      exact lexed_binary (lexed_parenthesize (lexed_text l noFloat.1 named.1))
        (Grammar.firm_compare op) (lexed_parenthesize (lexed_text r noFloat.2 named.2))
  | .unary op e, noFloat, named => by
      rw [text, tokens, String.toList_append]
      exact (firm_sign op).append_lexed (lexed_parenthesize (lexed_text e noFloat named))

theorem lexed_texts : ∀ es : List Expr, floatsOfList es = [] →
    (∀ id ∈ namesOfList es, A.isName id) →
    List.Forall₂ (fun text ts => Lexed A text.toList ts) (texts es) (tokensOfList es)
  | [], _, _ => .nil
  | e :: es, noFloat, named => by
      simp only [floatsOfList, List.append_eq_nil_iff] at noFloat
      simp only [namesOfList, List.forall_mem_append] at named
      exact .cons (lexed_text e noFloat.1 named.1) (lexed_texts es noFloat.2 named.2)

end

end Text

/-! ### Derivations -/

/-- The tightest kind of phrase that the text of an expression is. -/
def phrase : Expr → Phrase
  | .int value _ => if value.toInt < 0 then .sign else .atom
  | .float .. | .bool _ | .var _ | .load .. => .atom
  | .arith op l _ => if op == .pow && l.negative?.isSome then .sign else Grammar.ofArith op
  | .compare .. => .comparison
  | .unary .not _ => .negation
  | .unary .plus _ | .unary .minus _ | .unary .invert _ => .sign

/-- The precedence of a kind of phrases, on the scale of the operators' precedences. -/
def rankOf : Phrase → Nat
  | .negation => 4
  | .comparison | .chain => 6
  | .sum => 8
  | .product => 10
  | .sign => 11
  | .power => 12
  | .atom | .indexed => 13

/-- A phrase is one of every looser kind. -/
theorem derives_looser {p q : Phrase} {ts : List Token} {t : Term} (h : Derives q ts t)
    (hq : q.entry = q) (hp : p.entry = p) (le : rankOf p ≤ rankOf q) : Derives p ts t := by
  by_cases same : p = q
  · exact same ▸ h
  · have step : ∃ r, p.inner? = some r ∧ r.entry = r ∧ rankOf p < rankOf r ∧
        rankOf r ≤ rankOf q := by
      cases p <;> cases q <;> simp_all [rankOf, Phrase.inner?, Phrase.entry]
    obtain ⟨r, inner, hr, lt, le'⟩ := step
    exact .inner inner (derives_looser h hq hr le')
termination_by 13 - rankOf p
decreasing_by
  have : rankOf r ≤ 13 := by cases r <;> decide
  omega

/-- The text of an expression is at least as tight as its precedence, except that a negative
immediate and a power of one are no tighter than other phrases with a sign. -/
theorem le_rankOf_phrase (e : Expr) : min e.precedence 11 ≤ rankOf e.phrase := by
  cases e with
  | int value type =>
      simp only [phrase]
      split
      · exact Nat.min_le_right _ _
      · exact Nat.min_le_left _ _
  | float value type => exact Nat.min_le_left _ _
  | bool value => exact Nat.min_le_left _ _
  | var v => exact Nat.min_le_left _ _
  | load buffer indices => exact Nat.min_le_left _ _
  | arith op l r =>
      simp only [phrase]
      split
      · exact Nat.min_le_right _ _
      · cases op <;> exact Nat.min_le_left _ _
  | compare op l r => exact Nat.min_le_left _ _
  | unary op e => cases op <;> exact Nat.min_le_left _ _

theorem entry_phrase (e : Expr) : e.phrase.entry = e.phrase := by
  cases e with
  | int value type => simp only [phrase]; split <;> rfl
  | arith op l r =>
      simp only [phrase]
      split
      · rfl
      · cases op <;> rfl
  | unary op e => cases op <;> rfl
  | _ => rfl

/-- An operand is of the kind that its place asks for, if it has parentheses or is tight enough. -/
theorem derives_enclose {e : Expr} {p : Phrase} {needed : Bool} {ts : List Token} {t : Term}
    (h : Derives e.phrase ts t) (hp : p.entry = p)
    (enough : needed = false → rankOf p ≤ rankOf e.phrase) : Derives p (enclose needed ts) t := by
  cases needed with
  | false => exact derives_looser h e.entry_phrase hp (enough rfl)
  | true =>
      have least : rankOf .negation ≤ rankOf e.phrase := by
        cases e.phrase <;> decide
      have inside : Derives .negation ts t := derives_looser h e.entry_phrase rfl least
      have most : rankOf p ≤ rankOf .atom := by cases p <;> decide
      exact derives_looser (.group inside) rfl hp most

/-- Up to the signs, an operand without parentheses is as tight as its precedence says. There are no
precedences between those of comparisons, sums and products. -/
theorem rankOf_le {e : Expr} {p : Phrase} {bound : Nat} (tight : bound ≤ e.precedence)
    (next : ∀ q : Phrase, min bound 11 ≤ rankOf q → rankOf p ≤ rankOf q) :
    rankOf p ≤ rankOf e.phrase := by
  apply next
  have := e.le_rankOf_phrase
  omega

/-- The indices of an element, one after the other. -/
theorem derives_indices {id : String} {ts : List Token} {indices : List Term}
    {tss : List (List Token)} {others : List Term}
    (h : Derives .indexed ts (.element id indices))
    (more : List.Forall₂ (Derives .negation) tss others) :
    Derives .indexed (ts ++ tss.flatMap (.comma :: ·)) (.element id (indices ++ others)) := by
  induction more generalizing ts indices with
  | nil => simpa using h
  | cons head _ ih => simpa using ih (h.nextIndex head)

theorem derives_element {id : String} (free : id ∉ Grammar.reserved) {tss : List (List Token)}
    {indices : List Term} (h : List.Forall₂ (Derives .negation) tss indices) :
    Derives .atom (.word id :: .bracketOpen :: (indexTokens tss ++ [.bracketClose]))
      (.element id indices) := by
  cases h with
  | nil => exact .unindexed free
  | cons head tail =>
      have indexed := derives_indices (.firstIndex free head) tail
      exact .element indexed

/-- A base without parentheses is an atom, if it is no negative immediate. -/
theorem phrase_eq_atom {e : Expr} (tight : 12 < e.precedence) (base : e.negative? = none) :
    e.phrase = .atom := by
  cases e with
  | int value type =>
      by_cases negative : value.toInt < 0
      · simp [negative?, negative] at base
      · simp [phrase, negative]
  | arith op l r => cases op <;> simp [precedence, ArithOp.precedence] at tight
  | compare op l r => simp [precedence, CompareOp.precedence] at tight
  | unary op e => cases op <;> simp [precedence, UnaryOp.precedence] at tight
  | _ => rfl

section Operands

variable {l r : Expr} {ts us : List Token} {t u : Term}

theorem derives_sum {op : ArithOp} (kind : Grammar.ofArith op = .sum)
    (hl : Derives l.phrase ts t) (hr : Derives r.phrase us u) :
    Derives .sum
      (enclose (op.association.leftParens op.precedence l.precedence) ts ++
        .arith op :: enclose (op.association.rightParens op.precedence r.precedence) us)
      (.arith op t u) := by
  have place : op.association = .left ∧ op.precedence = 8 := by
    revert kind
    cases op <;> decide
  rw [place.1, place.2]
  refine .sum kind (derives_enclose hl rfl fun free => ?_) (derives_enclose hr rfl fun free => ?_)
  · have tight : 8 ≤ l.precedence := Nat.le_of_not_lt (of_decide_eq_false free)
    exact rankOf_le tight fun q => by cases q <;> decide
  · have tight : 8 < r.precedence := Nat.lt_of_not_le (of_decide_eq_false free)
    exact rankOf_le tight fun q => by cases q <;> decide

theorem derives_product {op : ArithOp} (kind : Grammar.ofArith op = .product)
    (hl : Derives l.phrase ts t) (hr : Derives r.phrase us u) :
    Derives .product
      (enclose (op.association.leftParens op.precedence l.precedence) ts ++
        .arith op :: enclose (op.association.rightParens op.precedence r.precedence) us)
      (.arith op t u) := by
  have place : op.association = .left ∧ op.precedence = 10 := by
    revert kind
    cases op <;> decide
  rw [place.1, place.2]
  refine .product kind (derives_enclose hl rfl fun free => ?_)
    (derives_enclose hr rfl fun free => ?_)
  · have tight : 10 ≤ l.precedence := Nat.le_of_not_lt (of_decide_eq_false free)
    exact rankOf_le tight fun q => by cases q <;> decide
  · have tight : 10 < r.precedence := Nat.lt_of_not_le (of_decide_eq_false free)
    exact rankOf_le tight fun q => by cases q <;> decide

/-- The exponent of a power is a phrase that may have a sign. -/
theorem derives_exponent (hr : Derives r.phrase us u) :
    Derives .sign (enclose (Association.right.rightParens 12 r.precedence) us) u := by
  refine derives_enclose hr rfl fun free => ?_
  have tight : 12 ≤ r.precedence := Nat.le_of_not_lt (of_decide_eq_false free)
  exact rankOf_le tight fun q => by cases q <;> decide

theorem derives_power (base : l.negative? = none) (hl : Derives l.phrase ts t)
    (hr : Derives r.phrase us u) :
    Derives .power
      (enclose (Association.right.leftParens 12 l.precedence) ts ++
        .arith .pow :: enclose (Association.right.rightParens 12 r.precedence) us)
      (.arith .pow t u) := by
  refine .power (derives_enclose hl rfl fun free => ?_) (derives_exponent hr)
  have tight : 12 < l.precedence := Nat.lt_of_not_le (of_decide_eq_false free)
  exact Nat.le_of_eq (congrArg rankOf (phrase_eq_atom tight base)).symm

theorem derives_arith {op : ArithOp} (base : (op == .pow && l.negative?.isSome) = false)
    (hl : Derives l.phrase ts t) (hr : Derives r.phrase us u) :
    Derives (Grammar.ofArith op)
      (enclose (op.association.leftParens op.precedence l.precedence) ts ++
        .arith op :: enclose (op.association.rightParens op.precedence r.precedence) us)
      (.arith op t u) := by
  cases op with
  | add => exact derives_sum rfl hl hr
  | sub => exact derives_sum rfl hl hr
  | mul => exact derives_product rfl hl hr
  | div => exact derives_product rfl hl hr
  | floorDiv => exact derives_product rfl hl hr
  | mod => exact derives_product rfl hl hr
  | pow => exact derives_power (by simpa using base) hl hr

/-- A power of a negative immediate starts with a minus, which is read last. -/
theorem derives_negativeBase {op : ArithOp} (base : (op == .pow && l.negative?.isSome) = true)
    (hr : Derives r.phrase r.tokens r.reading) :
    Derives (Expr.arith op l r).phrase (Expr.arith op l r).tokens (Expr.arith op l r).reading := by
  obtain ⟨pow, isSome⟩ := Bool.and_eq_true_iff.mp base
  obtain rfl : op = .pow := by simpa using pow
  obtain ⟨magnitude, found⟩ := Option.isSome_iff_exists.mp isSome
  have tokens_eq : l.tokens = [.arith .sub, .number magnitude] ∧ l.precedence = 13 := by
    cases l with
    | int value type =>
        by_cases negative : value.toInt < 0
        · simp only [negative?, if_pos negative, Option.some.injEq] at found
          exact ⟨by rw [tokens, if_pos negative, found], rfl⟩
        · simp [negative?, negative] at found
    | _ => cases found
  have tokens_arith : (Expr.arith .pow l r).tokens = .arith .sub :: ([.number magnitude] ++
      .arith .pow :: enclose (Association.right.rightParens 12 r.precedence) r.tokens) := by
    rw [tokens, tokens_eq.1, tokens_eq.2]
    rfl
  have kind : (Expr.arith .pow l r).phrase = .sign := by simp [phrase, found]
  have meant : (Expr.arith .pow l r).reading =
      .unary .minus (.arith .pow (.number magnitude) r.reading) := by simp [reading, found]
  rw [tokens_arith, kind, meant]
  exact .sign rfl (.inner rfl (.power .number (derives_exponent hr)))

theorem derives_compare {op : CompareOp} (hl : Derives l.phrase ts t)
    (hr : Derives r.phrase us u) :
    Derives .comparison
      (enclose (Association.neither.leftParens CompareOp.precedence l.precedence) ts ++
        .compare op ::
          enclose (Association.neither.rightParens CompareOp.precedence r.precedence) us)
      (.compare t [(op, u)]) := by
  refine .chain (.firstLink (derives_enclose hl rfl fun free => ?_)
    (derives_enclose hr rfl fun free => ?_))
  · have tight : 6 < l.precedence := Nat.lt_of_not_le (of_decide_eq_false free)
    exact rankOf_le tight fun q => by cases q <;> decide
  · have tight : 6 < r.precedence := Nat.lt_of_not_le (of_decide_eq_false free)
    exact rankOf_le tight fun q => by cases q <;> decide

theorem derives_unary (op : UnaryOp) (h : Derives l.phrase ts t) :
    Derives (Expr.unary op l).phrase (signToken op :: enclose (l.precedence < op.precedence) ts)
      (.unary op t) := by
  have signed (sign : op.precedence = 11) :
      Derives .sign (enclose (l.precedence < op.precedence) ts) t := by
    refine derives_enclose h rfl fun free => ?_
    have tight : 11 ≤ l.precedence := by simpa [sign] using free
    exact rankOf_le tight fun q => by cases q <;> decide
  cases op with
  | plus => exact .sign rfl (signed rfl)
  | minus => exact .sign rfl (signed rfl)
  | invert => exact .sign rfl (signed rfl)
  | not =>
      refine .negation (derives_enclose h rfl fun _ => ?_)
      cases l.phrase <;> decide

end Operands

variable {A : Alphabet}

mutual

/-- **The grammar reads the tokens of an expression** as `reading` says. -/
theorem derives_tokens : ∀ e : Expr, e.floats = [] → (∀ id ∈ e.names, A.isName id) →
    Derives e.phrase e.tokens e.reading
  | .int value type, _, _ => by
      by_cases negative : value.toInt < 0
      · have minus : Token.sign? (.arith .sub) = some .minus := rfl
        simpa [phrase, tokens, reading, negative] using
          Derives.sign minus (.inner rfl (.inner rfl .number))
      · simpa [phrase, tokens, reading, negative] using .number
  | .float _ _, noFloat, _ => by simp [floats] at noFloat
  | .bool true, _, _ => .yes
  | .bool false, _, _ => .no
  | .var v, _, named => .name (A.not_mem_reserved (named v.name (by simp [names])))
  | .load buffer indices, noFloat, named => by
      simp only [names, List.forall_mem_cons] at named
      exact derives_element (A.not_mem_reserved named.1)
        (derives_tokensOfList indices noFloat named.2)
  | .arith op l r, noFloat, named => by
      simp only [floats, List.append_eq_nil_iff] at noFloat
      simp only [names, List.forall_mem_append] at named
      have hl := derives_tokens l noFloat.1 named.1
      have hr := derives_tokens r noFloat.2 named.2
      by_cases base : (op == .pow && l.negative?.isSome) = true
      · exact derives_negativeBase base hr
      · have base := Bool.eq_false_iff.mpr base
        simp only [phrase, tokens, base, reading_arith base]
        exact derives_arith base hl hr
  | .compare op l r, noFloat, named => by
      simp only [floats, List.append_eq_nil_iff] at noFloat
      simp only [names, List.forall_mem_append] at named
      simp only [tokens, reading]
      exact derives_compare (derives_tokens l noFloat.1 named.1)
        (derives_tokens r noFloat.2 named.2)
  | .unary op e, noFloat, named => by
      simp only [tokens, reading]
      exact derives_unary op (derives_tokens e noFloat named)

theorem derives_tokensOfList : ∀ es : List Expr, floatsOfList es = [] →
    (∀ id ∈ namesOfList es, A.isName id) →
    List.Forall₂ (Derives .negation) (tokensOfList es) (readingOfList es)
  | [], _, _ => .nil
  | e :: es, noFloat, named => by
      simp only [floatsOfList, List.append_eq_nil_iff] at noFloat
      simp only [namesOfList, List.forall_mem_append] at named
      have head : Derives .negation e.tokens e.reading :=
        derives_looser (derives_tokens e noFloat.1 named.1) e.entry_phrase rfl
          (by cases e.phrase <;> decide)
      exact .cons head (derives_tokensOfList es noFloat.2 named.2)

end

/-! ### Reading back -/

/-- **Printed expressions read back as themselves**, under any alphabet of names. For an expression
without floating-point immediates whose variables and buffers have names, the text is read as the
expression without its types exactly if no negative immediate is the base of a power. -/
theorem text_reads_back_iff (A : Alphabet) (e : Expr) (noFloat : e.floats = [])
    (named : ∀ id ∈ e.names, A.isName id) :
    Grammar.meaning A e.text = some e.erased ↔ e.hasNegativeBase = false := by
  have tokens_eq : Grammar.tokenize A e.text.toList = some e.tokens :=
    (lexed_text e noFloat named).tokenize_eq
  have derived : Derives .negation e.tokens e.reading :=
    derives_looser (derives_tokens e noFloat named) e.entry_phrase rfl
      (by cases e.phrase <;> decide)
  rw [Grammar.meaning, tokens_eq, Option.bind_some, Grammar.readAll_eq_some_iff.mpr derived,
    Option.some.injEq]
  exact reading_eq_erased_iff e

/-- A minus before a product or in an exponent belongs to its immediate, and one before a power does
not: `-3 * x ** -2` is read as it was printed, and `-3 ** x` is not. -/
theorem text_reads_back_iff_minus :
    Grammar.meaning .ascii "-3 * x ** -2" =
        some (.arith .mul (.unary .minus (.number 3))
          (.arith .pow (.name "x") (.unary .minus (.number 2)))) ∧
      Grammar.meaning .ascii "-3 ** x" ≠
        some (.arith .pow (.unary .minus (.number 3)) (.name "x")) := by
  have x : ∀ id ∈ ["x"], Alphabet.ascii.isName id := by decide
  constructor
  · exact (text_reads_back_iff .ascii (.arith .mul (.int (-3) .int64)
      (.arith .pow (.var ⟨"x", .int64⟩) (.int (-2) .int64))) rfl x).mpr rfl
  · intro read
    have free := (text_reads_back_iff .ascii
      (.arith .pow (.int (-3) .int64) (.var ⟨"x", .int64⟩)) rfl x).mp read
    exact absurd free (by decide)

end ArrayKernel.Loop.Expr
