import ArrayKernel.Number.Binary64
import ArrayKernel.Operator

/-!
The grammar of Python expressions, as far as loop expressions are written in it.

`Derives` is the grammar: which tokens a phrase of each kind consists of, and what the phrase means.
From the loosest kind on, there are negations, comparisons, sums, products, signed phrases, powers
and atoms. Sums and products associate to the left, comparisons chain, and the exponent of a power
may start with a sign, so that a sign before a power applies to the whole power.

`read` is a reader by recursive descent, with one token of lookahead. By `sound`, whatever it finds
is derived by the grammar.
-/

namespace ArrayKernel.Grammar

/-! ### Tokens and terms -/

inductive Token where
  | number (value : Nat)
  | word (text : String)
  | arith (op : ArithOp)
  | compare (op : CompareOp)
  | tilde
  | parenOpen | parenClose
  | bracketOpen | bracketClose
  | comma
deriving DecidableEq, Repr

/-- What a text means: an expression whose names and numbers have no types. The reader takes no
floating-point numbers. -/
inductive Term where
  | number (value : Nat)
  | float (value : Binary64)
  | truth (value : Bool)
  | name (id : String)
  | element (id : String) (indices : List Term)
  | arith (op : ArithOp) (lhs rhs : Term)
  /-- The first operand of a chain, and the others, each after its operator. -/
  | compare (first : Term) (others : List (CompareOp × Term))
  | unary (op : UnaryOp) (operand : Term)

/-- The words that are no names. -/
def reserved : List String := ["True", "False", "not"]

/-- The operator of a token in front of an operand. -/
def Token.sign? : Token → Option UnaryOp
  | .arith .add => some .plus
  | .arith .sub => some .minus
  | .tilde => some .invert
  | _ => none

/-! ### The grammar -/

/-- The kinds of phrases. A chain is a comparison with an operator in it, and an indexed name is an
element without its closing bracket. -/
inductive Phrase where
  | negation | comparison | chain | sum | product | sign | power | atom | indexed
deriving DecidableEq, Repr

/-- The next tighter kind: a phrase of that kind is one of the looser kind as well. -/
def Phrase.inner? : Phrase → Option Phrase
  | .negation => some .comparison
  | .comparison => some .sum
  | .sum => some .product
  | .product => some .sign
  | .sign => some .power
  | .power => some .atom
  | .chain | .atom | .indexed => none

/-- The kind of phrase that an arithmetic operator makes. -/
def ofArith : ArithOp → Phrase
  | .add | .sub => .sum
  | .mul | .div | .floorDiv | .mod => .product
  | .pow => .power

/-- The tokens of a phrase, and what it means. -/
inductive Derives : Phrase → List Token → Term → Prop where
  | number {value : Nat} : Derives .atom [.number value] (.number value)
  | yes : Derives .atom [.word "True"] (.truth true)
  | no : Derives .atom [.word "False"] (.truth false)
  | name {id : String} : id ∉ reserved → Derives .atom [.word id] (.name id)
  | group {ts : List Token} {t : Term} : Derives .negation ts t →
      Derives .atom (.parenOpen :: (ts ++ [.parenClose])) t
  | unindexed {id : String} : id ∉ reserved →
      Derives .atom [.word id, .bracketOpen, .parenOpen, .parenClose, .bracketClose]
        (.element id [])
  | firstIndex {id : String} {ts : List Token} {t : Term} : id ∉ reserved →
      Derives .negation ts t → Derives .indexed (.word id :: .bracketOpen :: ts) (.element id [t])
  | nextIndex {id : String} {indices : List Term} {ts us : List Token} {t : Term} :
      Derives .indexed ts (.element id indices) → Derives .negation us t →
      Derives .indexed (ts ++ .comma :: us) (.element id (indices ++ [t]))
  | element {ts : List Token} {t : Term} : Derives .indexed ts t →
      Derives .atom (ts ++ [.bracketClose]) t
  | power {ts us : List Token} {base exponent : Term} : Derives .atom ts base →
      Derives .sign us exponent →
      Derives .power (ts ++ .arith .pow :: us) (.arith .pow base exponent)
  | sign {tok : Token} {op : UnaryOp} {ts : List Token} {t : Term} : tok.sign? = some op →
      Derives .sign ts t → Derives .sign (tok :: ts) (.unary op t)
  | product {op : ArithOp} {ts us : List Token} {l r : Term} : ofArith op = .product →
      Derives .product ts l → Derives .sign us r →
      Derives .product (ts ++ .arith op :: us) (.arith op l r)
  | sum {op : ArithOp} {ts us : List Token} {l r : Term} : ofArith op = .sum →
      Derives .sum ts l → Derives .product us r →
      Derives .sum (ts ++ .arith op :: us) (.arith op l r)
  | firstLink {op : CompareOp} {ts us : List Token} {l r : Term} : Derives .sum ts l →
      Derives .sum us r → Derives .chain (ts ++ .compare op :: us) (.compare l [(op, r)])
  | nextLink {op : CompareOp} {others : List (CompareOp × Term)} {ts us : List Token} {l r : Term} :
      Derives .chain ts (.compare l others) → Derives .sum us r →
      Derives .chain (ts ++ .compare op :: us) (.compare l (others ++ [(op, r)]))
  | chain {ts : List Token} {t : Term} : Derives .chain ts t → Derives .comparison ts t
  | negation {ts : List Token} {t : Term} : Derives .negation ts t →
      Derives .negation (.word "not" :: ts) (.unary .not t)
  | inner {p q : Phrase} {ts : List Token} {t : Term} : p.inner? = some q → Derives q ts t →
      Derives p ts t

theorem Derives.exists_element {ts : List Token} {t : Term} (h : Derives .indexed ts t) :
    ∃ id indices, t = .element id indices := by
  cases h with
  | firstIndex _ _ => exact ⟨_, _, rfl⟩
  | nextIndex _ _ => exact ⟨_, _, rfl⟩
  | inner tighter _ => cases tighter

theorem Derives.exists_compare {ts : List Token} {t : Term} (h : Derives .chain ts t) :
    ∃ l others, t = .compare l others ∧ others ≠ [] := by
  cases h with
  | firstLink _ _ => exact ⟨_, _, rfl, by simp⟩
  | nextLink _ _ => exact ⟨_, _, rfl, by simp⟩
  | inner tighter _ => cases tighter

/-! ### The reader -/

/-- A phrase and the tokens after it. -/
abbrev Found := Option (Term × List Token)

/-- A chain; if nothing is compared, it is no chain but its first operand. -/
def Term.chained (first : Term) : List (CompareOp × Term) → Term
  | [] => first
  | link :: links => .compare first (link :: links)

mutual

/-- Reads the longest phrase of a kind. Every call takes one unit of fuel. -/
def read : (fuel : Nat) → Phrase → List Token → Found
  | 0, _, _ => none
  | fuel + 1, .negation, ts =>
      if ts.head? = some (.word "not") then do
        let (t, rest) ← read fuel .negation ts.tail
        some (.unary .not t, rest)
      else read fuel .comparison ts
  | fuel + 1, .comparison, ts => do
      let (t, rest) ← read fuel .sum ts
      readLinks fuel t [] rest
  | fuel + 1, .sum, ts => do
      let (t, rest) ← read fuel .product ts
      readOperands fuel .sum t rest
  | fuel + 1, .product, ts => do
      let (t, rest) ← read fuel .sign ts
      readOperands fuel .product t rest
  | fuel + 1, .sign, ts =>
      match ts.head?.bind Token.sign? with
      | some op => do
          let (t, rest) ← read fuel .sign ts.tail
          some (.unary op t, rest)
      | none => read fuel .power ts
  | fuel + 1, .power, ts => do
      let (base, rest) ← read fuel .atom ts
      match rest with
      | .arith .pow :: rest => do
          let (exponent, rest) ← read fuel .sign rest
          some (.arith .pow base exponent, rest)
      | rest => some (base, rest)
  | fuel + 1, .atom, ts =>
      match ts with
      | .number value :: rest => some (.number value, rest)
      | .word id :: rest =>
          if id = "True" then some (.truth true, rest)
          else if id = "False" then some (.truth false, rest)
          else if id = "not" then none
          else
            match rest with
            | .bracketOpen :: .parenOpen :: .parenClose :: .bracketClose :: rest =>
                some (.element id [], rest)
            | .bracketOpen :: rest => do
                let (t, rest) ← read fuel .negation rest
                readIndices fuel id [t] rest
            | rest => some (.name id, rest)
      | .parenOpen :: rest => do
          let (t, rest) ← read fuel .negation rest
          match rest with
          | .parenClose :: rest => some (t, rest)
          | _ => none
      | _ => none
  | _ + 1, .chain, _ => none
  | _ + 1, .indexed, _ => none

/-- Goes on with a sum or a product after its first operands. -/
def readOperands : (fuel : Nat) → Phrase → Term → List Token → Found
  | 0, _, _, _ => none
  | fuel + 1, p, l, ts =>
      match ts with
      | .arith op :: us =>
          if ofArith op = p then
            match p.inner? with
            | some q => do
                let (r, rest) ← read fuel q us
                readOperands fuel p (.arith op l r) rest
            | none => none
          else some (l, ts)
      | ts => some (l, ts)

/-- Goes on with a chain after its first operands. -/
def readLinks : (fuel : Nat) → Term → List (CompareOp × Term) → List Token → Found
  | 0, _, _, _ => none
  | fuel + 1, l, others, ts =>
      match ts with
      | .compare op :: us => do
          let (r, rest) ← read fuel .sum us
          readLinks fuel l (others ++ [(op, r)]) rest
      | ts => some (l.chained others, ts)

/-- Goes on with an element after its first indices. -/
def readIndices : (fuel : Nat) → String → List Term → List Token → Found
  | 0, _, _, _ => none
  | fuel + 1, id, indices, ts =>
      match ts with
      | .comma :: us => do
          let (t, rest) ← read fuel .negation us
          readIndices fuel id (indices ++ [t]) rest
      | .bracketClose :: rest => some (.element id indices, rest)
      | _ => none

end

/-- Sums and products are read alike, by their operands. -/
theorem read_operands {p q : Phrase} (kind : p = .sum ∨ p = .product) (inner : p.inner? = some q)
    (fuel : Nat) (ts : List Token) :
    read (fuel + 1) p ts =
      (do let (t, rest) ← read fuel q ts
          readOperands fuel p t rest) := by
  rcases kind with rfl | rfl
  · cases inner
    rw [read]
  · cases inner
    rw [read]

/-- Reads a whole text. -/
def readAll (ts : List Token) : Option Term :=
  match read (16 * ts.length + 16) .negation ts with
  | some (t, []) => some t
  | _ => none

/-! ### Soundness -/

/-- What the reader finds with so much fuel is derived by the grammar from the tokens it took. -/
structure Sound (fuel : Nat) : Prop where
  phrase : ∀ {p : Phrase} {ts rest : List Token} {t : Term}, read fuel p ts = some (t, rest) →
    ∃ us, ts = us ++ rest ∧ Derives p us t
  operands : ∀ {p : Phrase} {us ts rest : List Token} {l t : Term}, p = .sum ∨ p = .product →
    Derives p us l → readOperands fuel p l ts = some (t, rest) →
    ∃ vs, ts = vs ++ rest ∧ Derives p (us ++ vs) t
  links : ∀ {others : List (CompareOp × Term)} {us ts rest : List Token} {l t : Term},
    (others = [] ∧ Derives .sum us l ∨ Derives .chain us (.compare l others)) →
    readLinks fuel l others ts = some (t, rest) →
    ∃ vs, ts = vs ++ rest ∧ Derives .comparison (us ++ vs) t
  indices : ∀ {id : String} {indices : List Term} {us ts rest : List Token} {t : Term},
    Derives .indexed us (.element id indices) → readIndices fuel id indices ts = some (t, rest) →
    ∃ vs, ts = vs ++ rest ∧ Derives .atom (us ++ vs) t

section Sound

variable {fuel : Nat} {us ts rest : List Token} {t : Term}

theorem bind_eq_some {found : Found} {f : Term × List Token → Found}
    (h : (found >>= f) = some (t, rest)) :
    ∃ u mid, found = some (u, mid) ∧ f (u, mid) = some (t, rest) := by
  obtain ⟨⟨u, mid⟩, first, second⟩ := Option.bind_eq_some_iff.mp h
  exact ⟨u, mid, first, second⟩

theorem Sound.operands_succ (sound : Sound fuel) {p : Phrase} {l : Term}
    (kind : p = .sum ∨ p = .product) (hl : Derives p us l)
    (h : readOperands (fuel + 1) p l ts = some (t, rest)) :
    ∃ vs, ts = vs ++ rest ∧ Derives p (us ++ vs) t := by
  unfold readOperands at h
  split at h
  · next op vs =>
    split at h
    · next fits =>
      split at h
      · next q inner =>
        obtain ⟨r, mid, operand, later⟩ := bind_eq_some h
        obtain ⟨ws, rfl, hr⟩ := sound.phrase operand
        have step : Derives p (us ++ .arith op :: ws) (.arith op l r) := by
          rcases kind with rfl | rfl
          · cases inner
            exact .sum fits hl hr
          · cases inner
            exact .product fits hl hr
        obtain ⟨xs, rfl, ht⟩ := sound.operands kind step later
        exact ⟨.arith op :: (ws ++ xs), by simp, by simpa using ht⟩
      · cases h
    · cases h
      exact ⟨[], rfl, by simpa using hl⟩
  · cases h
    exact ⟨[], rfl, by simpa using hl⟩

theorem Sound.firstOperand_succ (sound : Sound fuel) {p q : Phrase}
    (kind : p = .sum ∨ p = .product) (inner : p.inner? = some q)
    (h : read (fuel + 1) p ts = some (t, rest)) : ∃ us, ts = us ++ rest ∧ Derives p us t := by
  rw [read_operands kind inner] at h
  obtain ⟨u, mid, first, later⟩ := bind_eq_some h
  obtain ⟨ws, rfl, hu⟩ := sound.phrase first
  obtain ⟨xs, rfl, ht⟩ := sound.operands kind (.inner inner hu) later
  exact ⟨ws ++ xs, by simp, ht⟩

theorem Sound.links_succ (sound : Sound fuel) {l : Term} {others : List (CompareOp × Term)}
    (hl : others = [] ∧ Derives .sum us l ∨ Derives .chain us (.compare l others))
    (h : readLinks (fuel + 1) l others ts = some (t, rest)) :
    ∃ vs, ts = vs ++ rest ∧ Derives .comparison (us ++ vs) t := by
  unfold readLinks at h
  split at h
  · next op vs =>
    obtain ⟨r, mid, operand, later⟩ := bind_eq_some h
    obtain ⟨ws, rfl, hr⟩ := sound.phrase operand
    have step : Derives .chain (us ++ .compare op :: ws) (.compare l (others ++ [(op, r)])) := by
      rcases hl with ⟨rfl, hl⟩ | hl
      · exact .firstLink hl hr
      · exact .nextLink hl hr
    obtain ⟨xs, rfl, ht⟩ := sound.links (.inr step) later
    exact ⟨.compare op :: (ws ++ xs), by simp, by simpa using ht⟩
  · cases h
    refine ⟨[], rfl, ?_⟩
    rw [List.append_nil]
    rcases hl with ⟨rfl, hl⟩ | hl
    · exact .inner rfl hl
    · obtain ⟨_, _, same, linked⟩ := hl.exists_compare
      cases same
      cases others with
      | nil => exact absurd rfl linked
      | cons link links => exact .chain hl

theorem Sound.indices_succ (sound : Sound fuel) {id : String} {indices : List Term}
    (hl : Derives .indexed us (.element id indices))
    (h : readIndices (fuel + 1) id indices ts = some (t, rest)) :
    ∃ vs, ts = vs ++ rest ∧ Derives .atom (us ++ vs) t := by
  unfold readIndices at h
  split at h
  · next vs =>
    obtain ⟨u, mid, index, later⟩ := bind_eq_some h
    obtain ⟨ws, rfl, hu⟩ := sound.phrase index
    obtain ⟨xs, rfl, ht⟩ := sound.indices (.nextIndex hl hu) later
    exact ⟨.comma :: (ws ++ xs), by simp, by simpa using ht⟩
  · cases h
    exact ⟨[.bracketClose], rfl, .element hl⟩
  · cases h

theorem Sound.atom_succ (sound : Sound fuel) (h : read (fuel + 1) .atom ts = some (t, rest)) :
    ∃ us, ts = us ++ rest ∧ Derives .atom us t := by
  unfold read at h
  split at h
  · cases h
    exact ⟨_, rfl, .number⟩
  · next id vs =>
    by_cases yes : id = "True"
    · rw [if_pos yes] at h
      cases h
      exact ⟨[.word id], rfl, yes ▸ Derives.yes⟩
    by_cases no : id = "False"
    · rw [if_neg yes, if_pos no] at h
      cases h
      exact ⟨[.word id], rfl, no ▸ Derives.no⟩
    by_cases word : id = "not"
    · rw [if_neg yes, if_neg no, if_pos word] at h
      cases h
    · rw [if_neg yes, if_neg no, if_neg word] at h
      have free : id ∉ reserved := by simp [reserved, yes, no, word]
      split at h
      · cases h
        exact ⟨_, rfl, .unindexed free⟩
      · obtain ⟨u, mid, index, later⟩ := bind_eq_some h
        obtain ⟨ws, rfl, hu⟩ := sound.phrase index
        obtain ⟨xs, rfl, ht⟩ := sound.indices (.firstIndex free hu) later
        exact ⟨_, by simp, ht⟩
      · cases h
        exact ⟨_, rfl, .name free⟩
  · obtain ⟨u, mid, inside, later⟩ := bind_eq_some h
    obtain ⟨ws, rfl, hu⟩ := sound.phrase inside
    dsimp only at later
    split at later
    · cases later
      exact ⟨.parenOpen :: (ws ++ [.parenClose]), by simp, .group hu⟩
    · cases later
  · cases h

theorem Sound.phrase_succ (sound : Sound fuel) {p : Phrase}
    (h : read (fuel + 1) p ts = some (t, rest)) : ∃ us, ts = us ++ rest ∧ Derives p us t := by
  cases p with
  | negation =>
      rw [Grammar.read] at h
      split at h
      · next word =>
        obtain ⟨u, mid, operand, later⟩ := bind_eq_some h
        obtain ⟨ws, tail, hu⟩ := sound.phrase operand
        cases later
        obtain ⟨vs, rfl⟩ := List.head?_eq_some_iff.mp word
        exact ⟨.word "not" :: ws, by simpa using tail, .negation hu⟩
      · obtain ⟨us, split, ht⟩ := sound.phrase h
        exact ⟨us, split, .inner rfl ht⟩
  | comparison =>
      rw [Grammar.read] at h
      obtain ⟨u, mid, first, later⟩ := bind_eq_some h
      obtain ⟨ws, rfl, hu⟩ := sound.phrase first
      obtain ⟨xs, rfl, ht⟩ := sound.links (.inl ⟨rfl, hu⟩) later
      exact ⟨ws ++ xs, by simp, ht⟩
  | sum => exact sound.firstOperand_succ (.inl rfl) rfl h
  | product => exact sound.firstOperand_succ (.inr rfl) rfl h
  | sign =>
      unfold read at h
      split at h
      · next op signed =>
        obtain ⟨tok, head, isSign⟩ := Option.bind_eq_some_iff.mp signed
        obtain ⟨vs, rfl⟩ := List.head?_eq_some_iff.mp head
        obtain ⟨u, mid, operand, later⟩ := bind_eq_some h
        obtain ⟨ws, tail, hu⟩ := sound.phrase operand
        cases later
        exact ⟨tok :: ws, by simpa using tail, .sign isSign hu⟩
      · obtain ⟨us, split, ht⟩ := sound.phrase h
        exact ⟨us, split, .inner rfl ht⟩
  | power =>
      unfold read at h
      obtain ⟨base, mid, first, later⟩ := bind_eq_some h
      obtain ⟨ws, rfl, hbase⟩ := sound.phrase first
      dsimp only at later
      split at later
      · obtain ⟨exponent, mid, second, last⟩ := bind_eq_some later
        obtain ⟨xs, rfl, hexponent⟩ := sound.phrase second
        cases last
        exact ⟨ws ++ .arith .pow :: xs, by simp, .power hbase hexponent⟩
      · cases later
        exact ⟨ws, rfl, .inner rfl hbase⟩
  | atom => exact sound.atom_succ h
  | chain => cases h
  | indexed => cases h

end Sound

theorem sound : ∀ fuel : Nat, Sound fuel
  | 0 => ⟨nofun, nofun, nofun, nofun⟩
  | fuel + 1 =>
      ⟨(sound fuel).phrase_succ, (sound fuel).operands_succ, (sound fuel).links_succ,
        (sound fuel).indices_succ⟩

end ArrayKernel.Grammar
