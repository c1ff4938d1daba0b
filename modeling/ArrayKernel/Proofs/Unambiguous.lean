import ArrayKernel.Proofs.Grammar

/-!
The grammar of expressions is unambiguous.

The reader looks at one token to decide how a phrase goes on. So it gets past the tokens of a phrase
if the token that follows binds less than the phrase does, and this is what `Complete` says for each
kind of phrase, with the calls that are still open after it. One lemma for each rule of the grammar
gives `Derives.complete`, and with the soundness of the reader `readAll_eq_some_iff`: the reader
decides the grammar, which gives no text two meanings.
-/

namespace ArrayKernel.Grammar

/-! ### What may follow a phrase -/

/-- How tightly a token binds the phrase before it; zero if it does not go on with that phrase. -/
def Token.tightness : Token → Nat
  | .compare _ => 1
  | .arith .add | .arith .sub => 2
  | .arith .mul | .arith .div | .arith .floorDiv | .arith .mod => 3
  | .arith .pow => 5
  | .bracketOpen => 6
  | .number _ | .word _ | .tilde | .parenOpen | .parenClose | .bracketClose | .comma => 0

/-- A phrase of the kind ends before a token that binds less than this. -/
def Phrase.tightness : Phrase → Nat
  | .negation | .comparison | .chain | .indexed => 1
  | .sum => 2
  | .product => 3
  | .sign | .power => 5
  | .atom => 6

/-- The tokens after a phrase: the first one binds less than the bound. -/
def Ends (bound : Nat) (rest : List Token) : Prop :=
  ∀ tok ∈ rest.head?, tok.tightness < bound

theorem Ends.mono {bound bound' : Nat} {rest : List Token} (h : Ends bound rest)
    (le : bound ≤ bound') : Ends bound' rest := by
  intro tok mem
  exact Nat.lt_of_lt_of_le (h tok mem) le

@[simp] theorem ends_cons {bound : Nat} {tok : Token} {rest : List Token} :
    Ends bound (tok :: rest) ↔ tok.tightness < bound := by
  simp [Ends]

/-- What may stand after a part of a phrase: operators of its own kind as well. -/
def Phrase.bound : Phrase → Nat
  | .negation | .comparison | .indexed => 1
  | .chain => 2
  | .sum => 3
  | .product | .sign | .power => 5
  | .atom => 6

/-- The call that reads a phrase of the kind. -/
def Phrase.entry : Phrase → Phrase
  | .chain => .comparison
  | .indexed => .atom
  | p => p

/-- Twice the number of calls that are made before a token is consumed. -/
def Phrase.calls : Phrase → Nat
  | .negation => 12
  | .comparison => 10
  | .sum => 8
  | .product => 6
  | .sign => 4
  | .power => 2
  | .atom | .indexed | .chain => 0

/-- What the reader does after the first part of a phrase. -/
def resume (fuel : Nat) : Phrase → Term → List Token → Found
  | .sum, t, rest => readOperands fuel .sum t rest
  | .product, t, rest => readOperands fuel .product t rest
  | .chain, .compare l others, rest => readLinks fuel l others rest
  | .indexed, .element id indices, rest => readIndices fuel id indices rest
  | _, t, rest => some (t, rest)

/-- The reader gets past the tokens of a phrase, whatever follows them. -/
def Complete (p : Phrase) (us : List Token) (t : Term) : Prop :=
  ∀ (rest : List Token) (found : Term × List Token) (least : Nat), Ends p.bound rest →
    (∀ fuel ≥ least, resume fuel p t rest = some found) →
    ∀ fuel ≥ least + 16 * us.length + p.calls, read fuel p.entry (us ++ rest) = some found

theorem readOperands_of_ends {p : Phrase} {rest : List Token} {fuel : Nat}
    (ends : Ends p.tightness rest) (kind : p = .sum ∨ p = .product) (t : Term) (pos : 1 ≤ fuel) :
    readOperands fuel p t rest = some (t, rest) := by
  obtain ⟨fuel, rfl⟩ := Nat.exists_eq_add_of_le' pos
  unfold readOperands
  split
  · next op us =>
    have looser := ends _ rfl
    rw [if_neg]
    rintro rfl
    rcases kind with kind | kind <;> cases op <;>
      simp [ofArith, Token.tightness, Phrase.tightness] at kind looser
  · rfl

theorem Complete.closed {p : Phrase} {us rest : List Token} {t : Term} {fuel : Nat}
    (h : Complete p us t) (kind : p.entry = p) (ends : Ends p.tightness rest)
    (enough : 1 + 16 * us.length + p.calls ≤ fuel) : read fuel p (us ++ rest) = some (t, rest) := by
  have le : p.tightness ≤ p.bound := by cases p <;> decide
  have resumed : ∀ fuel ≥ 1, resume fuel p t rest = some (t, rest) := by
    intro fuel pos
    cases p with
    | sum => exact readOperands_of_ends ends (.inl rfl) t pos
    | product => exact readOperands_of_ends ends (.inr rfl) t pos
    | chain => cases kind
    | indexed => cases kind
    | _ => rfl
  have found := h rest (t, rest) 1 (ends.mono le) resumed fuel enough
  rwa [kind] at found

/-- May a phrase of the kind start with a sign? -/
def Phrase.isSigned : Phrase → Bool
  | .negation | .comparison | .chain | .sum | .product | .sign => true
  | .power | .atom | .indexed => false

/-- The first tokens of a phrase: only a negation starts with its word, powers and tighter phrases
do not start with a sign, and no phrase is an empty pair of parentheses. -/
inductive Starts (p : Phrase) : List Token → Prop where
  | leaf {tok : Token} {rest : List Token} : tok ≠ .parenOpen → tok ≠ .parenClose →
      (tok = .word "not" → p = .negation) → (tok.sign?.isSome → p.isSigned) →
      Starts p (tok :: rest)
  | group {tok : Token} {rest : List Token} : tok ≠ .parenClose →
      Starts p (.parenOpen :: tok :: rest)

theorem Starts.append {p : Phrase} {us : List Token} (h : Starts p us) (vs : List Token) :
    Starts p (us ++ vs) := by
  cases h with
  | leaf ne ne' word sign => exact .leaf ne ne' word sign
  | group ne => exact .group ne

theorem Starts.looser {p q : Phrase} {us : List Token} (h : Starts q us) (ne : q ≠ .negation)
    (signed : q.isSigned → p.isSigned) : Starts p us := by
  cases h with
  | leaf ne₁ ne₂ word sign =>
      exact .leaf ne₁ ne₂ (fun same => absurd (word same) ne) fun some => signed (sign some)
  | group ne₁ => exact .group ne₁

theorem Starts.ne_close {p : Phrase} {us : List Token} (h : Starts p us) :
    ∃ tok rest, us = tok :: rest ∧ tok ≠ .parenClose := by
  cases h with
  | leaf _ ne _ _ => exact ⟨_, _, rfl, ne⟩
  | group _ => exact ⟨_, _, rfl, by simp⟩

theorem Derives.starts {p : Phrase} {us : List Token} {t : Term} (h : Derives p us t) :
    Starts p us := by
  have name {q : Phrase} {id : String} (free : id ∉ reserved) (rest : List Token) :
      Starts q (.word id :: rest) := by
    refine .leaf (by simp) (by simp) ?_ (by simp [Token.sign?])
    rintro ⟨rfl⟩
    simp [reserved] at free
  induction h with
  | number => exact .leaf (by simp) (by simp) (by simp) (by simp [Token.sign?])
  | yes => exact .leaf (by simp) (by simp) (by simp) (by simp [Token.sign?])
  | no => exact .leaf (by simp) (by simp) (by simp) (by simp [Token.sign?])
  | name free => exact name free []
  | group _ ih =>
      obtain ⟨tok, rest, rfl, ne⟩ := ih.ne_close
      exact .group ne
  | unindexed free => exact name free _
  | firstIndex free _ _ => exact name free _
  | nextIndex _ _ ih _ => exact ih.append _
  | element _ ih => exact (ih.append _).looser (by simp) (by simp [Phrase.isSigned])
  | sign found _ _ =>
      refine .leaf ?_ ?_ ?_ ?_
      · rintro rfl; simp [Token.sign?] at found
      · rintro rfl; simp [Token.sign?] at found
      · rintro rfl; simp [Token.sign?] at found
      · exact fun _ => rfl
  | power _ _ ih _ => exact (ih.append _).looser (by simp) (by simp [Phrase.isSigned])
  | product _ _ _ ih _ => exact ih.append _
  | sum _ _ _ ih _ => exact ih.append _
  | firstLink _ _ ih _ => exact (ih.append _).looser (by simp) (by simp [Phrase.isSigned])
  | nextLink _ _ ih _ => exact ih.append _
  | chain _ ih => exact ih.looser (by simp) (by simp [Phrase.isSigned])
  | negation _ _ => exact .leaf (by simp) (by simp) (fun _ => rfl) (by simp [Token.sign?])
  | inner tighter _ ih =>
      rename_i p q _ _ _
      refine ih.looser ?_ ?_
      · rintro rfl
        cases p <;> cases tighter
      · cases p <;> cases tighter <;> simp [Phrase.isSigned]

theorem ne_of_free {id : String} (free : id ∉ reserved) :
    id ≠ "True" ∧ id ≠ "False" ∧ id ≠ "not" := by
  simpa [reserved] using free

theorem read_name {id : String} (free : id ∉ reserved) (fuel : Nat) {rest : List Token}
    (ends : Ends 6 rest) : read (fuel + 1) .atom (.word id :: rest) = some (.name id, rest) := by
  obtain ⟨ne, ne', ne''⟩ := ne_of_free free
  have noIndex : ∀ us, rest = .bracketOpen :: us → False := by
    rintro us rfl
    exact absurd (ends _ rfl) (by decide)
  rw [read, if_neg ne, if_neg ne', if_neg ne'']
  · exact fun us => noIndex _
  · exact noIndex

theorem read_unindexed {id : String} (free : id ∉ reserved) (fuel : Nat) (rest : List Token) :
    read (fuel + 1) .atom
        (.word id :: .bracketOpen :: .parenOpen :: .parenClose :: .bracketClose :: rest) =
      some (.element id [], rest) := by
  obtain ⟨ne, ne', ne''⟩ := ne_of_free free
  rw [read, if_neg ne, if_neg ne', if_neg ne'']

theorem read_indexed {id : String} (free : id ∉ reserved) (fuel : Nat) {p : Phrase}
    {us : List Token} (starts : Starts p us) :
    read (fuel + 1) .atom (.word id :: .bracketOpen :: us) =
      (read fuel .negation us).bind fun found => readIndices fuel id [found.1] found.2 := by
  obtain ⟨ne, ne', ne''⟩ := ne_of_free free
  rw [read, if_neg ne, if_neg ne', if_neg ne'']
  · rfl
  · rintro rest rfl
    cases starts <;> contradiction

/-- Nothing is left to do after a phrase that is no sum, product, chain or indexed name. -/
theorem Complete.of_closed {p : Phrase} {us : List Token} {t : Term} (kind : p.entry = p)
    (plain : ∀ fuel rest, resume fuel p t rest = some (t, rest)) (pos : 0 < us.length)
    (h : ∀ rest fuel, Ends p.bound rest → 16 * us.length + p.calls ≤ fuel + 1 →
      read (fuel + 1) p (us ++ rest) = some (t, rest)) : Complete p us t := by
  intro rest found least ends resumed fuel enough
  obtain ⟨fuel, rfl⟩ := Nat.exists_eq_add_of_le' (show 1 ≤ fuel by omega)
  rw [← resumed least (Nat.le_refl _), plain, kind]
  exact h rest fuel ends (by omega)

/-! Atoms. -/

theorem Complete.name {id : String} (free : id ∉ reserved) :
    Complete .atom [.word id] (.name id) := by
  refine .of_closed rfl (fun _ _ => rfl) (by simp) fun rest fuel ends _ => ?_
  exact read_name free fuel ends

theorem Complete.unindexed {id : String} (free : id ∉ reserved) :
    Complete .atom [.word id, .bracketOpen, .parenOpen, .parenClose, .bracketClose]
      (.element id []) := by
  refine .of_closed rfl (fun _ _ => rfl) (by simp) fun rest fuel _ _ => ?_
  exact read_unindexed free fuel rest

theorem Complete.group {ts : List Token} {t : Term} (h : Complete .negation ts t) :
    Complete .atom (.parenOpen :: (ts ++ [.parenClose])) t := by
  refine .of_closed rfl (fun _ _ => rfl) (by simp) fun rest fuel _ enough => ?_
  simp only [List.length_cons, List.length_append, List.length_nil, Phrase.calls] at enough
  have inside : read fuel .negation (ts ++ .parenClose :: rest) = some (t, .parenClose :: rest) :=
    h.closed rfl (ends_cons.mpr (by decide)) (by simp only [Phrase.calls]; omega)
  rw [List.cons_append, List.append_assoc, List.singleton_append, read, inside]
  rfl

theorem Complete.firstIndex {id : String} {us : List Token} {t : Term} (free : id ∉ reserved)
    (h : Complete .negation us t) (starts : Starts .negation us) :
    Complete .indexed (.word id :: .bracketOpen :: us) (.element id [t]) := by
  intro rest found least ends resumed fuel enough
  simp only [List.length_cons, Phrase.calls] at enough
  obtain ⟨fuel, rfl⟩ := Nat.exists_eq_add_of_le' (show 1 ≤ fuel by omega)
  have index : read fuel .negation (us ++ rest) = some (t, rest) :=
    h.closed rfl ends (by simp only [Phrase.calls]; omega)
  show read (fuel + 1) .atom (.word id :: .bracketOpen :: (us ++ rest)) = some found
  rw [read_indexed free fuel (starts.append rest), index]
  exact resumed fuel (by omega)

theorem Complete.nextIndex {id : String} {indices : List Term} {ts us : List Token} {t : Term}
    (h : Complete .indexed ts (.element id indices)) (ht : Complete .negation us t) :
    Complete .indexed (ts ++ .comma :: us) (.element id (indices ++ [t])) := by
  intro rest found least ends resumed fuel enough
  simp only [List.length_append, List.length_cons, Phrase.calls] at enough
  rw [List.append_assoc, List.cons_append]
  refine h _ found (least + 16 * us.length + 14) (ends_cons.mpr (by decide)) ?_ fuel ?_
  · intro fuel enough'
    obtain ⟨fuel, rfl⟩ := Nat.exists_eq_add_of_le' (show 1 ≤ fuel by omega)
    have index : read fuel .negation (us ++ rest) = some (t, rest) :=
      ht.closed rfl ends (by simp only [Phrase.calls]; omega)
    rw [resume, readIndices, index]
    exact resumed fuel (by omega)
  · simp only [Phrase.calls]
    omega

theorem Complete.element {id : String} {indices : List Term} {ts : List Token}
    (h : Complete .indexed ts (.element id indices)) :
    Complete .atom (ts ++ [.bracketClose]) (.element id indices) := by
  refine .of_closed rfl (fun _ _ => rfl) (by simp) fun rest fuel _ enough => ?_
  simp only [List.length_append, List.length_cons, List.length_nil, Phrase.calls] at enough
  rw [List.append_assoc, List.singleton_append]
  refine h _ _ 1 (ends_cons.mpr (by decide)) ?_ (fuel + 1) (by simp only [Phrase.calls]; omega)
  intro fuel pos
  obtain ⟨fuel, rfl⟩ := Nat.exists_eq_add_of_le' pos
  rfl

/-! Operators. -/

theorem Complete.power {ts us : List Token} {base exponent : Term} (hb : Complete .atom ts base)
    (he : Complete .sign us exponent) :
    Complete .power (ts ++ .arith .pow :: us) (.arith .pow base exponent) := by
  have pos : 0 < (ts ++ .arith .pow :: us).length := by
    rw [List.length_append, List.length_cons]
    omega
  refine .of_closed rfl (fun _ _ => rfl) pos fun rest fuel ends enough => ?_
  simp only [List.length_append, List.length_cons, Phrase.calls] at enough
  have base_eq : read fuel .atom (ts ++ .arith .pow :: (us ++ rest)) =
      some (base, .arith .pow :: (us ++ rest)) :=
    hb.closed rfl (ends_cons.mpr (by decide)) (by simp only [Phrase.calls]; omega)
  have exponent_eq : read fuel .sign (us ++ rest) = some (exponent, rest) :=
    he.closed rfl ends (by simp only [Phrase.calls]; omega)
  rw [List.append_assoc, List.cons_append, read, base_eq]
  simp [exponent_eq]

theorem Complete.sign {tok : Token} {op : UnaryOp} {ts : List Token} {t : Term}
    (found : tok.sign? = some op) (h : Complete .sign ts t) :
    Complete .sign (tok :: ts) (.unary op t) := by
  refine .of_closed rfl (fun _ _ => rfl) (by simp) fun rest fuel ends enough => ?_
  simp only [List.length_cons, Phrase.calls] at enough
  have operand : read fuel .sign (ts ++ rest) = some (t, rest) :=
    h.closed rfl ends (by simp only [Phrase.calls]; omega)
  simp [read, found, operand]

/-- What sums and products have in common, `q` being the kind of their operands. -/
structure OperandsOf (p q : Phrase) : Prop where
  bound : p.bound = q.tightness
  entry : p.entry = p
  inner : q.entry = q
  calls : p.calls = q.calls + 2
  few : q.calls ≤ 6
  resume : ∀ fuel t rest, resume fuel p t rest = readOperands fuel p t rest

theorem operandsOf {p q : Phrase} (kind : p = .sum ∨ p = .product) (inner : p.inner? = some q) :
    OperandsOf p q := by
  rcases kind with rfl | rfl
  · cases inner
    exact ⟨rfl, rfl, rfl, rfl, by decide, fun _ _ _ => rfl⟩
  · cases inner
    exact ⟨rfl, rfl, rfl, rfl, by decide, fun _ _ _ => rfl⟩

/-- The first operand of a sum or a product. -/
theorem Complete.firstOperand {p q : Phrase} {us : List Token} {t : Term} (h : Complete q us t)
    (kind : p = .sum ∨ p = .product) (inner : p.inner? = some q) : Complete p us t := by
  have operands := operandsOf kind inner
  have calls := operands.calls
  intro rest found least ends resumed fuel enough
  obtain ⟨fuel, rfl⟩ := Nat.exists_eq_add_of_le' (show 1 ≤ fuel by omega)
  have operand : read fuel q (us ++ rest) = some (t, rest) :=
    h.closed operands.inner (operands.bound ▸ ends) (by omega)
  rw [operands.entry, read_operands kind inner, operand]
  simp only [Option.bind_eq_bind, Option.bind_some]
  rw [← operands.resume]
  exact resumed fuel (by omega)

/-- A further operand of a sum or a product. -/
theorem Complete.operand {p q : Phrase} {op : ArithOp} {ts us : List Token} {l r : Term}
    (hl : Complete p ts l) (hr : Complete q us r) (kind : p = .sum ∨ p = .product)
    (inner : p.inner? = some q) (fits : ofArith op = p) :
    Complete p (ts ++ .arith op :: us) (.arith op l r) := by
  have operands := operandsOf kind inner
  have few := operands.few
  have before : (Token.arith op).tightness < p.bound := by
    rcases kind with rfl | rfl <;> cases op <;> cases fits <;> decide
  intro rest found least ends resumed fuel enough
  rw [List.append_assoc, List.cons_append]
  refine hl _ found (least + 16 * us.length + 8) (ends_cons.mpr before) ?_ fuel ?_
  · intro fuel enough'
    obtain ⟨fuel, rfl⟩ := Nat.exists_eq_add_of_le' (show 1 ≤ fuel by omega)
    have operand : read fuel q (us ++ rest) = some (r, rest) :=
      hr.closed operands.inner (operands.bound ▸ ends) (by omega)
    rw [operands.resume, readOperands, if_pos fits, inner]
    simp only [operand, Option.bind_eq_bind, Option.bind_some]
    rw [← operands.resume]
    exact resumed fuel (by omega)
  · simp only [List.length_append, List.length_cons] at enough
    omega

theorem readLinks_of_ends {l : Term} {others : List (CompareOp × Term)} {rest : List Token}
    {fuel : Nat} (ends : Ends 1 rest) (pos : 1 ≤ fuel) :
    readLinks fuel l others rest = some (l.chained others, rest) := by
  obtain ⟨fuel, rfl⟩ := Nat.exists_eq_add_of_le' pos
  rw [readLinks]
  rintro op us rfl
  simp [Token.tightness] at ends

/-- A further operand of a chain. -/
theorem readLinks_link {op : CompareOp} {l r : Term} {others : List (CompareOp × Term)}
    {us rest : List Token} {found : Term × List Token} {least : Nat} (hr : Complete .sum us r)
    (ends : Ends 2 rest)
    (resumed : ∀ fuel ≥ least, readLinks fuel l (others ++ [(op, r)]) rest = some found) :
    ∀ fuel ≥ least + 16 * us.length + 10,
      readLinks fuel l others (.compare op :: (us ++ rest)) = some found := by
  intro fuel enough
  obtain ⟨fuel, rfl⟩ := Nat.exists_eq_add_of_le' (show 1 ≤ fuel by omega)
  have operand : read fuel .sum (us ++ rest) = some (r, rest) :=
    hr.closed rfl ends (by simp only [Phrase.calls]; omega)
  rw [readLinks, operand]
  exact resumed fuel (by omega)

theorem Complete.firstLink {op : CompareOp} {ts us : List Token} {l r : Term}
    (hl : Complete .sum ts l) (hr : Complete .sum us r) :
    Complete .chain (ts ++ .compare op :: us) (.compare l [(op, r)]) := by
  intro rest found least ends resumed fuel enough
  simp only [List.length_append, List.length_cons, Phrase.calls] at enough
  obtain ⟨fuel, rfl⟩ := Nat.exists_eq_add_of_le' (show 1 ≤ fuel by omega)
  have first : read fuel .sum (ts ++ .compare op :: (us ++ rest)) =
      some (l, .compare op :: (us ++ rest)) :=
    hl.closed rfl (ends_cons.mpr Nat.one_lt_two) (by simp only [Phrase.calls]; omega)
  rw [List.append_assoc, List.cons_append, Phrase.entry, read, first]
  exact readLinks_link hr ends resumed fuel (by omega)

theorem Complete.nextLink {op : CompareOp} {others : List (CompareOp × Term)} {ts us : List Token}
    {l r : Term} (h : Complete .chain ts (.compare l others)) (hr : Complete .sum us r) :
    Complete .chain (ts ++ .compare op :: us) (.compare l (others ++ [(op, r)])) := by
  intro rest found least ends resumed fuel enough
  simp only [List.length_append, List.length_cons, Phrase.calls] at enough
  rw [List.append_assoc, List.cons_append]
  have before : Ends 2 (.compare op :: (us ++ rest)) := ends_cons.mpr Nat.one_lt_two
  refine h _ found (least + 16 * us.length + 10) before (readLinks_link hr ends resumed) fuel ?_
  simp only [Phrase.calls]
  omega

theorem Complete.chain {others : List (CompareOp × Term)} {ts : List Token} {l : Term}
    (h : Complete .chain ts (.compare l others)) (pos : 0 < ts.length) (linked : others ≠ []) :
    Complete .comparison ts (.compare l others) := by
  have chained : l.chained others = .compare l others := by
    cases others with
    | nil => exact absurd rfl linked
    | cons link links => rfl
  refine .of_closed rfl (fun _ _ => rfl) pos fun rest fuel ends enough => ?_
  simp only [Phrase.calls] at enough
  refine h _ _ 1 (ends.mono (by decide)) ?_ (fuel + 1) (by simp only [Phrase.calls]; omega)
  intro fuel pos
  rw [resume, readLinks_of_ends ends pos, chained]

theorem Complete.negation {ts : List Token} {t : Term} (h : Complete .negation ts t) :
    Complete .negation (.word "not" :: ts) (.unary .not t) := by
  refine .of_closed rfl (fun _ _ => rfl) (by simp) fun rest fuel ends enough => ?_
  simp only [List.length_cons, Phrase.calls] at enough
  have operand : read fuel .negation (ts ++ rest) = some (t, rest) :=
    h.closed rfl ends (by simp only [Phrase.calls]; omega)
  simp [read, operand]

/-- A phrase of the next tighter kind. -/
theorem Complete.inner {p q : Phrase} {us : List Token} {t : Term} (h : Complete q us t)
    (starts : Starts q us) (tighter : p.inner? = some q) : Complete p us t := by
  have pos : 0 < us.length := by cases starts <;> simp
  cases p with
  | negation =>
      cases tighter
      refine .of_closed rfl (fun _ _ => rfl) pos fun rest fuel ends enough => ?_
      simp only [Phrase.calls] at enough
      have notWord : (us ++ rest).head? ≠ some (.word "not") := by
        cases starts with
        | leaf _ _ word _ => exact fun same => absurd (word (Option.some.inj same)) (by simp)
        | group _ => simp
      rw [read, if_neg notWord]
      exact h.closed rfl ends (by simp only [Phrase.calls]; omega)
  | comparison =>
      cases tighter
      refine .of_closed rfl (fun _ _ => rfl) pos fun rest fuel ends enough => ?_
      simp only [Phrase.calls] at enough
      have sum : read fuel .sum (us ++ rest) = some (t, rest) :=
        h.closed rfl (ends.mono (by decide)) (by simp only [Phrase.calls]; omega)
      rw [read, sum]
      exact readLinks_of_ends ends (by omega)
  | sum => exact h.firstOperand (.inl rfl) tighter
  | product => exact h.firstOperand (.inr rfl) tighter
  | sign =>
      cases tighter
      refine .of_closed rfl (fun _ _ => rfl) pos fun rest fuel ends enough => ?_
      simp only [Phrase.calls] at enough
      have notSign : (us ++ rest).head?.bind Token.sign? = none := by
        cases starts with
        | leaf _ _ _ sign =>
            exact Option.not_isSome_iff_eq_none.mp fun isSome => absurd (sign isSome) (by decide)
        | group _ => rfl
      have power : read fuel .power (us ++ rest) = some (t, rest) :=
        h.closed rfl ends (by simp only [Phrase.calls]; omega)
      simp only [read, notSign, power]
  | power =>
      cases tighter
      refine .of_closed rfl (fun _ _ => rfl) pos fun rest fuel ends enough => ?_
      simp only [Phrase.calls] at enough
      have atom : read fuel .atom (us ++ rest) = some (t, rest) :=
        h.closed rfl (ends.mono (by decide)) (by simp only [Phrase.calls]; omega)
      rw [read, atom]
      simp only [Option.bind_eq_bind, Option.bind_some]
      split
      · exact absurd (ends_cons.mp ends) (by decide)
      · rfl
  | chain => cases tighter
  | atom => cases tighter
  | indexed => cases tighter

/-- **The reader is complete**: it finds every phrase that the grammar derives. -/
theorem Derives.complete {p : Phrase} {us : List Token} {t : Term} (h : Derives p us t) :
    Complete p us t := by
  induction h with
  | number => exact .of_closed rfl (fun _ _ => rfl) (by simp) fun _ _ _ _ => rfl
  | yes => exact .of_closed rfl (fun _ _ => rfl) (by simp) fun _ _ _ _ => rfl
  | no => exact .of_closed rfl (fun _ _ => rfl) (by simp) fun _ _ _ _ => rfl
  | name free => exact .name free
  | unindexed free => exact .unindexed free
  | group _ ih => exact ih.group
  | firstIndex free h ih => exact ih.firstIndex free h.starts
  | nextIndex _ _ ih iht => exact ih.nextIndex iht
  | element h ih =>
      obtain ⟨id, indices, rfl⟩ := h.exists_element
      exact ih.element
  | power _ _ ihb ihe => exact ihb.power ihe
  | sign found _ ih => exact ih.sign found
  | product fits _ _ ihl ihr => exact ihl.operand ihr (.inr rfl) rfl fits
  | sum fits _ _ ihl ihr => exact ihl.operand ihr (.inl rfl) rfl fits
  | firstLink _ _ ihl ihr => exact ihl.firstLink ihr
  | nextLink _ _ ih ihr => exact ih.nextLink ihr
  | chain h ih =>
      obtain ⟨l, others, rfl, linked⟩ := h.exists_compare
      exact ih.chain (by cases h.starts <;> simp) linked
  | negation _ ih => exact ih.negation
  | inner tighter h ih => exact ih.inner h.starts tighter

/-! ### The reader decides the grammar -/

/-- **The reader decides the grammar**: it takes a text for a term exactly if the grammar does, so
the grammar gives no text two meanings. -/
theorem readAll_eq_some_iff {ts : List Token} {t : Term} :
    readAll ts = some t ↔ Derives .negation ts t := by
  constructor
  · intro h
    unfold readAll at h
    split at h
    · next u found =>
      cases h
      obtain ⟨us, split, derived⟩ := (sound _).phrase found
      rw [List.append_nil] at split
      exact split ▸ derived
    · cases h
  · intro h
    have found : read (16 * ts.length + 16) .negation (ts ++ []) = some (t, []) :=
      h.complete.closed rfl (by simp [Ends]) (by simp only [Phrase.calls]; omega)
    rw [List.append_nil] at found
    rw [readAll, found]

end ArrayKernel.Grammar
