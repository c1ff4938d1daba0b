import ArrayKernel.Json.Builtin
import ArrayKernel.Proofs.Readers

/-!
Tuples and records that were written are read back.

A draft is filled step by step. `Fields.Lists` and `Fields.Fills` say which drafts a list of items
or of fields leads through, each step being the reading of one part. A part in front of others
leaves their steps as they are, so `Fields.cons` is treated once for all records.

With them all readers are treated: `documented_written` says that the library of this project is
one as is assumed of libraries.
-/

namespace ArrayKernel.Json

variable {α β γ σ : Type} {style : Style} {levels : Nat}

namespace Fields

/-- Reading the items in order into the slots turns the first draft into the last one. -/
inductive Lists (style : Style) (levels : Nat) : List (Slot σ) → σ → List Json → σ → Prop
  | done {draft : σ} : Lists style levels [] draft [] draft
  | step {slot : Slot σ} {slots : List (Slot σ)} {draft next last : σ} {j : Json} {js : List Json} :
      Reads style levels (slot.read draft) j next → Lists style levels slots next js last →
      Lists style levels (slot :: slots) draft (j :: js) last

/-- Reading the fields into the slots of their keys turns the first draft into the last one. -/
inductive Fills (style : Style) (levels : Nat) (slots : List (Slot σ)) :
    σ → List (String × Json) → σ → Prop
  | done {draft : σ} : Fills style levels slots draft [] draft
  | step {slot : Slot σ} {draft next last : σ} {key : String} {j : Json}
      {fields : List (String × Json)} :
      (slots.find? fun slot => slot.key == key) = some slot → slot.filled draft = false →
      Reads style levels (slot.read draft) j next → Fills style levels slots next fields last →
      Fills style levels slots draft ((key, j) :: fields) last

/-! ### Lists -/

section Texts

variable {slots : List (Slot σ)} {draft last : σ} {depth level : Nat} {tail : List Char}

theorem fillList_next {slot : Slot σ} {first : Bool} {s t : List Char}
    (step : Reader.nextItem first s = .ok (true, t)) :
    fillList depth first (slot :: slots) draft s = ((slot.read draft).run depth t).bind fun read =>
      fillList depth false slots read.1 read.2 := by
  rw [fillList]
  simp only [step]
  cases (slot.read draft).run depth t <;> rfl

/-- The items after the first one are read in turn, up to the end of the list. -/
theorem answers_fillList {js : List Json} (h : Lists style levels slots draft js last)
    (lt : depth < levels) :
    Answers (fillList depth false slots draft (writeItems style level js tail))
      (∀ j ∈ js, j.Fits depth) (last, tail) := by
  induction h with
  | done =>
      have close : skipBlanks (style.newline level (']' :: tail)) = ']' :: tail := by
        rw [skipBlanks_newline, skipBlanks_cons (by decide)]
      simp only [writeItems, fillList, close, if_true]
      exact .ok (by simp)
  | @step slot slots draft next last j js head _ ih =>
      rw [writeItems, fillList_next (Reader.nextItem_comma j)]
      have read := head depth lt (level + 1) _ (writeItems style level js tail)
        (boundary_writeItems js) (skipBlanks_write j)
      exact (read.bind ih).congr List.forall_mem_cons.symm

theorem answers_fillList_first {j : Json} {js : List Json}
    (h : Lists style levels slots draft (j :: js) last) (lt : depth < levels) :
    Answers (fillList depth true slots draft (style.newline (level + 1)
        (j.write style (level + 1) (writeItems style level js tail))))
      (∀ item ∈ j :: js, item.Fits depth) (last, tail) := by
  cases h with
  | step head rest =>
      rw [fillList_next (Reader.nextItem_first j)]
      have read := head depth lt (level + 1) _ (writeItems style level js tail)
        (boundary_writeItems js) (skipBlanks_write j)
      exact (read.bind (answers_fillList rest lt)).congr List.forall_mem_cons.symm

/-! ### Objects -/

theorem nextKey_close {first : Bool} {s : List Char} (text : skipBlanks s = '\x7d' :: tail) :
    nextKey first s = .ok (none, tail) := by
  simp only [nextKey, text, if_true]

theorem nextKey_first (key : String) :
    nextKey true (style.newline level (quote key tail)) = .ok (some key, tail) := by
  have scanned := scanKey_of_skipBlanks (s := quote key tail) (skipBlanks_quote key)
  have close : '"' ≠ '\x7d' := by decide
  rw [quote] at scanned ⊢
  simp only [nextKey, skipBlanks_newline, skipBlanks_cons (c := '"') (by decide), close, if_false,
    if_true, scanned]

theorem nextKey_comma (key : String) :
    nextKey false (',' :: style.newline level (quote key tail)) = .ok (some key, tail) := by
  have comma : ∀ s, skipBlanks (',' :: s) = ',' :: s := fun s => skipBlanks_cons (by decide)
  simp only [nextKey, comma, scanKey_newline]
  rfl

theorem fillObject_close {first : Bool} {s t : List Char}
    (step : nextKey first s = .ok (none, t)) :
    fillObject slots depth first draft s = .ok (draft, t) := by
  rw [fillObject]
  split <;> simp_all

theorem fillObject_next {slot : Slot σ} {key : String} {first : Bool} {s t u : List Char}
    (step : nextKey first s = .ok (some key, t))
    (found : (slots.find? fun slot => slot.key == key) = some slot)
    (empty : slot.filled draft = false) (colon : scanColon t = .ok u) :
    fillObject slots depth first draft s = ((slot.read draft).run depth u).bind fun read =>
      fillObject slots depth false read.1 read.2 := by
  rw [fillObject]
  split
  · simp_all
  · simp_all
  · next key' t' step' =>
    rw [step] at step'
    cases step'
    simp only [found, empty, Bool.false_eq_true, if_false]
    split
    · simp_all
    · next u' colon' =>
      rw [colon] at colon'
      cases colon'
      split
      · next failed => rw [failed]; rfl
      · next next v read => simp only [read, Except.bind]

/-- The fields after the first one are read in turn, up to the end of the object. -/
theorem answers_fillObject {fields : List (String × Json)}
    (h : Fills style levels slots draft fields last) (lt : depth < levels) :
    Answers (fillObject slots depth false draft (writeFields style level fields tail))
      (∀ field ∈ fields, field.2.Fits depth) (last, tail) := by
  induction h with
  | done =>
      have close : skipBlanks (style.newline level ('\x7d' :: tail)) = '\x7d' :: tail := by
        rw [skipBlanks_newline, skipBlanks_cons (by decide)]
      rw [writeFields, fillObject_close (nextKey_close close)]
      exact .ok (by simp)
  | @step slot draft next last key j fields found empty head _ ih =>
      obtain ⟨u, colon, value⟩ := exists_scanColon style
        (j.write style (level + 1) (writeFields style level fields tail))
      rw [writeFields, fillObject_next (nextKey_comma key) found empty colon]
      have read := head depth lt (level + 1) u _ (boundary_writeFields fields)
        (value.trans (skipBlanks_write j))
      exact (read.bind ih).congr (by rw [List.forall_mem_cons])

theorem answers_fillObject_first {key : String} {j : Json} {fields : List (String × Json)}
    (h : Fills style levels slots draft ((key, j) :: fields) last) (lt : depth < levels) :
    Answers (fillObject slots depth true draft (style.newline (level + 1) (quote key
        (style.colon (j.write style (level + 1) (writeFields style level fields tail))))))
      (∀ field ∈ (key, j) :: fields, field.2.Fits depth) (last, tail) := by
  cases h with
  | step found empty head rest =>
      obtain ⟨u, colon, value⟩ := exists_scanColon style
        (j.write style (level + 1) (writeFields style level fields tail))
      rw [fillObject_next (nextKey_first key) found empty colon]
      have read := head depth lt (level + 1) u _ (boundary_writeFields fields)
        (value.trans (skipBlanks_write j))
      exact (read.bind (answers_fillObject rest lt)).congr (by rw [List.forall_mem_cons])

end Texts

/-! ### Parts of a record -/

/-- The items, in order, are read as the record. -/
def TakesItems (style : Style) (levels : Nat) (fields : Fields α) (items : List Json) (a : α) :
    Prop :=
  ∃ draft, Lists style levels fields.slots fields.empty items draft ∧ fields.finish draft = some a

/-- The entries of an object, in order, are read as the record. -/
def TakesEntries (style : Style) (levels : Nat) (fields : Fields α)
    (entries : List (String × Json)) (a : α) : Prop :=
  ∃ draft, Fills style levels fields.slots fields.empty entries draft ∧
    fields.finish draft = some a

section Parts

variable {key : String} {r : Reader α} {j : Json} {a : α} {fields : Fields β} {b : β}

theorem takesItems_single (h : Reads style levels r j a) :
    TakesItems style levels (single key r) [j] a :=
  ⟨some a, .step (h.map some) .done, rfl⟩

theorem takesEntries_single (h : Reads style levels r j a) :
    TakesEntries style levels (single key r) [(key, j)] a :=
  ⟨some a, .step (List.find?_cons_of_pos (by simp)) rfl (h.map some) .done, rfl⟩

/-- A slot of the draft behind a part that has been read. -/
def behind (slot : Slot σ) : Slot (Option α × σ) :=
  ⟨slot.key, (slot.filled ·.2), fun draft => (slot.read draft.2).map fun b => (draft.1, b)⟩

theorem Lists.behind {slots : List (Slot σ)} {draft last : σ} {js : List Json}
    (h : Lists style levels slots draft js last) (front : Option α) :
    Lists style levels (slots.map Fields.behind) (front, draft) js (front, last) := by
  induction h with
  | done => exact .done
  | step head _ ih => exact .step (head.map fun b => (front, b)) ih

theorem takesItems_cons {js : List Json} (h : Reads style levels r j a)
    (rest : TakesItems style levels fields js b) :
    TakesItems style levels (cons key r fields) (j :: js) (a, b) := by
  obtain ⟨draft, lists, finish⟩ := rest
  refine ⟨(some a, draft), .step (h.map fun a => (some a, fields.empty))
    (lists.behind (some a)), ?_⟩
  simp [cons, finish]

theorem Fills.behind {first : Slot (Option α × σ)} {slots : List (Slot σ)} {draft last : σ}
    {entries : List (String × Json)} (h : Fills style levels slots draft entries last)
    (other : first.key ∉ entries.map Prod.fst) (front : Option α) :
    Fills style levels (first :: slots.map Fields.behind) (front, draft) entries (front, last) := by
  induction h with
  | done => exact .done
  | @step slot draft next last key j entries found empty head _ ih =>
      simp only [List.map_cons, List.mem_cons, not_or] at other
      have found' : ((first :: slots.map Fields.behind).find? fun slot => slot.key == key) =
          some (Fields.behind slot) := by
        rw [List.find?_cons_of_neg (by simpa using other.1), List.find?_map]
        exact congrArg (Option.map Fields.behind) found
      exact .step found' empty (head.map fun b => (front, b)) (ih other.2)

theorem takesEntries_cons {entries : List (String × Json)} (h : Reads style levels r j a)
    (rest : TakesEntries style levels fields entries b) (other : key ∉ entries.map Prod.fst) :
    TakesEntries style levels (cons key r fields) ((key, j) :: entries) (a, b) := by
  obtain ⟨draft, fills, finish⟩ := rest
  refine ⟨(some a, draft), .step (List.find?_cons_of_pos (by simp)) rfl
    (h.map fun a => (some a, fields.empty)) (fills.behind other (some a)), ?_⟩
  simp [cons, finish]

end Parts

end Fields

/-! ### Tuples and records -/

namespace Reader

variable {fields : Fields α} {a : α}

theorem answers_complete {result : Except Problem (fields.Draft × List Char)} {P : Prop}
    {draft : fields.Draft} {tail : List Char} (h : Answers result P (draft, tail))
    (finish : fields.finish draft = some a) : Answers (fields.complete result) P (a, tail) := by
  refine ⟨fun p => ?_, fun no => ?_⟩
  · simp only [h.1 p, Fields.complete, finish]
  · obtain ⟨problem, failed⟩ := h.2 no
    exact ⟨problem, by rw [failed, Fields.complete]⟩

theorem reads_tuple {j : Json} {js : List Json}
    (h : fields.TakesItems style levels (j :: js) a) :
    Reads style levels (tuple fields) (.list (j :: js)) a := by
  obtain ⟨draft, lists, finish⟩ := h
  intro depth lt level s tail _ text
  rw [write] at text
  simp only [tuple, text]
  refine answers_nested lt (not_fits_zero_list _) fun inner lt' => ?_
  exact (answers_complete (Fields.answers_fillList_first lists lt') finish).congr
    fits_list_iff.symm

theorem reads_pair {r : Reader α} {r' : Reader β} {j j' : Json} {a : α} {b : β}
    (h : Reads style levels r j a) (h' : Reads style levels r' j' b) :
    Reads style levels (pair r r') (.list [j, j']) (a, b) :=
  reads_tuple (Fields.takesItems_cons h (Fields.takesItems_single h'))

theorem reads_triple {r : Reader α} {r' : Reader β} {r'' : Reader γ} {j j' j'' : Json} {a : α}
    {b : β} {c : γ} (h : Reads style levels r j a) (h' : Reads style levels r' j' b)
    (h'' : Reads style levels r'' j'' c) :
    Reads style levels (triple r r' r'') (.list [j, j', j'']) (a, b, c) :=
  reads_tuple (Fields.takesItems_cons h (Fields.takesItems_cons h' (Fields.takesItems_single h'')))

theorem reads_record {entry : String × Json} {entries : List (String × Json)}
    (h : fields.TakesEntries style levels (entry :: entries) a) :
    Reads style levels (record fields) (.object (entry :: entries)) a := by
  obtain ⟨draft, fills, finish⟩ := h
  intro depth lt level s tail _ text
  rw [write] at text
  simp only [record, text]
  refine answers_nested lt (not_fits_zero_object _) fun inner lt' => ?_
  exact (answers_complete (Fields.answers_fillObject_first fills lt') finish).congr
    fits_object_iff.symm

end Reader

/-! ### The library of this project -/

/-- The text of the value stands after blanks, indented to some level, and ends where numbers
end. -/
def Written : Library.builtin.Layout :=
  fun j s t => Boundary t ∧ ∃ level, skipBlanks s = j.write .indented level t

section Written

variable {r : Reader α} {j : Json} {a : α}

/-- What fits is read, however many brackets may be opened. -/
theorem Written.run_eq_ok {s t : List Char} (text : Written j s t) (depth : Nat)
    (fits : j.Fits depth) (h : ∀ levels, Reads .indented levels r j a) :
    r.run depth s = .ok (a, t) := by
  obtain ⟨boundary, level, text⟩ := text
  exact (h _ depth (Nat.lt_succ_self depth) level s t boundary text).1 fits

/-- All finite numbers are read back from their decimal text. -/
theorem exact_written {x : Binary64} (finite : x.isFinite) : Written.Exact x :=
  fun _ _ text depth => text.run_eq_ok depth (fits_real_iff.mpr finite) fun _ => Reader.reads_real x

theorem written_reads_iff : Written.Reads levels r j a ↔ Reads .indented levels r j a := by
  constructor
  · intro h depth lt level s t boundary text
    exact h (fun _ _ => exact_written) depth lt s t ⟨boundary, level, text⟩
  · rintro h - depth lt s t ⟨boundary, level, text⟩
    exact h depth lt level s t boundary text

theorem Written.layout (j : Json) :
    Written j (Library.builtin.start (Library.builtin.print j)) [] := by
  refine ⟨.nil, 0, ?_⟩
  show skipBlanks (String.ofList (j.write .indented 0 [])).toList = _
  rw [String.toList_ofList]
  exact skipBlanks_write j

theorem takesEntries_of_written : ∀ {α : Type} {parts : Parts Reader α}
    {entries : List (String × Json)} {a : α}, Written.Takes levels parts entries a →
    (Fields.ofParts parts).TakesEntries .indented levels entries a
  | _, _, _, _, .single read => Fields.takesEntries_single (written_reads_iff.mp read)
  | _, _, _, _, .cons read rest other =>
      Fields.takesEntries_cons (written_reads_iff.mp read) (takesEntries_of_written rest) other

end Written

/-- **The library of this project is as documented.** -/
theorem documented_written : Written.Documented where
  limit := rfl
  layout j := ⟨[], Written.layout j, rfl⟩
  conversions := Reader.run_map
  escapes text depth := text.run_eq_ok depth (fits_string _) fun _ => Reader.reads_string _
  truths text depth := text.run_eq_ok depth (fits_bool _) fun _ => Reader.reads_bool _
  signed text depth := text.run_eq_ok depth (fits_int _) fun _ => Reader.reads_int64 _
  unsigned text depth := text.run_eq_ok depth (fits_int _) fun _ => Reader.reads_uint64 _
  nulls := by
    rintro x s t infinite ⟨boundary, level, text⟩ depth
    exact (Reader.reads_real x depth (Nat.lt_succ_self depth) level s t boundary text).2
      fun fits => infinite (fits_real_iff.mp fits)
  lists items := written_reads_iff.mpr
    (Reader.reads_list (items.imp fun _ _ => written_reads_iff.mp))
  pairs h h' := written_reads_iff.mpr
    (Reader.reads_pair (written_reads_iff.mp h) (written_reads_iff.mp h'))
  triples h h' h'' := written_reads_iff.mpr
    (Reader.reads_triple (written_reads_iff.mp h) (written_reads_iff.mp h')
      (written_reads_iff.mp h''))
  records := by
    intro α levels parts entries a takes
    have fields := takesEntries_of_written takes
    apply written_reads_iff.mpr
    cases takes with
    | single => exact Reader.reads_record fields
    | cons => exact Reader.reads_record fields
  names found := written_reads_iff.mpr (Reader.reads_constant found)
  tags found h := written_reads_iff.mpr (Reader.reads_tagged found (written_reads_iff.mp h))

end ArrayKernel.Json
