import ArrayKernel.Format.Loop
import ArrayKernel.Proofs.Immediates
import ArrayKernel.Proofs.Records

/-!
Blocks survive the exchange as JSON.

For every type that a block is made of, `reads_toJson` says that its reader reads its JSON form, in
every library that is as documented. What a block needs for it is said in two ways, by its JSON form
and by its immediates, and `Block.reals_toJson` connects them.

* `Block.answers_parseIn_printIn`: a printed block is read back, or refused if it cannot be stored.
* `Block.parseIn_printIn_eq_ok_iff`: reading gives an equal block exactly if the block can be
  stored, and never another one.
-/

namespace ArrayKernel

open Json (Library)

section Reads

variable {lib : Library} {At : lib.Layout} (documented : At.Documented) {levels : Nat}

include documented

theorem ElementType.reads_toJson (type : ElementType) :
    At.Reads levels (ElementType.readerIn lib) type.toJson type :=
  documented.reads_enum (by cases type <;> rfl)

theorem ArithOp.reads_toJson (op : ArithOp) :
    At.Reads levels (ArithOp.readerIn lib) op.toJson op :=
  documented.reads_enum (by cases op <;> rfl)

theorem CompareOp.reads_toJson (op : CompareOp) :
    At.Reads levels (CompareOp.readerIn lib) op.toJson op :=
  documented.reads_enum (by cases op <;> rfl)

theorem UnaryOp.reads_toJson (op : UnaryOp) :
    At.Reads levels (UnaryOp.readerIn lib) op.toJson op :=
  documented.reads_enum (by cases op <;> rfl)

theorem Dim.reads_toJson (dim : Dim) : At.Reads levels (Dim.readerIn lib) dim.toJson dim := by
  cases dim with
  | const extent =>
      have content : At.Reads levels (lib.map Dim.const lib.uint64) (.int extent.toNat) _ :=
        documented.reads_map _ (documented.reads_uint64 extent)
      exact (documented.tags rfl content).mono (Nat.le_succ levels)
  | symbol name =>
      have content : At.Reads levels (lib.map Dim.symbol lib.string) (.string name) _ :=
        documented.reads_map _ (documented.reads_string name)
      exact (documented.tags rfl content).mono (Nat.le_succ levels)
  | elided => exact documented.names rfl

theorem Shape.reads_toJson (shape : Shape) :
    At.Reads levels (Shape.readerIn lib) shape.toJson shape :=
  documented.reads_map Shape.mk
    (documented.reads_list_map (Dim.reads_toJson documented) shape.dims)

theorem ArrayType.reads_toJson (type : ArrayType) :
    At.Reads levels (ArrayType.readerIn lib) type.toJson type :=
  documented.reads_map _ (documented.records (.cons (type.shape.reads_toJson documented)
    (.single (type.element.reads_toJson documented)) (by simp)))

theorem Buffer.reads_toJson (buffer : Buffer) :
    At.Reads levels (Buffer.readerIn lib) buffer.toJson buffer :=
  documented.reads_map _ (documented.records (.cons (documented.reads_string buffer.name)
    (.single (buffer.type.reads_toJson documented)) (by simp)))

namespace Loop

theorem Var.reads_toJson (v : Var) : At.Reads levels (Var.readerIn lib) v.toJson v :=
  documented.reads_map _ (documented.records (.cons (documented.reads_string v.name)
    (.single (v.type.reads_toJson documented)) (by simp)))

omit documented in
theorem Expr.listToJson_eq (es : List Expr) : listToJson es = es.map toJson := by
  induction es with
  | nil => rfl
  | cons e es ih => rw [listToJson, ih, List.map_cons]

/-- The induction is on the levels, not on the expression: what a reader of fewer levels does is all
that the reader of its parts needs. -/
theorem Expr.reads_toJson (levels : Nat) (e : Expr) :
    At.Reads levels (readerAt lib levels) e.toJson e := by
  induction levels generalizing e with
  | zero => exact fun _ depth lt => absurd lt (Nat.not_lt_zero depth)
  | succ levels self =>
      cases e with
      | int value type =>
          exact documented.tags rfl (documented.reads_map _
            (documented.pairs (documented.reads_int64 value) (type.reads_toJson documented)))
      | float value type =>
          exact documented.tags rfl (documented.reads_map _
            (documented.pairs (documented.reads_real value) (type.reads_toJson documented)))
      | bool value =>
          exact documented.tags rfl (documented.reads_map _ (documented.reads_bool value))
      | var v => exact documented.tags rfl (documented.reads_map _ (v.reads_toJson documented))
      | load buffer indices =>
          rw [toJson, listToJson_eq]
          exact documented.tags rfl (documented.reads_map _
            (documented.pairs (buffer.reads_toJson documented)
              (documented.reads_list_map self indices)))
      | arith op l r =>
          exact documented.tags rfl (documented.reads_map _
            (documented.triples (op.reads_toJson documented) (self l) (self r)))
      | compare op l r =>
          exact documented.tags rfl (documented.reads_map _
            (documented.triples (op.reads_toJson documented) (self l) (self r)))
      | unary op e =>
          exact documented.tags rfl (documented.reads_map _
            (documented.pairs (op.reads_toJson documented) (self e)))

/-! Ranges, regions and stores hold expressions, which are read with as many levels as the library
allows. -/

theorem Range.reads_toJson (range : Range) :
    At.Reads lib.limit (Range.readerIn lib) range.toJson range :=
  documented.reads_map _ (documented.records (.cons (range.start.reads_toJson documented _)
    (.single (range.stop.reads_toJson documented _)) (by simp)))

theorem IterVar.reads_toJson (v : IterVar) :
    At.Reads lib.limit (IterVar.readerIn lib) v.toJson v :=
  documented.reads_map _ (documented.records (.cons (v.var.reads_toJson documented)
    (.single (v.range.reads_toJson documented)) (by simp)))

theorem Region.reads_toJson (region : Region) :
    At.Reads lib.limit (Region.readerIn lib) region.toJson region :=
  documented.reads_map _ (documented.records (.cons (region.buffer.reads_toJson documented)
    (.single (documented.reads_list_map (Range.reads_toJson documented) region.ranges)) (by simp)))

theorem Store.reads_toJson (store : Store) :
    At.Reads lib.limit (Store.readerIn lib) store.toJson store := by
  have indices : At.Reads lib.limit (lib.list (Expr.readerIn lib))
      (.list (Expr.listToJson store.indices)) store.indices := by
    rw [Expr.listToJson_eq]
    exact documented.reads_list_map (Expr.reads_toJson documented _) store.indices
  exact documented.reads_map _ (documented.records (.cons (store.buffer.reads_toJson documented)
    (.cons indices (.single (store.value.reads_toJson documented _)) (by simp)) (by simp)))

theorem Block.reads_toJson (block : Block) :
    At.Reads lib.limit (Block.readerIn lib) block.toJson block :=
  documented.reads_map _ (documented.records (.cons
    (documented.reads_list_map (IterVar.reads_toJson documented) block.iterVars)
    (.cons (documented.reads_list_map (Region.reads_toJson documented) block.reads)
      (.cons (documented.reads_list_map (Region.reads_toJson documented) block.writes)
        (.cons (documented.reads_string block.name)
          (.single (block.body.reads_toJson documented)) (by simp)) (by simp)) (by simp))
    (by simp)))

end Loop

end Reads

/-! ### The numbers of the JSON form -/

open Json (reals listReals fieldsReals)

theorem Json.listReals_map {α : Type} (toJson : α → Json) (as : List α) :
    listReals (as.map toJson) = as.flatMap fun a => (toJson a).reals := by
  induction as with
  | nil => rfl
  | cons a as ih => rw [List.map_cons, listReals, ih, List.flatMap_cons]

@[simp] theorem Json.reals_tagged (tag : String) (content : Json) :
    (Json.tagged tag content).reals = content.reals := by
  simp [tagged, reals, fieldsReals]

@[simp] theorem ElementType.reals_toJson (type : ElementType) : type.toJson.reals = [] := by
  rw [toJson, reals]

@[simp] theorem Buffer.reals_toJson (buffer : Buffer) : buffer.toJson.reals = [] := by
  have dims (dim : Dim) : dim.toJson.reals = [] := by
    cases dim <;> simp [Dim.toJson, reals]
  simp [toJson, ArrayType.toJson, Shape.toJson, reals, fieldsReals, Json.listReals_map, dims]

namespace Loop

@[simp] theorem Var.reals_toJson (v : Var) : v.toJson.reals = [] := by
  simp [toJson, reals, fieldsReals]

mutual

theorem Expr.reals_toJson : ∀ e : Expr, e.toJson.reals = e.floats
  | .float value type => by simp [Expr.toJson, Expr.floats, reals, listReals]
  | .int value type => by simp [Expr.toJson, Expr.floats, reals, listReals]
  | .bool value => by simp [Expr.toJson, Expr.floats, reals]
  | .var v => by simp [Expr.toJson, Expr.floats]
  | .load buffer indices => by
      simp [Expr.toJson, Expr.floats, reals, listReals, Expr.reals_listToJson indices]
  | .arith op l r => by
      simp [Expr.toJson, Expr.floats, ArithOp.toJson, reals, listReals, Expr.reals_toJson l,
        Expr.reals_toJson r]
  | .compare op l r => by
      simp [Expr.toJson, Expr.floats, CompareOp.toJson, reals, listReals, Expr.reals_toJson l,
        Expr.reals_toJson r]
  | .unary op e => by
      simp [Expr.toJson, Expr.floats, UnaryOp.toJson, reals, listReals, Expr.reals_toJson e]

theorem Expr.reals_listToJson : ∀ es : List Expr,
    listReals (Expr.listToJson es) = Expr.floatsOfList es
  | [] => rfl
  | e :: es => by
      rw [Expr.listToJson, listReals, Expr.floatsOfList, Expr.reals_toJson e,
        Expr.reals_listToJson es]

end

theorem Range.reals_toJson (range : Range) : range.toJson.reals = range.floats := by
  simp [toJson, floats, reals, fieldsReals, Expr.reals_toJson]

theorem Region.reals_toJson (region : Region) : region.toJson.reals = region.floats := by
  simp [toJson, floats, reals, fieldsReals, Json.listReals_map, Range.reals_toJson]

/-- The numbers of a block's JSON form are its immediates. -/
theorem Block.reals_toJson (block : Block) : block.toJson.reals = block.floats := by
  simp [toJson, floats, IterVar.toJson, Store.toJson, Store.floats, reals, fieldsReals,
    Json.listReals_map, Range.reals_toJson, Region.reals_toJson, Expr.reals_toJson,
    Expr.reals_listToJson]

/-! ### Equality -/

mutual

theorem Expr.same_refl : ∀ e : Expr, e.same e
  | .int .. | .bool _ | .var _ => by simp [Expr.same]
  | .float value type => by simp [Expr.same, Binary64.sameValue]
  | .load buffer indices => by simp [Expr.same, Expr.sameList_refl indices]
  | .arith op l r => by simp [Expr.same, Expr.same_refl l, Expr.same_refl r]
  | .compare op l r => by simp [Expr.same, Expr.same_refl l, Expr.same_refl r]
  | .unary op e => by simp [Expr.same, Expr.same_refl e]

theorem Expr.sameList_refl : ∀ es : List Expr, Expr.sameList es es
  | [] => rfl
  | e :: es => by simp [Expr.sameList, Expr.same_refl e, Expr.sameList_refl es]

end

/-- A list is the same as itself if its items are. -/
theorem isEqv_self {α : Type} {same : α → α → Bool} (refl : ∀ a, same a a) (as : List α) :
    as.isEqv as same := by
  induction as with
  | nil => rfl
  | cons a as ih => simp [List.isEqv, refl a, ih]

theorem Range.same_refl (range : Range) : range.same range := by
  simp [same, Expr.same_refl]

theorem IterVar.same_refl (v : IterVar) : v.same v := by
  simp [same, Range.same_refl]

theorem Region.same_refl (region : Region) : region.same region := by
  simp [same, isEqv_self Range.same_refl]

theorem Block.same_refl (block : Block) : block.same block := by
  simp [same, Store.same, isEqv_self IterVar.same_refl, isEqv_self Region.same_refl, Expr.same_refl,
    Expr.sameList_refl]

/-! ### The exchange -/

namespace Block

/-- A block can be stored if all its immediates are finite and its JSON form is not nested too deep
to be read. -/
def Storable (block : Block) : Prop :=
  (∀ x ∈ block.floats, x.isFinite) ∧ block.toJson.depth < 128

theorem fits_toJson_iff (block : Block) : block.toJson.Fits 127 ↔ block.Storable := by
  rw [Json.Fits, reals_toJson, Storable, and_comm]
  exact and_congr_right fun _ => Nat.lt_succ_iff.symm

section Exchange

variable {lib : Library} {At : lib.Layout}

/-- Reading what was printed gives the block, or a problem if it cannot be stored. -/
theorem answers_parseIn_printIn (documented : At.Documented) (block : Block)
    (decimals : ∀ x ∈ block.floats, x.isFinite → At.Exact x) :
    Json.Answers (parseIn lib (block.printIn lib)) block.Storable block := by
  rw [← block.reals_toJson] at decimals
  exact (documented.answers_parse (block.reads_toJson documented) decimals).congr
    block.fits_toJson_iff

/-- **Blocks are read as they were written**, in every library that is as documented and reads their
finite immediates back from decimals. Reading gives an equal block back exactly if the block can be
stored, and answers with a problem otherwise. It never gives another block: the one it gives is the
same down to the bits of its immediates. -/
theorem parseIn_printIn_eq_ok_iff (documented : At.Documented) (block : Block)
    (decimals : ∀ x ∈ block.floats, x.isFinite → At.Exact x) :
    ((∃ b, parseIn lib (block.printIn lib) = .ok b ∧ b.same block) ↔ block.Storable) ∧
      (¬block.Storable → ∃ problem, parseIn lib (block.printIn lib) = .error problem) ∧
        ∀ b, parseIn lib (block.printIn lib) = .ok b → b = block := by
  have answers := block.answers_parseIn_printIn documented decimals
  refine ⟨⟨?_, fun storable => ?_⟩, answers.2, fun b read => (answers.eq_of_eq_ok read).2⟩
  · rintro ⟨b, read, -⟩
    exact (answers.eq_of_eq_ok read).1
  · exact ⟨block, answers.1 storable, block.same_refl⟩

end Exchange

/-- In the library of this project all blocks are read as they were written. -/
theorem answers_parse_render (block : Block) :
    Json.Answers (parse block.render) block.Storable block :=
  block.answers_parseIn_printIn Json.documented_written fun _ _ => Json.exact_written

/-- Stores one number. -/
def constant (x : Binary64) : Block :=
  ⟨[], [], [], "k", ⟨⟨"out", ⟨⟨[]⟩, .float64⟩⟩, [], .float x .float64⟩⟩

/-- In the library of this project, the greatest finite number and the negative zero are read back,
and infinity is refused. -/
theorem parseIn_printIn_eq_ok_iff_constant :
    parse (constant ⟨0x7FEFFFFFFFFFFFFF⟩).render = .ok (constant ⟨0x7FEFFFFFFFFFFFFF⟩) ∧
      parse (constant ⟨0x8000000000000000⟩).render = .ok (constant ⟨0x8000000000000000⟩) ∧
        ∃ problem, parse (constant ⟨0x7FF0000000000000⟩).render = .error problem := by
  have reads (x : Binary64) (finite : x.isFinite) :
      parse (constant x).render = .ok (constant x) := by
    have immediates : (constant x).floats = [x] := rfl
    have depth : (constant x).toJson.depth = 5 := rfl
    have storable : (constant x).Storable := by
      rw [Storable, immediates, depth]
      exact ⟨by simpa using finite, by decide⟩
    obtain ⟨exchanged, _, unchanged⟩ := parseIn_printIn_eq_ok_iff Json.documented_written
      (constant x) fun _ _ => Json.exact_written
    obtain ⟨b, read, -⟩ := exchanged.mpr storable
    rw [unchanged b read] at read
    exact read
  refine ⟨reads _ (by decide), reads _ (by decide), ?_⟩
  have exchanged := parseIn_printIn_eq_ok_iff Json.documented_written
    (constant ⟨0x7FF0000000000000⟩) fun _ _ => Json.exact_written
  refine exchanged.2.1 fun storable => ?_
  have finite := storable.1 ⟨0x7FF0000000000000⟩ (by decide)
  exact absurd finite (by decide)

end Block

end Loop

end ArrayKernel
