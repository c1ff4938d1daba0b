import ArrayKernel.Proofs.Execution

/-!
The shapes that regions are built from.

An operator table chooses the shape at which a buffer is read, and it need not be the buffer's own.
A block keeps the ranges of that shape and not the shape itself, but the shape is recorded. The
record and the block agree: there is one read in the record for each region, in the same order, and
the ranges of the region are those of the recorded shape.

* `Traced.accesses`: the shapes at which buffers were read.
* `Site.accounts_lower`: the regions of an expression are built from them.
* `Kernel.compile_spans`: the same for kernels, with the loops and the regions that are written.
-/

namespace ArrayKernel

open Loop (Expr IterVar Range Region Block)

/-! ### The record -/

def Event.access? : Event → Option Shape
  | .read _ access => some access
  | _ => none

namespace Traced

variable {α β : Type} {x : Traced α}

/-- The shapes at which buffers were read, in order. -/
def accesses (x : Traced α) : List Shape :=
  x.events.filterMap Event.access?

@[simp] theorem accesses_pure (a : α) : (pure a : Traced α).accesses = [] := rfl

@[simp] theorem accesses_lift (result : Except Fault α) : (lift result).accesses = [] := rfl

@[simp] theorem accesses_emit (event : Event) :
    (emit event).accesses = event.access?.toList := by
  cases event <;> rfl

theorem accesses_bind {a : α} (h : x.result = .ok a) (next : α → Traced β) :
    (x >>= next).accesses = x.accesses ++ (next a).accesses := by
  rw [accesses, events_bind_of_ok h, List.filterMap_append]
  rfl

theorem accesses_traceRanges {shape : Shape} {symbols : Symbols} {index : ElementType}
    {ranges : List Range} (h : shape.ranges symbols index = .ok ranges) :
    (shape.traceRanges symbols index).accesses = [] := by
  rw [Shape.traceRanges, accesses_bind (x := lift (shape.ranges symbols index)) h]
  rfl

end Traced

/-! ### Expressions -/

/-- The region is built from the shape `access`. -/
def Loop.Region.Spans (symbols : Symbols) (index : ElementType) (access : Shape)
    (region : Region) : Prop :=
  access.ranges symbols index = .ok region.ranges

namespace Site

variable {α β : Type} {site : Site} {before : List Region}

/-- What is emitted is emitted after `before`, and is built from the recorded accesses. -/
def Accounts (site : Site) (before : List Region) (x : Traced (Emitted α)) : Prop :=
  ∀ out, x.result = .ok out → ∃ own, out.reads = before ++ own ∧
    List.Forall₂ (Region.Spans site.env.symbols site.indexType) x.accesses own

theorem Accounts.pure (value : α) : site.Accounts before (Pure.pure ⟨value, before⟩) := by
  rintro _ ⟨⟩
  exact ⟨[], (List.append_nil before).symm, .nil⟩

theorem Accounts.fail (fault : Fault) :
    site.Accounts before (Traced.fail fault : Traced (Emitted α)) := by
  rintro _ ⟨⟩

theorem Accounts.lift {γ : Type} {result : Except Fault γ} {next : γ → Traced (Emitted β)}
    (k : ∀ a, site.Accounts before (next a)) :
    site.Accounts before (Traced.lift result >>= next) := by
  intro out h
  obtain ⟨a, ha, h⟩ := Traced.result_bind_eq_ok_iff.mp h
  rw [Traced.accesses_bind ha, Traced.accesses_lift, List.nil_append]
  exact k a out h

theorem Accounts.bind {x : Traced (Emitted α)} {next : Emitted α → Traced (Emitted β)}
    (hx : site.Accounts [] x) (k : ∀ out, site.Accounts (before ++ out.reads) (next out)) :
    site.Accounts before (x >>= next) := by
  intro out' h
  obtain ⟨out, hout, h⟩ := Traced.result_bind_eq_ok_iff.mp h
  obtain ⟨_, rfl, spans⟩ := hx out hout
  obtain ⟨own', reads, spans'⟩ := k out out' h
  refine ⟨out.reads ++ own', ?_, ?_⟩
  · rw [reads, List.append_assoc]
  · rw [Traced.accesses_bind hout]
    exact List.rel_append spans spans'

theorem accounts_read (site : Site) (buffer : Buffer) (access : Shape) :
    site.Accounts [] (site.read buffer access) := by
  unfold Site.read
  split_ifs
  · exact .fail _
  · exact .fail _
  · refine .lift fun value => ?_
    intro out h
    obtain ⟨ranges, traced, h⟩ := Traced.result_bind_eq_ok_iff.mp h
    obtain ⟨_, _, ⟨⟩⟩ := Traced.result_bind_eq_ok_iff.mp h
    have hranges : access.ranges site.env.symbols site.indexType = .ok ranges := by
      rw [← Shape.result_traceRanges]
      exact traced
    refine ⟨_, rfl, ?_⟩
    rw [Traced.accesses_bind traced, Traced.accesses_traceRanges hranges]
    exact .cons hranges .nil

theorem accounts_materialize (site : Site) (access : Shape) (lowered : Lowered) :
    site.Accounts [] (site.materialize access lowered) := by
  cases lowered with
  | buffer source => exact site.accounts_read source access
  | array value type => exact .pure value
  | scalar value type => exact .pure value

theorem accounts_applyArray (site : Site) (op : ArrayOp) (lhs rhs : Lowered) :
    site.Accounts [] (site.applyArray op lhs rhs) := by
  refine .lift fun inst => ?_
  refine (site.accounts_materialize inst.lhsAccess lhs).bind fun l => ?_
  refine (site.accounts_materialize inst.rhsAccess rhs).bind fun r => ?_
  exact .pure _

theorem accounts_applyUnary (site : Site) (op : UnaryOp) (lowered : Lowered) :
    site.Accounts [] (site.applyUnary op lowered) := by
  cases lowered with
  | buffer source => exact (site.accounts_read source source.shape).bind fun e => .pure _
  | array value type => exact .pure _
  | scalar value type => exact .pure _

/-- The elementwise case of `accounts_lower`, for both kinds of operators. -/
theorem accounts_lower_elementwise (op : ArrayOp) {lhs rhs : Source.Expr}
    (hlhs : site.Accounts [] (site.lower lhs)) (hrhs : site.Accounts [] (site.lower rhs)) :
    site.Accounts [] (site.lower (.elementwise op lhs rhs)) := by
  cases op <;>
  · simp only [Source.Expr.elementwise, Site.lower]
    refine hlhs.bind fun l => hrhs.bind fun r => ?_
    exact (site.accounts_applyArray _ l.value r.value).bind fun e => .pure _

/-- **Lowering an expression accounts for its reads**: the regions are built from the recorded
accesses, in order. -/
theorem accounts_lower (site : Site) (e : Source.Expr) : site.Accounts [] (site.lower e) := by
  induction e using Site.lower.induct site with
  | case1 id entry found =>
      simp only [Site.lower, found]
      exact .pure _
  | case2 id unknown =>
      simp only [Site.lower, unknown]
      exact .fail _
  | case3 value =>
      simp only [Site.lower]
      exact .pure _
  | case4 op lhs rhs ihl ihr => exact accounts_lower_elementwise (.arith op) ihl ihr
  | case5 lhs op rhs ihl ihr => exact accounts_lower_elementwise (.compare op) ihl ihr
  | case8 op operand ih =>
      simp only [Site.lower]
      exact ih.bind fun o => (site.accounts_applyUnary op o.value).bind fun e => .pure _
  | _ =>
      simp only [Site.lower]
      exact .fail _

theorem accounts_finish (site : Site) (copies : Bool) (output : Buffer) (lowered : Lowered) :
    site.Accounts [] (site.finish copies output lowered) := by
  unfold Site.finish
  by_cases fits : lowered.shape.sameRetained output.shape = true
  · rw [if_pos fits]
    cases lowered with
    | buffer source =>
        cases copies with
        | true => exact site.accounts_read source source.shape
        | false => exact .fail _
    | array value type => exact .pure value
    | scalar value type => exact .pure value
  · rw [if_neg fits]
    exact .fail _

end Site

/-! ### Kernels -/

/-- The loops and the writes of the block are built from the shape `output`, and its reads from the
shapes `accesses`. -/
structure Loop.Block.Spans (symbols : Symbols) (index : ElementType) (output : Shape)
    (accesses : List Shape) (block : Block) : Prop where
  loops : output.ranges symbols index = .ok (block.iterVars.map IterVar.range)
  reads : List.Forall₂ (Region.Spans symbols index) accesses block.reads
  writes : ∀ region ∈ block.writes, region.Spans symbols index output

namespace Kernel

/-- **The regions of a block are built from the recorded shapes.** -/
theorem compile_spans {kernel : Kernel} {env : Environment} {settings : Settings}
    {block : Block} (h : kernel.compile env settings = .ok block) :
    block.Spans env.symbols settings.indexType kernel.output.shape
      (kernel.lower env settings).accesses := by
  have h := lower_eq_ok_iff.mpr (compile_eq_ok_iff.mp h)
  unfold Kernel.lower at h ⊢
  obtain ⟨e, he, h⟩ := Traced.result_bind_eq_ok_iff.mp h
  obtain ⟨_, declared, h⟩ := Traced.result_bind_eq_ok_iff.mp h
  obtain ⟨ranges, hranges, h⟩ := Traced.result_bind_eq_ok_iff.mp h
  obtain ⟨_, looped, h⟩ := Traced.result_bind_eq_ok_iff.mp h
  obtain ⟨lowered, hlowered, h⟩ := Traced.result_bind_eq_ok_iff.mp h
  obtain ⟨stored, hstored, h⟩ := Traced.result_bind_eq_ok_iff.mp h
  obtain ⟨_, closed, h⟩ := Traced.result_bind_eq_ok_iff.mp h
  obtain ⟨body, hbody, ⟨⟩⟩ := Traced.result_bind_eq_ok_iff.mp h
  rw [Traced.accesses_bind he, Traced.accesses_bind declared, Traced.accesses_bind hranges,
    Traced.accesses_bind looped, Traced.accesses_bind hlowered, Traced.accesses_bind hstored,
    Traced.accesses_bind closed, Traced.accesses_bind hbody]
  rw [Shape.result_traceRanges] at hranges
  simp only [Traced.accesses_traceRanges hranges, Traced.accesses_lift, Traced.accesses_emit,
    Traced.accesses_pure, Event.access?, Option.toList_none, List.nil_append, List.append_nil]
  obtain ⟨_, rfl, spans⟩ := Site.accounts_lower _ e lowered hlowered
  obtain ⟨_, rfl, spans'⟩ := Site.accounts_finish _ settings.copies _ lowered.value stored hstored
  constructor
  · rw [Settings.map_range_iterVars]
    exact hranges
  · exact List.rel_append spans spans'
  · intro region mem
    obtain rfl := List.mem_singleton.mp mem
    exact hranges

end Kernel

end ArrayKernel
