import ArrayKernel.Proofs.Reads

/-!
Larger environments.

An environment extends another one if it gives the same answer to every request that the other one
answers: for a name, for a symbol, and for an operator at two array types. Lowering asks for all
three at many places, for symbols also in access shapes that only the operator table knows of. It
never takes a missing answer for something to go on with, so a larger environment changes nothing.

* `Environment.ExtendedBy`: the order of environments, for arbitrary tables.
* `Environment.extendedBy_declare`, `Environment.extendedBy_bind`,
  `Environment.extendedBy_elementwise`: new names, symbols and operators make larger environments.
* `Site.Lowers.extend`: what is derived in an environment is derived in every larger one.
* `Kernel.compile_extend`: a kernel that is compiled keeps its block.
-/

namespace ArrayKernel

open Loop (Expr Range Region Block)

/-! ### The order of environments -/

/-- `env'` answers every request that `env` answers, and in the same way. -/
structure Environment.ExtendedBy (env env' : Environment) : Prop where
  names : ∀ {id : String} {entry : Entry},
    env.scope.find? id = some entry → env'.scope.find? id = some entry
  symbols : ∀ {name : String} {stop : Expr},
    env.symbols.find? name = some stop → env'.symbols.find? name = some stop
  operators : ∀ {l r : ArrayType} {op : ArrayOp} {inst : OperatorInstance},
    env.operators l r op = some inst → env'.operators l r op = some inst

namespace Environment

variable {env env' : Environment}

theorem ExtendedBy.trans {env'' : Environment} (h : env.ExtendedBy env')
    (k : env'.ExtendedBy env'') : env.ExtendedBy env'' where
  names found := k.names (h.names found)
  symbols bound := k.symbols (h.symbols bound)
  operators known := k.operators (h.operators known)

/-- A new name leaves the others as they are. -/
theorem extendedBy_declare {entry : Entry} (fresh : env.scope.find? entry.name = none) :
    env.ExtendedBy ⟨env.scope.insert entry, env.symbols, env.operators⟩ where
  names := by
    intro id other found
    have differs : entry.name ≠ id := by
      rintro rfl
      rw [fresh] at found
      cases found
    exact (Scope.find?_insert_of_ne differs).trans found
  symbols := id
  operators := id

/-- A new symbol leaves the others as they are. -/
theorem extendedBy_bind {name : String} (value : Expr) (fresh : env.symbols.find? name = none) :
    env.ExtendedBy ⟨env.scope, env.symbols.insert name value, env.operators⟩ where
  names := id
  symbols := by
    intro other stop bound
    have differs : other ≠ name := by
      rintro rfl
      rw [fresh] at bound
      cases bound
    exact (Symbols.find?_insert_of_ne differs).trans bound
  operators := id

/-- More elementwise operators answer as fewer do. -/
theorem extendedBy_elementwise {scope : Scope} {symbols : Symbols} {ops ops' : List ArrayOp}
    (more : ops ⊆ ops') :
    ExtendedBy ⟨scope, symbols, .elementwise ops⟩ ⟨scope, symbols, .elementwise ops'⟩ where
  names := id
  symbols := id
  operators := by
    intro l r op inst known
    obtain ⟨mem, same, shape, hshape, rfl⟩ := OperatorTable.elementwise_eq_some_iff.mp known
    exact OperatorTable.elementwise_eq_some_iff.mpr ⟨more mem, same, shape, hshape, rfl⟩

/-! ### Requests -/

variable {index : ElementType}

theorem ExtendedBy.hasRange (h : env.ExtendedBy env') {dim : Dim} {range : Range}
    (hrange : dim.HasRange env.symbols index range) : dim.HasRange env'.symbols index range := by
  cases dim with
  | const extent => exact hrange
  | symbol name =>
      obtain ⟨stop, bound, rfl⟩ := hrange
      exact ⟨stop, h.symbols bound, rfl⟩
  | elided => exact hrange

theorem ExtendedBy.ranges (h : env.ExtendedBy env') {shape : Shape} {ranges : List Range}
    (hranges : shape.ranges env.symbols index = .ok ranges) :
    shape.ranges env'.symbols index = .ok ranges := by
  rw [Shape.ranges_eq_ok_iff] at hranges ⊢
  exact hranges.imp fun _ _ => h.hasRange

theorem ExtendedBy.resolve (h : env.ExtendedBy env') {l r : Operand} {op : ArrayOp}
    {inst : OperatorInstance} (hinst : env.operators.resolve l r op = .ok inst) :
    env'.operators.resolve l r op = .ok inst := by
  rw [OperatorTable.resolve_eq_ok_iff] at hinst ⊢
  obtain ⟨lt, rt, hlt, hrt, known⟩ := hinst
  exact ⟨lt, rt, hlt, hrt, h.operators known⟩

end Environment

/-! ### Derivations in larger environments -/

namespace Site

variable {site : Site} {env : Environment} {e : Source.Expr} {lowered : Lowered} {access : Shape}
  {value : Expr} {reads : List Region}

/-- The same loops in another environment. -/
def withEnv (site : Site) (env : Environment) : Site :=
  ⟨env, site.iterVars, site.indexType⟩

theorem ReadsAt.extend (larger : site.env.ExtendedBy env) {buffer : Buffer} {region : Region}
    (h : site.ReadsAt buffer access region) : (site.withEnv env).ReadsAt buffer access region :=
  ⟨h.rank_le, h.rank_eq, h.buffer_eq, larger.ranges h.ranges_eq⟩

/-- An element is read at the same indices: they follow the loops, and not the environment. -/
theorem Materializes.extend (larger : site.env.ExtendedBy env)
    (h : site.Materializes access lowered value reads) :
    (site.withEnv env).Materializes access lowered value reads := by
  cases h with
  | buffer reads => exact .buffer (reads.extend larger)
  | array => exact .array
  | scalar => exact .scalar

/-- **What is derived in an environment is derived in every larger one.** -/
theorem Lowers.extend (larger : site.env.ExtendedBy env) (h : site.Lowers e lowered reads) :
    (site.withEnv env).Lowers e lowered reads := by
  induction h with
  | name found => exact .name (larger.names found)
  | literal => exact .literal
  | elementwise _ _ hinst hlv hrv ihl ihr =>
      exact .elementwise ihl ihr (larger.resolve hinst) (hlv.extend larger) (hrv.extend larger)
  | unary _ hv ih => exact .unary ih (hv.extend larger)

end Site

namespace AddColumn

/-- The environment of the sum, with a scalar, a symbol and all other operators added. -/
def largerEnv : Environment :=
  ⟨scope.insert (.scalar "alpha" .float32), symbols.insert "m" (.int 5 .int64), .standard⟩

theorem extendedBy_largerEnv : env.ExtendedBy largerEnv := by
  have operators : env.ExtendedBy ⟨scope, symbols, .standard⟩ :=
    Environment.extendedBy_elementwise (by decide)
  have names : Environment.ExtendedBy ⟨scope, symbols, .standard⟩
      ⟨scope.insert (.scalar "alpha" .float32), symbols, .standard⟩ :=
    Environment.extendedBy_declare rfl
  exact (operators.trans names).trans (Environment.extendedBy_bind _ rfl)

end AddColumn

namespace Kernel

variable {kernel : Kernel} {env env' : Environment} {settings : Settings} {block : Block}

theorem Lowers.extend (larger : env.ExtendedBy env') (h : kernel.Lowers env settings block) :
    kernel.Lowers env' settings block := by
  obtain @⟨e, ranges, lowered, value, reads, reads', hbody, hdeclared, hranges, hlowered, same,
    copies, hvalue⟩ := h
  have lowered' : (site env' settings ranges).Lowers e lowered reads := hlowered.extend larger
  have value' : (site env' settings ranges).Materializes lowered.shape lowered value reads' :=
    hvalue.extend larger
  exact .intro hbody hdeclared (larger.ranges hranges) lowered' same copies value'

/-- **Compiling is monotone in its environment**: a kernel that is compiled in an environment is
compiled to the identical block in every larger one, whatever the tables are. -/
theorem compile_extend (larger : env.ExtendedBy env')
    (h : kernel.compile env settings = .ok block) : kernel.compile env' settings = .ok block := by
  have derived := compile_eq_ok_iff.mp h
  exact compile_eq_ok_iff.mpr (derived.extend larger)

/-- The sum keeps its block when a scalar, a symbol and all other operators are added. -/
theorem compile_extend_addColumn :
    AddColumn.env.ExtendedBy AddColumn.largerEnv ∧
      AddColumn.kernel.compile AddColumn.largerEnv {} = .ok AddColumn.block := by
  have compiled : AddColumn.kernel.compile AddColumn.env {} = .ok AddColumn.block := rfl
  exact ⟨AddColumn.extendedBy_largerEnv, compile_extend AddColumn.extendedBy_largerEnv compiled⟩

end Kernel

end ArrayKernel
