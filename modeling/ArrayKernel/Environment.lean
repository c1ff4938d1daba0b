import ArrayKernel.Loop.Expr
import ArrayKernel.Operator.Table

/-!
What kernels are lowered against: the arrays and scalars in scope, the meaning of symbolic
extents, and the operators.
-/

namespace ArrayKernel

/-- Something that a name in an expression stands for. A buffer goes by its own name. -/
inductive Entry where
  | array (buffer : Buffer)
  | scalar (name : String) (type : ElementType)
deriving DecidableEq, Repr

def Entry.name : Entry → String
  | .array buffer => buffer.name
  | .scalar name _ => name

/-- The named arrays and scalars; no name occurs twice. -/
structure Scope where
  entries : List Entry
  nodup : (entries.map Entry.name).Nodup

namespace Scope

def empty : Scope := ⟨[], List.nodup_nil⟩

/-- Adds an entry, in place of one of the same name. -/
def insert (scope : Scope) (entry : Entry) : Scope where
  entries := entry :: scope.entries.filter fun other => other.name != entry.name
  nodup := by
    refine List.nodup_cons.mpr ⟨?_, ?_⟩
    · simp only [List.mem_map, List.mem_filter, bne_iff_ne]
      rintro ⟨other, ⟨_, differs⟩, same⟩
      exact differs same
    · exact (List.filter_sublist.map Entry.name).nodup scope.nodup

/-- The entry of a name. -/
def find? (scope : Scope) (name : String) : Option Entry :=
  scope.entries.find? fun entry => entry.name == name

/-- The number of names. -/
def size (scope : Scope) : Nat := scope.entries.length

/-- Is there no name at all? -/
def isEmpty (scope : Scope) : Bool := scope.entries.isEmpty

/-- What is found under a name has that name. -/
theorem name_eq_of_find? {scope : Scope} {name : String} {entry : Entry}
    (h : scope.find? name = some entry) : entry.name = name := by
  simpa using List.find?_some h

@[simp] theorem find?_empty (name : String) : empty.find? name = none := rfl

@[simp] theorem find?_insert_self (scope : Scope) (entry : Entry) :
    (scope.insert entry).find? entry.name = some entry := by
  simp [insert, find?]

theorem find?_insert_of_ne {scope : Scope} {entry : Entry} {name : String}
    (h : entry.name ≠ name) : (scope.insert entry).find? name = scope.find? name := by
  have differs : (entry.name == name) = false := by simpa using h
  simp only [insert, find?, List.find?_cons, List.find?_filter, differs]
  congr 1
  funext other
  by_cases same : other.name = name
  · simp [same, Ne.symm h]
  · simp [same]

end Scope

/-- The values that symbolic extents stand for. -/
structure Symbols where
  bindings : List (String × Loop.Expr)

namespace Symbols

def empty : Symbols := ⟨[]⟩

/-- Binds a name, in place of what it was bound to before. -/
def insert (symbols : Symbols) (name : String) (value : Loop.Expr) : Symbols :=
  ⟨(name, value) :: symbols.bindings⟩

/-- Binds a name to the variable of that name. -/
def bindVar (symbols : Symbols) (name : String) (type : ElementType) : Symbols :=
  symbols.insert name (.var ⟨name, type⟩)

/-- What a name is bound to. -/
def find? (symbols : Symbols) (name : String) : Option Loop.Expr :=
  symbols.bindings.lookup name

@[simp] theorem find?_empty (name : String) : empty.find? name = none := rfl

@[simp] theorem find?_insert_self (symbols : Symbols) (name : String) (value : Loop.Expr) :
    (symbols.insert name value).find? name = some value := by
  simp [insert, find?]

theorem find?_insert_of_ne {symbols : Symbols} {name other : String} {value : Loop.Expr}
    (h : other ≠ name) : (symbols.insert name value).find? other = symbols.find? other := by
  have differs : (other == name) = false := by simpa using h
  simp [insert, find?, List.lookup_cons, differs]

end Symbols

/-- Everything that names and operators of a kernel are looked up in. -/
structure Environment where
  scope : Scope
  symbols : Symbols
  operators : OperatorTable

end ArrayKernel
