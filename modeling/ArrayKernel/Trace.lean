import ArrayKernel.Fault

/-!
Computations that can fail and that record what they did: `Traced α` is a result together with
the events up to its end, be it a value or a fault. The record never changes the result:
`Traced.result_bind` computes results without it, and `Traced.events_bind_of_ok` and
`Traced.events_bind_of_error` say what is recorded.
-/

namespace ArrayKernel

/-- The steps of a lowering that are recorded. -/
inductive Event where
  /-- The ranges of a shape were built, one for each retained dimension. -/
  | ranges (shape : Shape) (retained : Nat)
  /-- A buffer was read at an access shape. -/
  | read (buffer : String) (access : Shape)
  /-- The loops of a kernel were set up over its output. -/
  | loops (kernel : String) (count : Nat) (output : Shape)
  /-- The value of a kernel was lowered. -/
  | body (kernel : String) (reads : Nat)
deriving DecidableEq, Repr

/-- One line for an event: how detailed it is, and what happened. -/
def Event.line : Event → String
  | .ranges shape retained =>
      "TRACE ranges for " ++ shape.text ++ ": " ++ Nat.repr retained ++ " retained of " ++
        Nat.repr shape.dims.length
  | .read buffer access => "TRACE read " ++ buffer ++ " at " ++ access.text
  | .loops kernel count output =>
      "DEBUG kernel '" ++ kernel ++ "': ranges computed, " ++ Nat.repr count ++
        " iteration variables over " ++ output.text
  | .body kernel reads =>
      "DEBUG kernel '" ++ kernel ++ "': body lowered with " ++ Nat.repr reads ++ " read regions"

/-- A result and the events on the way to it. -/
structure Traced (α : Type) where
  events : List Event
  result : Except Fault α

namespace Traced

variable {α β : Type}

instance : Monad Traced where
  pure a := ⟨[], .ok a⟩
  bind x f :=
    match x.result with
    | .ok a => ⟨x.events ++ (f a).events, (f a).result⟩
    | .error fault => ⟨x.events, .error fault⟩

/-- Records an event. -/
def emit (event : Event) : Traced Unit :=
  ⟨[event], .ok ()⟩

/-- Stops with a fault. -/
def fail (fault : Fault) : Traced α :=
  ⟨[], .error fault⟩

/-- A result without events. -/
def lift (result : Except Fault α) : Traced α :=
  ⟨[], result⟩

@[simp] theorem result_pure (a : α) : (pure a : Traced α).result = .ok a := rfl

@[simp] theorem result_emit (event : Event) : (emit event).result = .ok () := rfl

@[simp] theorem result_fail (fault : Fault) : (fail fault : Traced α).result = .error fault := rfl

@[simp] theorem result_lift (result : Except Fault α) : (lift result).result = result := rfl

@[simp] theorem result_bind (x : Traced α) (f : α → Traced β) :
    (x >>= f).result = x.result.bind fun a => (f a).result := by
  show (match x.result with
    | .ok a => (⟨x.events ++ (f a).events, (f a).result⟩ : Traced β)
    | .error fault => ⟨x.events, .error fault⟩).result = _
  cases x.result <;> rfl

theorem events_bind_of_ok {x : Traced α} {a : α} (h : x.result = .ok a) (f : α → Traced β) :
    (x >>= f).events = x.events ++ (f a).events := by
  show (match x.result with
    | .ok a => (⟨x.events ++ (f a).events, (f a).result⟩ : Traced β)
    | .error fault => ⟨x.events, .error fault⟩).events = _
  rw [h]

theorem events_bind_of_error {x : Traced α} {fault : Fault} (h : x.result = .error fault)
    (f : α → Traced β) : (x >>= f).events = x.events := by
  show (match x.result with
    | .ok a => (⟨x.events ++ (f a).events, (f a).result⟩ : Traced β)
    | .error fault => ⟨x.events, .error fault⟩).events = _
  rw [h]

end Traced

end ArrayKernel
