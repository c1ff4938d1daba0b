import ArrayKernel.Json.Basic

/-!
What a JSON library offers: a text for every JSON value, and readers of typed values.

A reader is put together from the readers of its parts, and the library decides what it does with a
text. The formats of this project are written against any library. They know of the texts only that
the library prints them and reads them again.
-/

namespace ArrayKernel.Json

/-- What a variant holds: nothing, or contents to be read. -/
inductive Case (R : Type → Type) (α : Type) where
  | constant (value : α)
  | content (reader : R α)

/-- The parts of a record with their keys, in order. -/
inductive Parts (R : Type → Type) : Type → Type 1 where
  | single {α : Type} (key : String) (reader : R α) : Parts R α
  | cons {α β : Type} (key : String) (reader : R α) (parts : Parts R β) : Parts R (α × β)

/-- A library that writes and reads JSON. -/
structure Library where
  /-- Readers of values of a type. -/
  Reader : Type → Type
  /-- What is left of a text that is being read. -/
  Rest : Type
  /-- The depth of nesting from which on a text is refused. -/
  limit : Nat
  /-- The text of a value. -/
  print : Json → String
  /-- All of a text is left. -/
  start : String → Rest
  /-- Is nothing left but blanks? -/
  finished : Rest → Bool
  /-- Reads a value where `depth` more brackets may be opened. -/
  run : {α : Type} → Reader α → (depth : Nat) → Rest → Except Problem (α × Rest)
  /-- Accepts nothing. -/
  refuse : {α : Type} → Reader α
  /-- Reads a value and converts it. -/
  map : {α β : Type} → (α → β) → Reader α → Reader β
  string : Reader String
  bool : Reader Bool
  int64 : Reader Int64
  uint64 : Reader UInt64
  real : Reader Binary64
  /-- A list of any length. -/
  list : {α : Type} → Reader α → Reader (List α)
  /-- Two values in a list. -/
  pair : {α β : Type} → Reader α → Reader β → Reader (α × β)
  /-- Three values in a list. -/
  triple : {α β γ : Type} → Reader α → Reader β → Reader γ → Reader (α × β × γ)
  /-- A record, by the keys of its parts. -/
  record : {α : Type} → Parts Reader α → Reader α
  /-- A value of one of several variants, by the name of the variant. -/
  variant : {α : Type} → (String → Option (Case Reader α)) → Reader α

namespace Library

variable (lib : Library) {α : Type}

/-- A value without contents, by its name. -/
def enum (values : List α) (name : α → String) : lib.Reader α :=
  lib.variant fun tag => (values.find? fun value => name value == tag).map .constant

/-- Reads a text that holds one value and nothing else. -/
def parse (r : lib.Reader α) (text : String) : Except Problem α :=
  match lib.run r (lib.limit - 1) (lib.start text) with
  | .error problem => .error problem
  | .ok (a, rest) => if lib.finished rest then .ok a else .error .malformed

end Library

end ArrayKernel.Json
