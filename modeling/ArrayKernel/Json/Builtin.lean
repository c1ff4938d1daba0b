import ArrayKernel.Json.Record
import ArrayKernel.Json.Variant
import ArrayKernel.Json.Writer

/-!
The JSON library that this project comes with. It writes one item a line, and its numbers are the
shortest decimals that are read back, correctly rounded, as the same number.
-/

namespace ArrayKernel.Json

/-- The record of the given parts. -/
def Fields.ofParts {α : Type} : Parts Reader α → Fields α
  | .single key reader => .single key reader
  | .cons key reader parts => .cons key reader (ofParts parts)

/-- The readers and the writer of this project. -/
def Library.builtin : Library where
  Reader := Json.Reader
  Rest := List Char
  limit := Reader.maxDepth + 1
  print := render .indented
  start := String.toList
  finished s := (skipBlanks s).isEmpty
  run r := r.run
  refuse := .refuse
  map := .map
  string := .string
  bool := .bool
  int64 := .int64
  uint64 := .uint64
  real := .real
  list := .list
  pair := .pair
  triple := .triple
  record parts := .record (.ofParts parts)
  variant := .variant

/-- Reads a text that holds one value and nothing else. -/
def Reader.parse {α : Type} (r : Reader α) (text : String) : Except Problem α :=
  Library.builtin.parse r text

end ArrayKernel.Json
