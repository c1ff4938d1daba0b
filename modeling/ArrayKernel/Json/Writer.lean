import ArrayKernel.Json.Number
import ArrayKernel.Json.Quoted

/-!
Writing JSON values, either without any blanks or with one item a line.

All functions put the text of a value in front of a given tail, so that a value is written in one
pass and its text is followed through to what comes after it.
-/

namespace ArrayKernel.Json

/-- The two ways to write a value. -/
inductive Style where
  /-- Without blanks. -/
  | compact
  /-- With every item on a line of its own, two blanks deeper than its container. -/
  | indented
deriving DecidableEq, Repr

/-- Goes to the next line, at a nesting level, if the style has lines. -/
def Style.newline (style : Style) (level : Nat) (tail : List Char) : List Char :=
  match style with
  | .compact => tail
  | .indented => '\n' :: (List.replicate (2 * level) ' ' ++ tail)

/-- What stands between a field's name and its value. -/
def Style.colon (style : Style) (tail : List Char) : List Char :=
  match style with
  | .compact => ':' :: tail
  | .indented => ':' :: ' ' :: tail

mutual

/-- The text of a value at a nesting level, in front of `tail`. -/
def write (style : Style) (level : Nat) : Json → List Char → List Char
  | .null, tail => 'n' :: 'u' :: 'l' :: 'l' :: tail
  | .bool true, tail => 't' :: 'r' :: 'u' :: 'e' :: tail
  | .bool false, tail => 'f' :: 'a' :: 'l' :: 's' :: 'e' :: tail
  | .int value, tail => (toString value).toList ++ tail
  | .real value, tail => realText value ++ tail
  | .string value, tail => quote value tail
  | .list [], tail => '[' :: ']' :: tail
  | .list (item :: items), tail =>
      '[' :: style.newline (level + 1) (write style (level + 1) item
        (writeItems style level items tail))
  | .object [], tail => '\x7b' :: '\x7d' :: tail
  | .object ((key, value) :: fields), tail =>
      '\x7b' :: style.newline (level + 1) (quote key (style.colon (write style (level + 1) value
        (writeFields style level fields tail))))

/-- The rest of a list, after an item. -/
def writeItems (style : Style) (level : Nat) : List Json → List Char → List Char
  | [], tail => style.newline level (']' :: tail)
  | item :: items, tail =>
      ',' :: style.newline (level + 1) (write style (level + 1) item
        (writeItems style level items tail))

/-- The rest of an object, after a field. -/
def writeFields (style : Style) (level : Nat) : List (String × Json) → List Char → List Char
  | [], tail => style.newline level ('\x7d' :: tail)
  | (key, value) :: fields, tail =>
      ',' :: style.newline (level + 1) (quote key (style.colon (write style (level + 1) value
        (writeFields style level fields tail))))

end

/-- The text of a value. -/
def render (style : Style) (value : Json) : String :=
  String.ofList (value.write style 0 [])

end ArrayKernel.Json
