import ArrayKernel.Number.Binary64

/-!
JSON values, as they are written, and what can be wrong with a text that is read.
-/

namespace ArrayKernel

/-- A JSON value. The fields of an object keep their order. -/
inductive Json where
  | null
  | bool (value : Bool)
  | int (value : Int)
  | real (value : Binary64)
  | string (value : String)
  | list (items : List Json)
  | object (fields : List (String × Json))

namespace Json

/-- An object with one field, which is how a variant with contents is written. -/
def tagged (tag : String) (content : Json) : Json :=
  .object [(tag, content)]

/-- The first problem met in a text, which is read from left to right. -/
inductive Problem where
  /-- The text ends too early. -/
  | truncated
  /-- The text is no JSON at this point, or has no place for what is expected. -/
  | malformed
  /-- There is a JSON value of another kind than is expected. -/
  | mistyped
deriving DecidableEq, Repr

end Json

end ArrayKernel
