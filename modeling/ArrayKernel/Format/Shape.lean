import ArrayKernel.Buffer
import ArrayKernel.Json.Builtin

/-!
The JSON form of element types, shapes and buffers. `toJson` is how a value is written, and
`readerIn` how a library reads it; `reader` is that reader in the library of this project.
-/

namespace ArrayKernel

open Json (Library Reader)

namespace ElementType

/-- The name of an element type in JSON. -/
def tag : ElementType → String
  | .bool => "Bool"
  | .int32 => "Int32"
  | .int64 => "Int64"
  | .float32 => "Float32"
  | .float64 => "Float64"

/-- Every element type, once. -/
def all : List ElementType := [.bool, .int32, .int64, .float32, .float64]

def toJson (type : ElementType) : Json := .string type.tag

def readerIn (lib : Library) : lib.Reader ElementType := lib.enum all tag

def reader : Reader ElementType := readerIn .builtin

end ElementType

def Dim.toJson : Dim → Json
  | .const extent => .tagged "Const" (.int extent.toNat)
  | .symbol name => .tagged "Symbol" (.string name)
  | .elided => .string "Elided"

def Dim.readerIn (lib : Library) : lib.Reader Dim :=
  lib.variant fun
    | "Const" => some (.content (lib.map .const lib.uint64))
    | "Symbol" => some (.content (lib.map .symbol lib.string))
    | "Elided" => some (.constant .elided)
    | _ => none

def Dim.reader : Reader Dim := readerIn .builtin

def Shape.toJson (shape : Shape) : Json :=
  .list (shape.dims.map Dim.toJson)

def Shape.readerIn (lib : Library) : lib.Reader Shape :=
  lib.map Shape.mk (lib.list (Dim.readerIn lib))

def Shape.reader : Reader Shape := readerIn .builtin

def ArrayType.toJson (type : ArrayType) : Json :=
  .object [("shape", type.shape.toJson), ("dtype", type.element.toJson)]

def ArrayType.readerIn (lib : Library) : lib.Reader ArrayType :=
  lib.map (fun (shape, element) => ⟨shape, element⟩)
    (lib.record (.cons "shape" (Shape.readerIn lib)
      (.single "dtype" (ElementType.readerIn lib))))

def ArrayType.reader : Reader ArrayType := readerIn .builtin

def Buffer.toJson (buffer : Buffer) : Json :=
  .object [("name", .string buffer.name), ("ty", buffer.type.toJson)]

def Buffer.readerIn (lib : Library) : lib.Reader Buffer :=
  lib.map (fun (name, type) => ⟨name, type⟩)
    (lib.record (.cons "name" lib.string (.single "ty" (ArrayType.readerIn lib))))

def Buffer.reader : Reader Buffer := readerIn .builtin

end ArrayKernel
