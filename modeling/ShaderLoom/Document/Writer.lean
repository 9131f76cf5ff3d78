import ShaderLoom.Decimal.Shortest
import ShaderLoom.Document.Encode
import ShaderLoom.Json.Writer

/-! Documents as text. Fields stand in the order in which a record lists them, and a field that says
nothing is left out. -/
namespace ShaderLoom.Document

/-- The shortest digits that read back, with an exponent below a millionth and from 10^21 on. -/
def floatJson (x : Binary64) : Json :=
  match x.magnitude with
  | .nan | .infinite => .null
  | .finite m e =>
    let s := Decimal.shortest m e
    let top := s.exponent + (Decimal.digitText s.digits).length
    let plain := m = 0 ∨ (-5 ≤ top ∧ top ≤ 21)
    let body := if plain then Decimal.positional s else Decimal.exponential s
    .num (if x.negative then "-" ++ body else body)

def positionJson (p : Position) : Json :=
  .obj ((if p.file.isEmpty then [] else [("file", .str p.file)]) ++
    [("line", .ofInt p.line), ("column", .ofInt p.column), ("offset", .ofInt p.offset)])

def spanJson (s : Span) : Json :=
  .obj [("start", positionJson s.start), ("end", positionJson s.stop)]

def textField (key text : String) : List (String × Json) :=
  if text.isEmpty then [] else [(key, .str text)]

def intField (key : String) (n : Int) : List (String × Json) :=
  if n = 0 then [] else [(key, .ofInt n)]

def flagField (key : String) (flag : Bool) : List (String × Json) :=
  if flag then [(key, .bool true)] else []

def someField {α : Type} (key : String) (write : α → Json) : Option α → List (String × Json)
  | some a => [(key, write a)]
  | none => []

mutual

def recordJson : Record → Json
  | ⟨kind, span, name, int, float, bool, suffix, op, lhs, rhs, expr, target, args, object, index,
      statements, var, call, condition, body, otherwise, continuing, initializer, decrement,
      type, addressSpace, access, attributes, params, returnType, returnAttributes, members,
      stage, builtin, value, x, y, z, elem, width, columns, rows, count, comparison, dim⟩ =>
    .obj ([("kind", .str kind)] ++
      someField "span" spanJson span ++
      textField "name" name ++
      someField "int" Json.ofInt int ++
      someField "float" floatJson float ++
      someField "bool" Json.bool bool ++
      textField "suffix" suffix ++
      textField "op" op ++
      childField "lhs" lhs ++
      childField "rhs" rhs ++
      childField "expr" expr ++
      childField "target" target ++
      listField "args" args ++
      childField "object" object ++
      childField "index" index ++
      listField "statements" statements ++
      childField "variable" var ++
      childField "call" call ++
      childField "condition" condition ++
      childField "body" body ++
      childField "else" otherwise ++
      childField "continuing" continuing ++
      childField "initializer" initializer ++
      flagField "decrement" decrement ++
      childField "type" type ++
      textField "address_space" addressSpace ++
      textField "access" access ++
      listField "attributes" attributes ++
      listField "params" params ++
      childField "return_type" returnType ++
      listField "return_attributes" returnAttributes ++
      listField "members" members ++
      textField "stage" stage ++
      textField "builtin" builtin ++
      someField "value" (fun v => Json.ofNat v.toNat) value ++
      childField "x" x ++
      childField "y" y ++
      childField "z" z ++
      childField "elem" elem ++
      intField "width" width ++
      intField "columns" columns ++
      intField "rows" rows ++
      intField "count" count ++
      flagField "comparison" comparison ++
      textField "dim" dim)

def childField (key : String) : Option Record → List (String × Json)
  | none => []
  | some r => [(key, recordJson r)]

def listField (key : String) : List (Option Record) → List (String × Json)
  | [] => []
  | r :: rest => [(key, .arr (itemJson r :: itemsJson rest))]

def itemJson : Option Record → Json
  | none => .null
  | some r => recordJson r

def itemsJson : List (Option Record) → List Json
  | [] => []
  | r :: rest => itemJson r :: itemsJson rest

end

def Module.toJson (m : Module) : Json :=
  .obj [("version", .ofInt m.version), ("globals", .arr (itemsJson m.globals))]

/-- The document of a program as indented text. -/
def textOf (p : Program) : String := (ofProgram p).toJson.indented 0

end ShaderLoom.Document
