import ShaderLoom.Document.Reader
import ShaderLoom.Text.Quoted

/-! Why a value does not describe a document. Every place of a document asks for a form; a misfit is
the first value, in reading order, that is of another form, or the first key that a place does not
know where unknown keys are refused. A `null` fits everywhere. -/
namespace ShaderLoom.Document

/-- The objects of documents. -/
inductive Part where
  | module
  | node
  | span
  | position
  | options
  | glsl
  | hlsl
  | msl
  | spirv
  | remap
  | accessControl
  | texture
  | point
  | indexPoint
  deriving DecidableEq, Repr

inductive Form where
  | text
  | flag
  | float
  | int
  | int64
  | word
  | part (p : Part)
  | list (p : Part) (typeName : String)
  deriving DecidableEq, Repr

namespace Part

def name : Part → String
  | module => "Module"
  | node => "Node"
  | span => "Span"
  | position => "Position"
  | options => "Options"
  | glsl => "GLSLOptions"
  | hlsl => "HLSLOptions"
  | msl => "MSLOptions"
  | spirv => "SPIRVOptions"
  | remap => "BindingRemap"
  | accessControl => "AccessControl"
  | texture => "ExternalTexture"
  | point => "BindingPoint"
  | indexPoint => "FirstIndexOffsetBindingPoint"

def typeName (p : Part) : String :=
  match p with
  | module | node => "astjson." ++ p.name
  | span | position => "position." ++ p.name
  | point => "sem." ++ p.name
  | indexPoint => "transform." ++ p.name
  | _ => "sanitizer." ++ p.name

/-- The options that all targets share. -/
def shared : List (String × Form) :=
  [("binding_remaps", .list .remap "[]sanitizer.BindingRemap"),
    ("access_controls", .list .accessControl "[]sanitizer.AccessControl"),
    ("allow_collisions", .flag),
    ("external_textures", .list .texture "[]sanitizer.ExternalTexture")]

/-- The fields of an object: the key of each and its form. -/
def fields : Part → List (String × Form)
  | module => [("version", .int), ("globals", .list .node "[]*astjson.Node")]
  | node =>
    (["kind", "name", "suffix", "op", "address_space", "access", "stage", "builtin", "dim"].map
        fun key => (key, .text)) ++
      (["lhs", "rhs", "expr", "target", "object", "index", "variable", "call", "condition", "body",
        "else", "continuing", "initializer", "type", "return_type", "x", "y", "z", "elem"].map
        fun key => (key, .part .node)) ++
      (["args", "statements", "attributes", "params", "return_attributes", "members"].map
        fun key => (key, .list .node "[]*astjson.Node")) ++
      (["width", "columns", "rows", "count"].map fun key => (key, .int)) ++
      [("span", .part .span), ("int", .int64), ("float", .float), ("bool", .flag),
        ("decrement", .flag), ("comparison", .flag), ("value", .word)]
  | span => [("start", .part .position), ("end", .part .position)]
  | position => [("file", .text), ("line", .int), ("column", .int), ("offset", .int)]
  | options =>
    [("glsl", .part .glsl), ("hlsl", .part .hlsl), ("msl", .part .msl),
      ("spirv", .part .spirv)]
  | glsl => shared ++ [("version", .text), ("entry_point", .text)]
  | hlsl =>
    shared ++ [("first_index_offset", .part .indexPoint), ("num_workgroups", .part .point)]
  | msl => shared ++ [("version", .text)]
  | spirv => shared
  | remap => [("from", .part .point), ("to", .part .point)]
  | accessControl => [("binding", .part .point), ("access", .text)]
  | texture => [("binding", .part .point), ("plane1", .part .point), ("params", .part .point)]
  | point => [("group", .word), ("binding", .word)]
  | indexPoint => [("Group", .word), ("Binding", .word)]

/-- The field under a key, in upper or lower case. -/
def form? (p : Part) (key : String) : Option Form :=
  (p.fields.find? fun (name, _) => foldKey name == foldKey key).map (·.2)

end Part

def Form.typeName : Form → String
  | .text => "string"
  | .flag => "bool"
  | .float => "float64"
  | .int => "int"
  | .int64 => "int64"
  | .word => "uint32"
  | .part p => p.typeName
  | .list _ name => name

/-- Whether a value other than an object or an array is of a form. -/
def Form.accepts : Form → Json → Bool
  | .text, v => (readText v).isSome
  | .flag, v => (readFlag v).isSome
  | .float, v => (readFloat v).isSome
  | .int, v => (readInt v).isSome
  | .int64, v => (readInt v).isSome
  | .word, v => (readWord v).isSome
  | _, _ => false

def Form.isNumber : Form → Bool
  | .float | .int | .int64 | .word => true
  | _ => false

/-- What a value is called; a number of a wrong kind is shown. -/
def Form.shown (f : Form) : Json → String
  | .null => "null"
  | .bool _ => "bool"
  | .num t => if f.isNumber then "number " ++ t else "number"
  | .str _ => "string"
  | .arr _ => "array"
  | .obj _ => "object"

/-- One step down into a document: to a field, by its key as it is written, or to an item. -/
inductive Step where
  | field (key : String)
  | item (index : Nat)
  deriving DecidableEq, Repr

def Step.text : Step → String
  | .field key => key
  | .item index => toString index

inductive Misfit where
  | unknownKey (key : String)
  /-- The value at the end of the steps, last step first, is of another form. -/
  | form (shown : String) (steps : List Step) (typeName : String)
  deriving DecidableEq, Repr

/-- The wording of a misfit in a document that is described by `root`. -/
def Misfit.text (root : String) : Misfit → String
  | .unknownKey key => "json: unknown field " ++ Text.quoted key
  | .form shown steps typeName =>
    let path := ".".intercalate (root :: steps.reverse.map Step.text)
    let place := match steps with
      | [] => "Go value"
      | .field _ :: _ => "Go struct field " ++ path
      | .item _ :: _ => path
    s!"json: cannot unmarshal {shown} into {place} of type {typeName}"

/-- The first misfit of a value that `steps` lead to, last step first. `fuel` bounds how deep values
nest. -/
def misfit? (strict : Bool) : Nat → Form → List Step → Json → Option Misfit
  | 0, _, _, _ => none
  | _ + 1, _, _, .null => none
  | n + 1, .part p, steps, .obj fs =>
    fs.findSome? fun (key, v) =>
      match p.form? key with
      | some f => misfit? strict n f (.field key :: steps) v
      | none => if strict then some (.unknownKey key) else none
  | n + 1, .list p _, steps, .arr vs =>
    vs.zipIdx.findSome? fun (v, i) => misfit? strict n (.part p) (.item i :: steps) v
  | _ + 1, f, steps, v => if f.accepts v then none else some (.form (f.shown v) steps f.typeName)

/-- Why a text does not describe a document. -/
inductive Unreadable where
  | notJson (problem : Json.Problem)
  | misfit (root : String) (first : Option Misfit)
  deriving DecidableEq, Repr

def Unreadable.text : Unreadable → String
  | .notJson problem => problem.text
  | .misfit root first => (first.map (Misfit.text root)).getD ""

/-- Reads the first value of a text as a part of a document. -/
def readPart {α : Type} (strict : Bool) (p : Part) (read : Json → Option α) (text : String) :
    Except Unreadable α := do
  let v ← (Json.parse text .first).mapError .notJson
  match read v with
  | some a => return a
  | none => throw (.misfit p.name (misfit? strict (v.depth + 1) (.part p) [] v))

/-- The module that the first value of a text describes. -/
def Module.parse : String → Except Unreadable Module := readPart false .module Module.ofJson?

end ShaderLoom.Document
