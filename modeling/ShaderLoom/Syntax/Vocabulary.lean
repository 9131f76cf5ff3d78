/-! The closed word lists of the shader language: operators, address spaces, access modes, builtin
values, pipeline stages and texture dimensions. Each list has an order, and a word is known by its
place in it; `other` keeps a number that no declared word has. -/
namespace ShaderLoom

inductive BinaryOp where
  | add | sub | mul | div | mod | and | or | xor | logicalAnd | logicalOr
  | equal | notEqual | less | greater | lessEqual | greaterEqual | shiftLeft | shiftRight
  | other (code : Nat)
  deriving DecidableEq, Repr, Inhabited

namespace BinaryOp

def declared : List BinaryOp :=
  [add, sub, mul, div, mod, and, or, xor, logicalAnd, logicalOr, equal, notEqual, less, greater,
    lessEqual, greaterEqual, shiftLeft, shiftRight]

def text : BinaryOp → String
  | add => "+"
  | sub => "-"
  | mul => "*"
  | div => "/"
  | mod => "%"
  | and => "&"
  | or => "|"
  | xor => "^"
  | logicalAnd => "&&"
  | logicalOr => "||"
  | equal => "=="
  | notEqual => "!="
  | less => "<"
  | greater => ">"
  | lessEqual => "<="
  | greaterEqual => ">="
  | shiftLeft => "<<"
  | shiftRight => ">>"
  | other _ => "?"

def ofCode (n : Nat) : BinaryOp := declared[n]?.getD (other n)

def code : BinaryOp → Nat
  | other n => n
  | op => declared.idxOf op

def parse? (s : String) : Option BinaryOp := declared.find? (·.text == s)

/-- Compares its operands, and so yields a truth value. -/
def isComparison : BinaryOp → Bool
  | equal | notEqual | less | greater | lessEqual | greaterEqual => true
  | _ => false

/-- Evaluates its right operand only when the left one demands it. -/
def isLogical : BinaryOp → Bool
  | logicalAnd | logicalOr => true
  | _ => false

theorem parse?_text {op : BinaryOp} (h : op ∈ declared) : parse? op.text = some op := by
  simp only [declared, List.mem_cons, List.not_mem_nil, or_false] at h
  rcases h with h | h | h | h | h | h | h | h | h | h | h | h | h | h | h | h | h | h <;>
    subst h <;> decide

end BinaryOp

inductive UnaryOp where
  | negation | not | complement
  | other (code : Nat)
  deriving DecidableEq, Repr, Inhabited

namespace UnaryOp

def declared : List UnaryOp := [negation, not, complement]

def text : UnaryOp → String
  | negation => "-"
  | not => "!"
  | complement => "~"
  | other _ => "?"

def ofCode (n : Nat) : UnaryOp := declared[n]?.getD (other n)

def code : UnaryOp → Nat
  | other n => n
  | op => declared.idxOf op

def parse? (s : String) : Option UnaryOp := declared.find? (·.text == s)

end UnaryOp

/-- How an integer literal was spelled. -/
inductive IntSuffix where
  | none | i | u
  deriving DecidableEq, Repr, Inhabited

namespace IntSuffix

def text : IntSuffix → String
  | none => ""
  | i => "i"
  | u => "u"

def ofCode : Int → IntSuffix
  | 1 => i
  | 2 => u
  | _ => none

def parse? : String → Option IntSuffix
  | "" => some none
  | "i" => some i
  | "u" => some u
  | _ => Option.none

end IntSuffix

inductive AddressSpace where
  | none | function | priv | workgroup | uniform | storage | handle
  | other (code : Nat)
  deriving DecidableEq, Repr, Inhabited

namespace AddressSpace

def declared : List AddressSpace := [none, function, priv, workgroup, uniform, storage, handle]

def text : AddressSpace → String
  | none => ""
  | function => "function"
  | priv => "private"
  | workgroup => "workgroup"
  | uniform => "uniform"
  | storage => "storage"
  | handle => "handle"
  | other _ => "?"

def ofCode (n : Nat) : AddressSpace := declared[n]?.getD (other n)

def code : AddressSpace → Nat
  | other n => n
  | s => declared.idxOf s

def parse? (s : String) : Option AddressSpace := declared.find? (·.text == s)

end AddressSpace

inductive Access where
  | undefined | read | write | readWrite
  | other (code : Nat)
  deriving DecidableEq, Repr, Inhabited

namespace Access

def declared : List Access := [undefined, read, write, readWrite]

def text : Access → String
  | undefined => ""
  | read => "read"
  | write => "write"
  | readWrite => "read_write"
  | other _ => "?"

def ofCode (n : Nat) : Access := declared[n]?.getD (other n)

def code : Access → Nat
  | other n => n
  | a => declared.idxOf a

def parse? (s : String) : Option Access := declared.find? (·.text == s)

end Access

/-- A value that the pipeline hands to a shader or takes from it. -/
inductive BuiltinValue where
  | none | vertexIndex | instanceIndex | position | frontFacing | fragDepth | localInvocationId
  | localInvocationIndex | globalInvocationId | workgroupId | numWorkgroups
    | sampleIndex | sampleMask
  | other (code : Nat)
  deriving DecidableEq, Repr, Inhabited

namespace BuiltinValue

def declared : List BuiltinValue :=
  [none, vertexIndex, instanceIndex, position, frontFacing, fragDepth, localInvocationId,
    localInvocationIndex, globalInvocationId, workgroupId, numWorkgroups, sampleIndex, sampleMask]

def text : BuiltinValue → String
  | none => ""
  | vertexIndex => "vertex_index"
  | instanceIndex => "instance_index"
  | position => "position"
  | frontFacing => "front_facing"
  | fragDepth => "frag_depth"
  | localInvocationId => "local_invocation_id"
  | localInvocationIndex => "local_invocation_index"
  | globalInvocationId => "global_invocation_id"
  | workgroupId => "workgroup_id"
  | numWorkgroups => "num_workgroups"
  | sampleIndex => "sample_index"
  | sampleMask => "sample_mask"
  | other _ => "?"

def ofCode (n : Nat) : BuiltinValue := declared[n]?.getD (other n)

def code : BuiltinValue → Nat
  | other n => n
  | b => declared.idxOf b

/-- The empty word names no builtin value. -/
def parse? (s : String) : Option BuiltinValue := (declared.drop 1).find? (·.text == s)

end BuiltinValue

/-- The pipeline stage an entry point runs in. -/
inductive PipelineStage where
  | none | vertex | fragment | compute
  | other (code : Nat)
  deriving DecidableEq, Repr, Inhabited

namespace PipelineStage

def declared : List PipelineStage := [none, vertex, fragment, compute]

def text : PipelineStage → String
  | none => ""
  | vertex => "vertex"
  | fragment => "fragment"
  | compute => "compute"
  | other _ => "?"

def ofCode (n : Nat) : PipelineStage := declared[n]?.getD (other n)

def code : PipelineStage → Nat
  | other n => n
  | s => declared.idxOf s

/-- The empty word names no stage. -/
def parse? (s : String) : Option PipelineStage := (declared.drop 1).find? (·.text == s)

end PipelineStage

inductive TextureDim where
  | d1 | d2 | d2Array | d3 | cube | cubeArray
  | other (code : Nat)
  deriving DecidableEq, Repr, Inhabited

namespace TextureDim

def declared : List TextureDim := [d1, d2, d2Array, d3, cube, cubeArray]

def text : TextureDim → String
  | d1 => "1d"
  | d2 => "2d"
  | d2Array => "2d_array"
  | d3 => "3d"
  | cube => "cube"
  | cubeArray => "cube_array"
  | other _ => "?"

def ofCode (n : Nat) : TextureDim := declared[n]?.getD (other n)

def code : TextureDim → Nat
  | other n => n
  | d => declared.idxOf d

def parse? (s : String) : Option TextureDim := declared.find? (·.text == s)

end TextureDim
/-- A list of words that are known by their spelling and by their place. -/
class Word (α : Type) where
  parse? : String → Option α
  ofCode : Nat → α
  code : α → Nat
  text : α → String

instance : Word BinaryOp := ⟨BinaryOp.parse?, .ofCode, BinaryOp.code, BinaryOp.text⟩
instance : Word UnaryOp := ⟨UnaryOp.parse?, .ofCode, UnaryOp.code, UnaryOp.text⟩
instance : Word AddressSpace :=
  ⟨AddressSpace.parse?, .ofCode, AddressSpace.code, AddressSpace.text⟩
instance : Word Access := ⟨Access.parse?, .ofCode, Access.code, Access.text⟩
instance : Word BuiltinValue :=
  ⟨BuiltinValue.parse?, .ofCode, BuiltinValue.code, BuiltinValue.text⟩
instance : Word PipelineStage :=
  ⟨PipelineStage.parse?, .ofCode, PipelineStage.code, PipelineStage.text⟩
instance : Word TextureDim := ⟨TextureDim.parse?, .ofCode, TextureDim.code, TextureDim.text⟩

/-- The word of that spelling, or the first word if there is none. -/
def Word.read {α : Type} [Word α] (s : String) : α := (Word.parse? s).getD (Word.ofCode 0)

end ShaderLoom
