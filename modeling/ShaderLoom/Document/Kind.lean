/-! The kinds of node that a document may hold, and their names. -/
namespace ShaderLoom.Document

inductive Kind where
  | ident | int | float | bool | binary | unary | call | index | member | block | varDecl
  | assign | increment | callStatement | ifElse | forLoop | whileLoop | loop | breakLoop
  | continueLoop | discard | ret | var | letValue | constant | overridable | parameter | function
  | struct | structMember | typeAlias | stageAttribute | workgroupAttribute | builtinAttribute
  | locationAttribute | groupAttribute | bindingAttribute | idAttribute | boolType | i32 | u32
  | f32 | vector | matrix | array | sampler | sampledTexture | externalTexture | typeName
  deriving DecidableEq, Repr

namespace Kind

def text : Kind → String
  | ident => "Ident"
  | int => "IntLiteral"
  | float => "FloatLiteral"
  | bool => "BoolLiteral"
  | binary => "Binary"
  | unary => "Unary"
  | call => "Call"
  | index => "Index"
  | member => "Member"
  | block => "Block"
  | varDecl => "VarDecl"
  | assign => "Assign"
  | increment => "Increment"
  | callStatement => "CallStatement"
  | ifElse => "If"
  | forLoop => "For"
  | whileLoop => "While"
  | loop => "Loop"
  | breakLoop => "Break"
  | continueLoop => "Continue"
  | discard => "Discard"
  | ret => "Return"
  | var => "Var"
  | letValue => "Let"
  | constant => "Const"
  | overridable => "Override"
  | parameter => "Parameter"
  | function => "Function"
  | struct => "Struct"
  | structMember => "StructMember"
  | typeAlias => "Alias"
  | stageAttribute => "StageAttribute"
  | workgroupAttribute => "WorkgroupAttribute"
  | builtinAttribute => "BuiltinAttribute"
  | locationAttribute => "LocationAttribute"
  | groupAttribute => "GroupAttribute"
  | bindingAttribute => "BindingAttribute"
  | idAttribute => "IDAttribute"
  | boolType => "Bool"
  | i32 => "I32"
  | u32 => "U32"
  | f32 => "F32"
  | vector => "Vector"
  | matrix => "Matrix"
  | array => "Array"
  | sampler => "Sampler"
  | sampledTexture => "SampledTexture"
  | externalTexture => "ExternalTexture"
  | typeName => "TypeName"

def all : List Kind :=
  [ident, int, float, bool, binary, unary, call, index, member, block, varDecl, assign, increment,
    callStatement, ifElse, forLoop, whileLoop, loop, breakLoop, continueLoop, discard, ret, var,
    letValue, constant, overridable, parameter, function, struct, structMember, typeAlias,
    stageAttribute, workgroupAttribute, builtinAttribute, locationAttribute, groupAttribute,
    bindingAttribute, idAttribute, boolType, i32, u32, f32, vector, matrix, array, sampler,
    sampledTexture, externalTexture, typeName]

def parse? (s : String) : Option Kind := all.find? (·.text == s)

theorem mem_all (k : Kind) : k ∈ all := by
  cases k <;> decide

end Kind
end ShaderLoom.Document
