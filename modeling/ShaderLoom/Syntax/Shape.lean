import ShaderLoom.Decimal.Binary64
import ShaderLoom.Syntax.Tag
import ShaderLoom.Syntax.Vocabulary

/-! The shapes of syntax nodes, over a type `ν` of names and a type `α` of children. In an arena
names are symbols and children are node numbers; the same shapes carry whole subtrees where that is
wanted. An optional child that is missing is the child's own absent value. -/
namespace ShaderLoom

inductive TypeShape (ν α : Type) where
  | bool
  | i32
  | u32
  | f32
  | vector (elem : α) (width : Int)
  | matrix (elem : α) (columns rows : Int)
  /-- No elements are counted in an array whose size is known only at run time. -/
  | array (elem : α) (count : Int)
  | sampler (comparison : Bool)
  | sampledTexture (dim : TextureDim) (elem : α)
  | externalTexture
  | named (name : ν)
  deriving DecidableEq, Repr

inductive ExprShape (ν α : Type) where
  | ident (name : ν)
  | int (value : Int) (suffix : IntSuffix)
  | float (value : Binary64)
  | bool (value : Bool)
  | binary (op : BinaryOp) (lhs rhs : α)
  | unary (op : UnaryOp) (operand : α)
  /-- The target is a name to call or a type to construct. -/
  | call (target : α) (args : List α)
  | index (object subscript : α)
  | member (object : α) (name : ν)
  deriving DecidableEq, Repr

inductive StmtShape (α : Type) where
  | block (statements : List α)
  | varDecl (declared : α)
  | assign (lhs rhs : α)
  | increment (lhs : α) (decrement : Bool)
  | callStatement (call : α)
  | ifElse (condition body otherwise : α)
  | forLoop (initializer condition continuing body : α)
  | whileLoop (condition body : α)
  | loop (body continuing : α)
  | breakLoop
  | continueLoop
  | discard
  | ret (value : α)
  deriving DecidableEq, Repr

inductive VariableKind where
  | var (space : AddressSpace) (access : Access)
  | letValue
  | constant
  | overridable
  | parameter
  deriving DecidableEq, Repr

/-- The address space that a declaration names. -/
def VariableKind.space : VariableKind → AddressSpace
  | .var space _ => space
  | _ => .none

structure VariableShape (ν α : Type) where
  kind : VariableKind
  name : ν
  type : α
  initializer : α
  attributes : List α
  deriving DecidableEq, Repr

structure FunctionShape (ν α : Type) where
  name : ν
  params : List α
  returnType : α
  body : α
  attributes : List α
  returnAttributes : List α
  deriving DecidableEq, Repr

inductive DeclShape (ν α : Type) where
  | value (v : VariableShape ν α)
  | function (f : FunctionShape ν α)
  | struct (name : ν) (members attributes : List α)
  | typeAlias (name : ν) (type : α)
  deriving DecidableEq, Repr

inductive AttrShape (α : Type) where
  | stage (stage : PipelineStage)
  | workgroup (x y z : α)
  | builtin (value : BuiltinValue)
  | location (value : UInt32)
  | group (value : UInt32)
  | binding (value : UInt32)
  | id (value : UInt32)
  deriving DecidableEq, Repr

inductive Shape (ν α : Type) where
  | type (t : TypeShape ν α)
  | expr (e : ExprShape ν α)
  | stmt (s : StmtShape α)
  | decl (d : DeclShape ν α)
  | structMember (name : ν) (type : α) (attributes : List α)
  | attr (a : AttrShape α)
  | module (globals : List α)
  deriving DecidableEq, Repr

namespace Tag

def node : Tag := derived "Node" "Node" root
def expression : Tag := derived "Expression" "Expression" node
def literal : Tag := derived "Literal" "Literal" expression
def statement : Tag := derived "Statement" "Statement" node
def typeNode : Tag := derived "Type" "Type" node
def texture : Tag := derived "Texture" "Texture" typeNode
def attributeNode : Tag := derived "Attribute" "Attribute" node
def declaration : Tag := derived "Declaration" "Declaration" node
def typeDecl : Tag := derived "TypeDecl" "TypeDecl" declaration
def variableDecl : Tag := derived "Variable" "Variable" declaration

/-- The tag of a node kind, keyed by its own name. -/
def kind (name : String) (base : Tag) : Tag := derived name name base

end Tag

def TypeShape.tag {ν α : Type} : TypeShape ν α → Tag
  | bool => .kind "Bool" .typeNode
  | i32 => .kind "I32" .typeNode
  | u32 => .kind "U32" .typeNode
  | f32 => .kind "F32" .typeNode
  | vector _ _ => .kind "Vector" .typeNode
  | matrix _ _ _ => .kind "Matrix" .typeNode
  | array _ _ => .kind "Array" .typeNode
  | sampler _ => .kind "Sampler" .typeNode
  | sampledTexture _ _ => .kind "SampledTexture" .texture
  | externalTexture => .kind "ExternalTexture" .texture
  | named _ => .kind "TypeName" .typeNode

def ExprShape.tag {ν α : Type} : ExprShape ν α → Tag
  | ident _ => .kind "Ident" .expression
  | int _ _ => .kind "IntLiteral" .literal
  | float _ => .kind "FloatLiteral" .literal
  | bool _ => .kind "BoolLiteral" .literal
  | binary _ _ _ => .kind "Binary" .expression
  | unary _ _ => .kind "Unary" .expression
  | call _ _ => .kind "Call" .expression
  | index _ _ => .kind "Index" .expression
  | member _ _ => .kind "Member" .expression

def StmtShape.tag {α : Type} : StmtShape α → Tag
  | block _ => .kind "Block" .statement
  | varDecl _ => .kind "VarDecl" .statement
  | assign _ _ => .kind "Assign" .statement
  | increment _ _ => .kind "Increment" .statement
  | callStatement _ => .kind "CallStatement" .statement
  | ifElse _ _ _ => .kind "If" .statement
  | forLoop _ _ _ _ => .kind "For" .statement
  | whileLoop _ _ => .kind "While" .statement
  | loop _ _ => .kind "Loop" .statement
  | breakLoop => .kind "Break" .statement
  | continueLoop => .kind "Continue" .statement
  | discard => .kind "Discard" .statement
  | ret _ => .kind "Return" .statement

def VariableKind.tag : VariableKind → Tag
  | var _ _ => .kind "Var" .variableDecl
  | letValue => .kind "Let" .variableDecl
  | constant => .kind "Const" .variableDecl
  | overridable => .kind "Override" .variableDecl
  | parameter => .kind "Parameter" .variableDecl

def DeclShape.tag {ν α : Type} : DeclShape ν α → Tag
  | value v => v.kind.tag
  | function _ => .kind "Function" .declaration
  | struct _ _ _ => .kind "Struct" .typeDecl
  | typeAlias _ _ => .kind "Alias" .typeDecl

def AttrShape.tag {α : Type} : AttrShape α → Tag
  | stage _ => .kind "StageAttribute" .attributeNode
  | workgroup _ _ _ => .kind "WorkgroupAttribute" .attributeNode
  | builtin _ => .kind "BuiltinAttribute" .attributeNode
  | location _ => .kind "LocationAttribute" .attributeNode
  | group _ => .kind "GroupAttribute" .attributeNode
  | binding _ => .kind "BindingAttribute" .attributeNode
  | id _ => .kind "IDAttribute" .attributeNode

namespace Shape

variable {ν α : Type}

def tag : Shape ν α → Tag
  | type t => t.tag
  | expr e => e.tag
  | stmt s => s.tag
  | decl d => d.tag
  | structMember _ _ _ => .kind "StructMember" .node
  | attr a => a.tag
  | module _ => .kind "Module" .node

/-- The name of the node kind. -/
def kind (s : Shape ν α) : String := s.tag.name

/-- The name a declaration introduces. -/
def declName? : Shape ν α → Option ν
  | decl (.value v) => some v.name
  | decl (.function f) => some f.name
  | decl (.struct name _ _) => some name
  | decl (.typeAlias name _) => some name
  | _ => none

def asVariable? : Shape ν α → Option (VariableShape ν α)
  | decl (.value v) => some v
  | _ => none

def function? : Shape ν α → Option (FunctionShape ν α)
  | decl (.function f) => some f
  | _ => none

def block? : Shape ν α → Option (List α)
  | stmt (.block ss) => some ss
  | _ => none

def isExpression : Shape ν α → Bool
  | expr _ => true
  | _ => false

def isStatement : Shape ν α → Bool
  | stmt _ => true
  | _ => false

def isAttribute : Shape ν α → Bool
  | attr _ => true
  | _ => false

def isDeclaration : Shape ν α → Bool
  | decl _ => true
  | _ => false

def isTypeDecl : Shape ν α → Bool
  | decl (.struct _ _ _) => true
  | decl (.typeAlias _ _) => true
  | _ => false

/-- All children in source order, absent ones included. -/
def slots : Shape ν α → List α
  | type (.vector e _) => [e]
  | type (.matrix e _ _) => [e]
  | type (.array e _) => [e]
  | type (.sampledTexture _ e) => [e]
  | type _ => []
  | expr (.binary _ l r) => [l, r]
  | expr (.unary _ e) => [e]
  | expr (.call t args) => t :: args
  | expr (.index o i) => [o, i]
  | expr (.member o _) => [o]
  | expr _ => []
  | stmt (.block ss) => ss
  | stmt (.varDecl v) => [v]
  | stmt (.assign l r) => [l, r]
  | stmt (.increment l _) => [l]
  | stmt (.callStatement c) => [c]
  | stmt (.ifElse c b e) => [c, b, e]
  | stmt (.forLoop i c n b) => [i, c, n, b]
  | stmt (.whileLoop c b) => [c, b]
  | stmt (.loop b n) => [b, n]
  | stmt (.ret v) => [v]
  | stmt _ => []
  | decl (.value v) => v.attributes ++ [v.type, v.initializer]
  | decl (.function f) =>
    f.attributes ++ f.params ++ f.returnAttributes ++ [f.returnType, f.body]
  | decl (.struct _ members attributes) => attributes ++ members
  | decl (.typeAlias _ t) => [t]
  | structMember _ t attributes => attributes ++ [t]
  | attr (.workgroup x y z) => [x, y, z]
  | attr _ => []
  | module globals => globals

/-- The child lists: where an element may be left out, or a sibling put in, without another
shape. -/
def lists : Shape ν α → List (List α)
  | module globals => [globals]
  | stmt (.block ss) => [ss]
  | decl (.struct _ members attributes) => [members, attributes]
  | structMember _ _ attributes => [attributes]
  | decl (.function f) => [f.params, f.attributes, f.returnAttributes]
  | expr (.call _ args) => [args]
  | decl (.value v) => [v.attributes]
  | _ => []

end Shape
end ShaderLoom
