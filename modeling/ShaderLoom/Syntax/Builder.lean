import ShaderLoom.Report.Diagnostic
import ShaderLoom.Syntax.Arena

/-! An arena under construction. Every step adds nodes and answers with their numbers; steps that
declare something at module scope also add it to the list of globals. A node without a place of its
own takes the place set by `setSource`. -/
namespace ShaderLoom

structure Builder extends Arena where
  globals : List NodeId := []
  span : Span := {}
  diagnostics : Diagnostics := []
  deriving Inhabited

namespace Builder

/-- Adds a node, at the builder's own place if it has none. -/
def push (b : Builder) (shape : Shape Symbol NodeId) (span : Span) : NodeId × Builder :=
  (b.size + 1, { b with nodes := b.nodes.push ⟨shape, if span.valid then span else b.span⟩ })

def register (b : Builder) (name : String) : Symbol × Builder :=
  let (s, table) := b.symbols.register name
  (s, { b with symbols := table })

def fresh (b : Builder) (hint : String) : Symbol × Builder :=
  let (s, table) := b.symbols.fresh hint
  (s, { b with symbols := table })

end Builder

abbrev Build := EStateM Misuse Builder

/-- What may stand for an expression: a node, a name, a symbol or a literal. -/
inductive Operand where
  | node (id : NodeId)
  | name (text : String)
  | symbol (s : Symbol)
  | int (value : Int)
  | i32 (value : Int)
  | u32 (value : Int)
  | float (value : Binary64)
  | bool (value : Bool)
  | unsupported
  deriving Repr

namespace Build

def push (shape : Shape Symbol NodeId) (span : Span := {}) : Build NodeId :=
  modifyGet (·.push shape span)

def symbol (name : String) : Build Symbol := modifyGet (·.register name)

def freshSymbol (hint : String) : Build Symbol := modifyGet (·.fresh hint)

def addGlobal (id : NodeId) : Build Unit := modify fun b => { b with globals := b.globals ++ [id] }

def addDiagnostic (d : Diagnostic) : Build Unit :=
  modify fun b => { b with diagnostics := b.diagnostics ++ [d] }

/-- Sets the place of nodes that come without one and answers with the previous place. -/
def setSource (span : Span) : Build Span := modifyGet fun b => (b.span, { b with span })

/-- A node that is in an arena cannot be added to one again. -/
def adopt (_ : NodeId) : Build NodeId := throw .nodeAlreadyOwned

def type (t : TypeShape Symbol NodeId) : Build NodeId := push (.type t)

def expr (e : ExprShape Symbol NodeId) : Build NodeId := push (.expr e)

def stmt (s : StmtShape NodeId) : Build NodeId := push (.stmt s)

def attr (a : AttrShape NodeId) : Build NodeId := push (.attr a)

def identSym (s : Symbol) : Build NodeId := expr (.ident s)

def ident (name : String) : Build NodeId := do identSym (← symbol name)

def operand : Operand → Build NodeId
  | .node id => pure id
  | .name text => ident text
  | .symbol s => identSym s
  | .int v => expr (.int v .none)
  | .i32 v => expr (.int v .i)
  | .u32 v => expr (.int v .u)
  | .float v => expr (.float v)
  | .bool v => expr (.bool v)
  | .unsupported => throw .badExpressionValue

def operands (vs : List Operand) : Build (List NodeId) := vs.mapM operand

def binary (op : BinaryOp) (lhs rhs : Operand) : Build NodeId := do
  let l ← operand lhs
  let r ← operand rhs
  expr (.binary op l r)

def unary (op : UnaryOp) (e : Operand) : Build NodeId := do expr (.unary op (← operand e))

def callSym (s : Symbol) (args : List Operand) : Build NodeId := do
  let target ← identSym s
  expr (.call target (← operands args))

def call (name : String) (args : List Operand) : Build NodeId := do callSym (← symbol name) args

def construct (type : NodeId) (args : List Operand) : Build NodeId := do
  expr (.call type (← operands args))

def index (object subscript : Operand) : Build NodeId := do
  let o ← operand object
  let i ← operand subscript
  expr (.index o i)

def memberSym (object : Operand) (s : Symbol) : Build NodeId := do
  expr (.member (← operand object) s)

def member (object : Operand) (name : String) : Build NodeId := do
  let o ← operand object
  expr (.member o (← symbol name))

def block (statements : List NodeId) : Build NodeId := stmt (.block statements)

def declare (v : NodeId) : Build NodeId := stmt (.varDecl v)

def assign (lhs rhs : Operand) : Build NodeId := do
  let l ← operand lhs
  let r ← operand rhs
  stmt (.assign l r)

def increment (lhs : Operand) (decrement : Bool) : Build NodeId := do
  stmt (.increment (← operand lhs) decrement)

def ifElse (condition : Operand) (body otherwise : NodeId) : Build NodeId := do
  stmt (.ifElse (← operand condition) body otherwise)

def whileLoop (condition : Operand) (body : NodeId) : Build NodeId := do
  stmt (.whileLoop (← operand condition) body)

def returnValue (v : Operand) : Build NodeId := do stmt (.ret (← operand v))

def variableSym (kind : VariableKind) (s : Symbol) (type initializer : NodeId)
    (attributes : List NodeId) : Build NodeId :=
  push (.decl (.value ⟨kind, s, type, initializer, attributes⟩))

def variableNamed (kind : VariableKind) (name : String) (type initializer : NodeId)
    (attributes : List NodeId) : Build NodeId := do
  variableSym kind (← symbol name) type initializer attributes

/-- Adds a node that is also a declaration at module scope. -/
def global (make : Build NodeId) : Build NodeId := do
  let id ← make
  addGlobal id
  return id

def globalVarSym (s : Symbol) (type : NodeId) (space : AddressSpace) (attributes : List NodeId) :
    Build NodeId :=
  global (variableSym (.var space .undefined) s type 0 attributes)

def globalVar (name : String) (type : NodeId) (space : AddressSpace) (attributes : List NodeId) :
    Build NodeId := do
  globalVarSym (← symbol name) type space attributes

def globalConst (name : String) (type initializer : NodeId) : Build NodeId :=
  global (variableNamed .constant name type initializer [])

def structMember (name : String) (type : NodeId) (attributes : List NodeId) : Build NodeId := do
  push (.structMember (← symbol name) type attributes)

def structSym (s : Symbol) (members : List NodeId) : Build NodeId :=
  global (push (.decl (.struct s members [])))

def struct (name : String) (members : List NodeId) : Build NodeId := do
  structSym (← symbol name) members

def typeAlias (name : String) (type : NodeId) : Build NodeId :=
  global do push (.decl (.typeAlias (← symbol name) type))

/-- A function whose body is a new block of the statements. -/
def functionSym (s : Symbol) (params : List NodeId) (returnType : NodeId)
    (returnAttributes statements attributes : List NodeId) : Build NodeId :=
  global do
    let body ← block statements
    push (.decl (.function ⟨s, params, returnType, body, attributes, returnAttributes⟩))

def function (name : String) (params : List NodeId) (returnType : NodeId)
    (returnAttributes statements attributes : List NodeId) : Build NodeId := do
  functionSym (← symbol name) params returnType returnAttributes statements attributes

/-- One to three sizes; a missing one is absent, a fourth is ignored. -/
def workgroupSize (x : Operand) (rest : List Operand) : Build NodeId := do
  let x ← operand x
  let y ← (rest[0]?.map operand).getD (pure 0)
  let z ← (rest[1]?.map operand).getD (pure 0)
  attr (.workgroup x y z)

/-- `texture_2d<f32>`. -/
def texture2d : Build NodeId := do type (.sampledTexture .d2 (← type .f32))

end Build
end ShaderLoom
