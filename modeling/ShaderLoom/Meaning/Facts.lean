import Std.Data.TreeMap
import ShaderLoom.Meaning.Behavior
import ShaderLoom.Meaning.Ty
import ShaderLoom.Syntax.Arena

/-! What resolution finds out about a program. Facts belong to nodes and refer to other facts by the
node that declares them. Variables alone have numbers of their own: a declaration may stand at
several places of a tree, and it makes a variable at each. -/
namespace ShaderLoom

/-- Where a resource is bound. -/
structure BindingPoint where
  group : UInt32
  binding : UInt32
  deriving DecidableEq, Repr, Inhabited

def BindingPoint.text (p : BindingPoint) : String :=
  "\x7b" ++ toString p.group.toNat ++ "," ++ toString p.binding.toNat ++ "\x7d"

inductive VariableScope where
  | global | local | parameter
  deriving DecidableEq, Repr

/-- The number of a variable among all that were found. -/
abbrev VariableId := Nat

structure VariableFacts where
  decl : NodeId
  name : String
  scope : VariableScope
  type : Option Ty
  space : AddressSpace := .none
  access : Access := .undefined
  builtin : BuiltinValue := .none
  bindingPoint : Option BindingPoint := none
  /-- The identifiers that refer to the variable. -/
  users : List NodeId := []
  deriving Repr

structure FunctionFacts where
  decl : NodeId
  name : String
  stage : PipelineStage := .none
  workgroup : UInt32 × UInt32 × UInt32 := (1, 1, 1)
  params : List VariableId := []
  returnType : Option Ty := some .void
  behaviors : Behaviors := {}
  /-- Module-scope variables that the body refers to, in order of first use. -/
  directGlobals : List VariableId := []
  /-- The same for the body and everything it calls. -/
  transitiveGlobals : List VariableId := []
  /-- Functions called directly, in order of first call. -/
  callees : List NodeId := []
  /-- Entry points that reach this function. -/
  ancestors : List NodeId := []
  deriving Repr

def FunctionFacts.isEntryPoint (f : FunctionFacts) : Bool := f.stage != .none

structure MemberFacts where
  decl : NodeId
  name : String
  type : Option Ty
  index : Nat
  builtin : BuiltinValue := .none
  deriving Repr

structure StructFacts where
  decl : NodeId
  name : String
  members : List MemberFacts := []
  deriving Repr

def StructFacts.member? (s : StructFacts) (name : String) : Option MemberFacts :=
  s.members.find? (·.name == name)

structure ExprFacts where
  type : Option Ty := none
  /-- The statement around the expression, absent at module scope. -/
  stmt : NodeId := 0
  variableId : Option VariableId := none
  target : Option NodeId := none
  builtin : String := ""
  member : Option MemberFacts := none
  swizzle : Option (List Nat) := none
  deriving Repr

/-- A call of a declared or a builtin function, as opposed to a constructor. -/
def ExprFacts.isCall (e : ExprFacts) : Bool := e.target.isSome || e.builtin != ""

structure StmtFacts where
  function : Option NodeId
  behaviors : Behaviors := {}
  reachable : Bool
  deriving Repr

abbrev NodeMap (β : Type) := Std.TreeMap NodeId β

structure Facts where
  types : NodeMap Ty := {}
  exprs : NodeMap ExprFacts := {}
  stmts : NodeMap StmtFacts := {}
  vars : Array VariableFacts := #[]
  /-- The variable that a declaration made last. -/
  latest : NodeMap VariableId := {}
  functions : NodeMap FunctionFacts := {}
  structs : NodeMap StructFacts := {}
  /-- The structure or alias that a type name refers to. -/
  typeDecls : NodeMap NodeId := {}
  entryPoints : List NodeId := []
  deriving Inhabited

namespace Facts

/-- The type of an expression or a type node. -/
def typeOf (f : Facts) (id : NodeId) : Option Ty :=
  match f.exprs[id]? with
  | some e => e.type
  | none => f.types[id]?

/-- The variable that an identifier refers to. -/
def variableOf (f : Facts) (ident : NodeId) : Option VariableFacts :=
  (f.exprs[ident]?.bind (·.variableId)).bind (f.vars[·]?)

/-- The variable that a declaration made last. -/
def variableAt (f : Facts) (decl : NodeId) : Option VariableFacts :=
  f.latest[decl]?.bind (f.vars[·]?)

/-- Those of the numbered variables that there are. -/
def variablesOf (f : Facts) (ids : List VariableId) : List VariableFacts :=
  ids.filterMap (f.vars[·]?)

/-- One more variable, under the next number. -/
def addVariable (f : Facts) (v : VariableFacts) : Facts :=
  { f with vars := f.vars.push v, latest := f.latest.insert v.decl f.vars.size }

@[simp] theorem variableAt_addVariable (f : Facts) (v : VariableFacts) :
    (f.addVariable v).variableAt v.decl = some v := by
  simp [variableAt, addVariable]

def call? (f : Facts) (id : NodeId) : Option ExprFacts := f.exprs[id]?.filter (·.isCall)

def member? (f : Facts) (id : NodeId) : Option MemberFacts := f.exprs[id]?.bind (·.member)

def reachable (f : Facts) (stmt : NodeId) : Bool := (f.stmts[stmt]?.map (·.reachable)).getD false

def entryPointFacts (f : Facts) : List FunctionFacts := f.entryPoints.filterMap (f.functions[·]?)

def hasStage (f : Facts) (stage : PipelineStage) : Bool := f.entryPointFacts.any (·.stage == stage)

end Facts
end ShaderLoom
