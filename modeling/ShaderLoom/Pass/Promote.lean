import ShaderLoom.Pass.Hoist

/-! Moves array and structure constructors into `let` declarations, for targets that cannot
construct such values inside an expression. A constructor that already initializes a declaration
stays. -/
namespace ShaderLoom.Promote

open Copy

def name : String := "PromoteInitializersToLet"

def isComposite : Option Ty → Bool
  | some (.array _ _) => true
  | some (.struct _ _) => true
  | _ => false

/-- A call that constructs an array or a structure in a function body, other than as an
initializer. -/
def promotable (p : Program) (id : NodeId) : Bool :=
  (p.facts.call? id).isNone && isComposite (p.facts.typeOf id) && p.functionOf id != 0 &&
    (p.asVariable? (p.parent id)).all fun v => v.initializer != id

def isCallNode (p : Program) (id : NodeId) : Bool :=
  match p.shape? id with
  | some (.expr (.call _ _)) => true
  | _ => false

/-- The promotable calls in the order of their numbers: inner constructors come before outer
ones. -/
def promotables (p : Program) : List NodeId :=
  p.treeIds.filter fun id => isCallNode p id && promotable p id

instance : Hoisting Hoist.Rule Hoist where
  rule := id
  hoist := id
  setHoist h _ := h

def act : Act Hoist.Rule Hoist := fun copy rule _ => Hoist.act copy rule

def work (p : Program) : Work Hoist.Rule Hoist Data := do
  for id in promotables p do Hoist.add act id id true ""
  Work.edit Hoist.apply
  Work.edit (Edit.copyModule (Edit.copy act))
  return {}

def pass : Pass where
  name
  shouldRun p _ := !(promotables p).isEmpty
  run p _ := (work p).perform p {}

end ShaderLoom.Promote
