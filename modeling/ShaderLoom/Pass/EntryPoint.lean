import ShaderLoom.Meaning.CallGraph
import ShaderLoom.Pass.Pass

/-! Keeps one entry point and the declarations that it uses, directly or through others. Overridable
constants always stay, since the pipeline may set them whether or not the shader reads them. -/
namespace ShaderLoom

namespace Program

/-- The global that a name declares, the last one if several do. -/
def globalNamed (p : Program) (s : Symbol) : NodeId :=
  (p.globals.reverse.find? fun id => (p.shape? id).bind Shape.declName? == some s).getD 0

/-- The declarations that one node refers to by itself. -/
def references (p : Program) (id : NodeId) : List NodeId :=
  let named := match p.shape? id with
    | some (.expr (.ident _)) =>
      match p.facts.variableOf id with
      | some v => if v.scope = .global then [v.decl] else []
      | none => []
    | some (.expr (.call target _)) =>
      match p.facts.call? id with
      | some e => e.target.toList
      | none =>
        match p.shape? target with
        | some (.expr (.ident s)) => [p.globalNamed s]
        | _ => []
    | some (.type (.named _)) => (p.facts.typeDecls[id]?).toList
    | _ => []
  let typed := match p.facts.typeOf id with
    | some (.struct d _) => [d]
    | _ => []
  (named ++ typed).filter (· != 0)

/-- The declarations that a node and everything below it refer to. -/
def referencesBelow (p : Program) : Nat → NodeId → List NodeId
  | 0, _ => []
  | n + 1, id => p.references id ++ (p.children id).flatMap (p.referencesBelow n)

/-- `root` and every declaration reachable from it through names, calls and types. Every declaration
is left at most once, so the references of all of them bound the walk. -/
def usedDeclarations (p : Program) (root : NodeId) : List NodeId :=
  let uses := p.referencesBelow (p.size + 1)
  let bound := (p.ids.filter fun id => (p.shape? id).any Shape.isDeclaration).foldl
    (fun n id => n + (uses id).length) 0
  reachFrom uses (bound + (uses root).length + 2) [root] []

end Program

namespace EntryPoint

open Copy

def name : String := "SingleEntryPoint"

def isOverride (p : Program) (id : NodeId) : Bool :=
  match p.shape? id with
  | some (.decl (.value v)) => v.kind == .overridable
  | _ => false

def work (p : Program) (inputs : Data) : Work Empty Unit Data := do
  let wanted ← Work.need (.missingData name) (inputs.get? .entryPoint)
  let entry ← Work.need (.entryPointNotFound wanted)
    (p.facts.entryPointFacts.find? (·.name == wanted))
  let keep := p.usedDeclarations entry.decl
  for id in p.globals do
    unless keep.contains id || isOverride p id do Work.edit (Edit.remove id)
  Work.edit (Edit.copyModule (Edit.copy noHandlers))
  return {}

def pass : Pass where
  name
  shouldRun p data := data.has .entryPoint || !p.facts.entryPoints.isEmpty
  run p inputs := (work p inputs).perform p ()

end EntryPoint
end ShaderLoom
