import ShaderLoom.Meaning.Module
import ShaderLoom.Syntax.Builder

/-! Programs: an arena that no longer changes, its module, what resolution found out about it, and
the parent of every node that the module holds. -/
namespace ShaderLoom

namespace Arena

/-- Gives a child that has no parent yet the parent `id`. The root has no parent, and a child
outside the arena gets none. -/
def adoptOne (root id : NodeId) (found : List NodeId × Array NodeId) (child : NodeId) :
    List NodeId × Array NodeId :=
  if child < found.2.size ∧ found.2[child]? = some 0 ∧ child ≠ root then
    (child :: found.1, found.2.set! child id)
  else found

/-- Gives the parent `id` to children and answers with those that got it, the last one first. -/
def adopt (root id : NodeId) (children : List NodeId) (parents : Array NodeId) :
    List NodeId × Array NodeId :=
  children.foldl (adoptOne root id) ([], parents)

/-- Walks down from the nodes of `stack`, the first one next. -/
def spread (a : Arena) (root : NodeId) : Nat → List NodeId → Array NodeId → Array NodeId
  | 0, _, parents => parents
  | _ + 1, [], parents => parents
  | n + 1, id :: stack, parents =>
    let (taken, parents) := adopt root id (a.children id) parents
    a.spread root n (taken ++ stack) parents

/-- The parents of all nodes reachable from the root, by number. Each node is entered at most once,
so the size of the arena bounds the walk. -/
def parentsOf (a : Arena) (root : NodeId) : Array NodeId :=
  a.spread root (a.size + 2) [root] (Array.replicate (a.size + 1) 0)

end Arena

structure Program extends Arena where
  root : NodeId
  facts : Facts := {}
  diagnostics : Diagnostics := []
  parents : Array NodeId := #[]
  deriving Inhabited

namespace Program

/-- The module-scope declarations. -/
def globals (p : Program) : List NodeId :=
  match p.shape? p.root with
  | some (.module gs) => gs
  | _ => []

def valid (p : Program) : Bool := !p.diagnostics.hasErrors

/-- Was resolution broken off, because it would never end? -/
def endless (p : Program) : Bool := p.diagnostics.any fun d => d.message == Resolve.endless

def parent (p : Program) (id : NodeId) : NodeId := p.parents[id]?.getD 0

/-- Does the module hold the node, or is it the module? -/
def inTree (p : Program) (id : NodeId) : Bool := id == p.root || p.parent id != 0

/-- The first of a node, its parent, the parent's parent and so on that passes a test. -/
def ascend (p : Program) (test : Shape Symbol NodeId → Bool) : Nat → NodeId → NodeId
  | 0, _ => 0
  | n + 1, id =>
    if id = 0 then 0
    else if (p.shape? id).any test then id
    else p.ascend test n (p.parent id)

/-- The innermost statement around a node, absent if there is none. -/
def statementOf (p : Program) (id : NodeId) : NodeId :=
  p.ascend Shape.isStatement (p.size + 2) (p.parent id)

/-- The function that is or holds a node, absent at module scope. -/
def functionOf (p : Program) (id : NodeId) : NodeId :=
  p.ascend (fun s => s.function?.isSome) (p.size + 2) id

/-- The nodes of the tree, in the order in which they were made. -/
def treeIds (p : Program) : List NodeId := p.ids.filter p.inTree

def withDiagnostics (p : Program) (extra : Diagnostics) : Program :=
  { p with diagnostics := p.diagnostics ++ extra }

@[simp] theorem diagnostics_withDiagnostics (p : Program) (extra : Diagnostics) :
    (p.withDiagnostics extra).diagnostics = p.diagnostics ++ extra := rfl

@[simp] theorem withDiagnostics_nil (p : Program) : p.withDiagnostics [] = p := by
  simp [withDiagnostics]

end Program

/-- The program a builder holds. With errors in the builder nothing is resolved. -/
def Builder.build (b : Builder) : Program :=
  let nodes := b.nodes.push ⟨.module b.globals, b.span⟩
  let arena : Arena := ⟨nodes, b.symbols⟩
  let tree : Program := { arena with root := nodes.size, parents := arena.parentsOf nodes.size }
  let (facts, found) := if b.diagnostics.hasErrors then ({}, [])
    else resolve arena b.globals tree.treeIds.length
  { tree with facts, diagnostics := b.diagnostics ++ found }

end ShaderLoom
