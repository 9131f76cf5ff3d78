import ShaderLoom.Pass.Pass

/-! Leaves out statements that control cannot reach, such as those after a return. -/
namespace ShaderLoom.Unreachable

open Copy

def name : String := "RemoveUnreachableStatements"

/-- The unreachable statements that are elements of a block. -/
def dropped (p : Program) : List NodeId :=
  p.treeIds.filter fun id =>
    (p.shape? id).any Shape.isStatement && !p.facts.reachable id && (p.block? (p.parent id)).isSome

def work (p : Program) : Work Empty Unit Data := do
  for id in dropped p do Work.edit (Edit.remove id)
  Work.edit (Edit.copyModule (Edit.copy noHandlers))
  return {}

def pass : Pass where
  name
  shouldRun p _ := p.facts.stmts.any fun _ s => !s.reachable
  run p _ := (work p).perform p ()

end ShaderLoom.Unreachable
