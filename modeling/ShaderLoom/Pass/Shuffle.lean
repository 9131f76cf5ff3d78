import ShaderLoom.Pass.Pass
import ShaderLoom.Random.Pcg

/-! Reorders the module-scope declarations by a seed, to check that nothing depends on their
order. -/
namespace ShaderLoom.Shuffle

open Copy

def name : String := "Shuffle"

def work (p : Program) (inputs : Data) : Work Empty Unit Data := do
  let seed ← Work.need (.missingData name) (inputs.get? .shuffling)
  let copy := Edit.copy noHandlers
  for id in Pcg.shuffle seed p.globals do
    let t ← Work.edit (copy id)
    Work.build (Build.addGlobal t)
    Work.edit (Edit.remove id)
  Work.edit (Edit.copyModule copy)
  return {}

def pass : Pass where
  name
  shouldRun p data := data.has .shuffling && 1 < p.globals.length
  run p inputs := (work p inputs).perform p ()

end ShaderLoom.Shuffle
