import ShaderLoom.Meaning.Facts

/-! What follows from the call graph once all bodies are resolved: the globals a function reaches
through its calls, and the entry points that reach a function. -/
namespace ShaderLoom

/-- The nodes reachable from `work`, each once, in the order in which a walk that goes deep first
meets them. -/
def reachFrom (next : NodeId → List NodeId) : Nat → List NodeId → List NodeId → List NodeId
  | 0, _, seen => seen
  | _ + 1, [], seen => seen
  | n + 1, id :: work, seen =>
    if seen.contains id then reachFrom next n work seen
    else reachFrom next n (next id ++ work) (seen ++ [id])

namespace Facts

def calleesOf (f : Facts) (id : NodeId) : List NodeId := (f.functions[id]?.map (·.callees)).getD []

def directGlobalsOf (f : Facts) (id : NodeId) : List VariableId :=
  (f.functions[id]?.map (·.directGlobals)).getD []

/-- A function and all it reaches by calls. Every function is left at most once, so the calls of all
functions of the module bound the walk. -/
def reachedFunctions (f : Facts) (globals : List NodeId) (id : NodeId) : List NodeId :=
  let calls := globals.foldl (fun n g => n + (f.calleesOf g).length) 0
  reachFrom f.calleesOf (calls + 2) [id] []

/-- The module-scope variables that some function of the list refers to, each once. -/
def globalsOf (f : Facts) (functions : List NodeId) : List VariableId :=
  (functions.flatMap f.directGlobalsOf).foldl
    (fun seen g => if seen.contains g then seen else seen ++ [g]) []

/-- Adds the summary of one function and, if it is an entry point, tells the functions it
reaches. -/
def summarizeOne (globals : List NodeId) (f : Facts) (id : NodeId) : Facts :=
  match f.functions[id]? with
  | none => f
  | some g =>
    let reached := f.reachedFunctions globals id
    let f := { f with functions := f.functions.modify id fun g =>
      { g with transitiveGlobals := g.transitiveGlobals ++ f.globalsOf reached } }
    if g.isEntryPoint then
      { f with
        entryPoints := f.entryPoints ++ [id]
        functions := (reached.filter (· != id)).foldl (fun fs r =>
          fs.modify r fun g => { g with ancestors := g.ancestors ++ [id] }) f.functions }
    else f

def summarize (f : Facts) (globals : List NodeId) : Facts := globals.foldl (summarizeOne globals) f

end Facts
end ShaderLoom
