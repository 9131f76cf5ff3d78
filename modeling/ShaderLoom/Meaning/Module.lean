import ShaderLoom.Meaning.CallGraph
import ShaderLoom.Meaning.Statement

/-! Resolution of a whole module: its names, then its types and variables, then the signatures of
its functions, then their bodies. -/
namespace ShaderLoom.Resolve

/-- Takes the name of a declaration into the module's frame. The first declaration of a name
stays. -/
def collect (a : Arena) (found : Frame × Diagnostics) (id : NodeId) : Frame × Diagnostics :=
  let (frame, ds) := found
  let problem (message : String) : Frame × Diagnostics :=
    (frame, ds ++ [Diagnostic.errorAt .resolver message (a.spanOf id)])
  match (a.shape? id).bind Shape.declName? with
  | none => problem "unexpected module-scope node"
  | some s =>
    if (Frame.find? frame s).isSome then problem s!"redeclaration of '{a.nameOf s}'"
    else (frame ++ [(s, id)], ds)

variable (c : Scene)

/-- A declaration other than a function. -/
def declaration (id : NodeId) : Resolve Unit := do
  match c.arena.shape? id with
  | some (.decl (.struct _ _ _)) | some (.decl (.typeAlias _ _)) =>
    let _ ← typeDecl c c.fuel id
  | some (.decl (.value v)) =>
    unless (← get).facts.latest.contains id do
      let _ ← resolveVariable c c.fuel id v .global
  | _ => pure ()

/-- A size given as an integer literal, in 32 bits; any other counts as one. -/
def workgroupDim (a : Arena) (id : NodeId) : UInt32 :=
  match a.shape? id with
  | some (.expr (.int v _)) => UInt32.ofNat (v % 4294967296).toNat
  | _ => 1

def workgroupOf (a : Arena) (attributes : List NodeId) : UInt32 × UInt32 × UInt32 :=
  match a.findAttr? attributes fun
    | .workgroup x y z => some (x, y, z)
    | _ => none with
  | some (x, y, z) => (workgroupDim a x, workgroupDim a y, workgroupDim a z)
  | none => (1, 1, 1)

def stageOf (a : Arena) (attributes : List NodeId) : PipelineStage :=
  (a.findAttr? attributes fun
    | .stage s => some s
    | _ => none).getD .none

/-- What callers see of a function. -/
def signature (id : NodeId) (f : FunctionShape Symbol NodeId) : Resolve Unit := do
  let facts : FunctionFacts := { decl := id, name := c.arena.nameOf f.name }
  mapFacts fun fs => { fs with functions := fs.functions.insert id facts }
  let ret ← if f.returnType ≠ 0 then type c c.fuel f.returnType else pure (some .void)
  updateFunction id fun g => { g with
    returnType := ret
    stage := stageOf c.arena f.attributes
    workgroup := workgroupOf c.arena f.attributes }

def parameter (fn id : NodeId) : Resolve Unit := do
  match c.arena.asVariable? id with
  | some v =>
    if v.kind = .parameter then
      let made ← resolveVariable c c.fuel id v .parameter
      updateFunction fn fun g => { g with params := g.params ++ made.toList }
    else report c id "expected a parameter"
  | none => report c id "expected a parameter"

def body (id : NodeId) (f : FunctionShape Symbol NodeId) : Resolve Unit := do
  modify fun r => { r with
    function := some id, seenGlobals := [], seenCallees := [], frames := [[]] }
  f.params.forM (parameter c id)
  let b ← statement c c.fuel f.body true
  updateFunction id fun g => { g with behaviors := b }
  modify fun r => { r with function := none, frames := [] }

/-- Everything a module says, in the order in which its parts are resolved. -/
def module (globals : List NodeId) : Resolve Unit := do
  for id in globals do
    if (c.arena.function? id).isNone then declaration c id
  for id in globals do
    if let some f := c.arena.function? id then signature c id f
  for id in globals do
    if let some f := c.arena.function? id then body c id f
  mapFacts (·.summarize globals)

end Resolve

/-- The facts of the module whose declarations are `globals`, and the problems found. The module
holds `held` nodes, which bounds how deep anything in it goes. -/
def resolve (a : Arena) (globals : List NodeId) (held : Nat) : Facts × Diagnostics :=
  let (frame, ds) := globals.foldl (Resolve.collect a) ([], [])
  let scene : Scene := ⟨a, frame, (held + 2) * (held + 2)⟩
  let r := ((Resolve.module scene globals).run { diagnostics := ds }).2
  (r.facts, r.diagnostics)

end ShaderLoom
