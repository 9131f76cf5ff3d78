import ShaderLoom.Pass.Pass

/-! Moves resources to other binding points and changes the access mode of storage buffers. Both
tables are read by the binding point that a variable has in the source. -/
namespace ShaderLoom.Rebind

open Copy

def name : String := "BindingRemapper"

/-- Where a resource goes. -/
def Remapping.image (r : Remapping) (point : BindingPoint) : BindingPoint :=
  (r.points.find? point).getD point

/-- The first two resources of a list that share a point, and the point. -/
def clash (image : BindingPoint → BindingPoint) :
    List (String × BindingPoint) → List (String × BindingPoint) →
      Option (String × String × BindingPoint)
  | _, [] => none
  | seen, (name, point) :: rest =>
    let place := image point
    match seen.find? (·.2 == place) with
    | some (first, _) => some (first, name, place)
    | none => clash image (seen ++ [(name, place)]) rest

/-- The resources of an entry point, its own and those of all it calls. -/
def resources (f : Facts) (entry : FunctionFacts) : List (String × BindingPoint) :=
  (f.variablesOf entry.transitiveGlobals).filterMap fun v => v.bindingPoint.map (v.name, ·)

/-- The first collision, entry point by entry point. -/
def collision (f : Facts) (image : BindingPoint → BindingPoint) : Option PassProblem :=
  f.entryPointFacts.findSome? fun entry =>
    (clash image [] (resources f entry)).map fun (first, second, point) =>
      .collision entry.name first second point

/-- Another access mode for a variable. -/
structure NewAccess where
  access : Access

def act : Act NewAccess Unit := fun copy h id => do
  match (← get).source.asVariable? id with
  | some v =>
    let s ← Edit.copySymbol v.name
    let t ← copy v.type
    let i ← copy v.initializer
    let attrs ← Edit.copyList copy id v.attributes
    Edit.build (Build.variableSym (.var v.kind.space h.access) s t i attrs)
  | none => return 0

def moveAttribute (p : Program) (place : BindingPoint) (id : NodeId) :
    Edit NewAccess Unit Unit := do
  match p.attr? id with
  | some (.group _) => Edit.replace id (← Edit.build (Build.attr (.group place.group)))
  | some (.binding _) => Edit.replace id (← Edit.build (Build.attr (.binding place.binding)))
  | _ => pure ()

/-- Moves a resource to its new point, if it has one. -/
def move (p : Program) (r : Remapping) (v : VariableShape Symbol NodeId) (point : BindingPoint) :
    Work NewAccess Unit Unit := do
  match r.points.find? point with
  | some place => for id in v.attributes do Work.edit (moveAttribute p place id)
  | none => return

/-- Gives a resource its new access mode, if it has one. -/
def setAccess (r : Remapping) (facts : VariableFacts) (point : BindingPoint) :
    Work NewAccess Unit Unit := do
  match r.access.find? point with
  | some access =>
    if facts.space ≠ .storage then Work.fail (.accessNotStorage facts.name facts.space)
    else Work.edit (Edit.replaceWith facts.decl ⟨access⟩)
  | none => return

/-- What happens to one resource. -/
def rebind (p : Program) (r : Remapping) (v : VariableShape Symbol NodeId) (facts : VariableFacts)
    (point : BindingPoint) : Work NewAccess Unit Unit := do
  move p r v point
  setAccess r facts point

def isVar (v : VariableShape Symbol NodeId) : Bool :=
  match v.kind with
  | .var _ _ => true
  | _ => false

/-- What happens to one declaration. Only resources are bound. -/
def rebindGlobal (p : Program) (r : Remapping) (id : NodeId) : Work NewAccess Unit Unit := do
  match p.asVariable? id, p.facts.variableAt id with
  | some v, some facts =>
    match isVar v, facts.bindingPoint with
    | true, some point => rebind p r v facts point
    | _, _ => return
  | _, _ => return

/-- Two resources of one entry point must not share a point. -/
def checkCollisions (p : Program) (r : Remapping) : Work NewAccess Unit Unit := do
  match r.allowCollisions, collision p.facts (Remapping.image r) with
  | false, some problem => Work.fail problem
  | _, _ => return

def work (p : Program) (inputs : Data) : Work NewAccess Unit Data := do
  let r ← Work.need (.missingData name) (inputs.get? .remapping)
  checkCollisions p r
  for id in p.globals do rebindGlobal p r id
  Work.edit (Edit.copyModule (Edit.copy act))
  return {}

def pass : Pass where
  name
  shouldRun _ data := (data.get? .remapping).any fun r => !r.points.isEmpty || !r.access.isEmpty
  run p inputs := (work p inputs).perform p ()

end ShaderLoom.Rebind
