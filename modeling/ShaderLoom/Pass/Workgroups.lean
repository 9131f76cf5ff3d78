import ShaderLoom.Pass.Pass

/-! Reads the number of workgroups from a uniform buffer instead of a builtin, for targets without
that builtin. A parameter with the builtin goes away. A structure member with it goes away too
unless it is the only one: the structure then loses the builtin alone, its parameters go away, and
uses of a whole parameter construct the structure from the buffer. -/
namespace ShaderLoom.Workgroups

open Copy

def name : String := "NumWorkgroupsFromUniform"

def field : String := "num_workgroups"

/-- A parameter that goes away, with the structure that its uses construct, if it is one. -/
structure DroppedParam where
  decl : NodeId
  rebuilt : Option StructFacts := none

structure Plan where
  params : List DroppedParam := []
  members : List NodeId := []
  /-- Builtin attributes of members that stay. -/
  attributes : List NodeId := []

def builtinAttribute? (p : Program) (member : NodeId) : Option NodeId :=
  match p.shape? member with
  | some (.structMember _ _ attributes) =>
    attributes.find? fun id => match p.attr? id with
      | some (.builtin _) => true
      | _ => false
  | _ => none

/-- What becomes of one parameter of an entry point. -/
def Plan.addParam (p : Program) (plan : Plan) (v : VariableFacts) : Plan :=
  if plan.params.any (·.decl == v.decl) then plan
  else if v.builtin = .numWorkgroups then { plan with params := plan.params ++ [⟨v.decl, none⟩] }
  else
    match v.type with
    | some (.struct d _) =>
      match p.facts.structs[d]? with
      | none => plan
      | some st =>
        match st.members.reverse.find? (·.builtin == .numWorkgroups) with
        | none => plan
        | some m =>
          if st.members.length = 1 then
            { plan with
              params := plan.params ++ [⟨v.decl, some st⟩]
              attributes := plan.attributes ++ (builtinAttribute? p m.decl).toList }
          else { plan with members := plan.members ++ [m.decl] }
    | _ => plan

def planned (p : Program) : Plan :=
  let entries := p.facts.entryPointFacts.filter (·.stage == .compute)
  (p.facts.variablesOf (entries.flatMap (·.params))).foldl (Plan.addParam p) {}

/-- What an expression becomes: a read of the buffer, or a structure made of one. -/
inductive Use where
  | read (buffer : Symbol)
  | construct (struct buffer : Symbol)

def readBuffer (buffer : Symbol) : Build NodeId := do
  let s ← Build.symbol field
  Build.memberSym (.symbol buffer) s

def act : Act Use Unit := fun _ use _ =>
  match use with
  | .read buffer => Edit.build (readBuffer buffer)
  | .construct struct buffer => Edit.build do
    let type ← Build.type (.named struct)
    let value ← readBuffer buffer
    Build.construct type [.node value]

def declareBuffer (point : BindingPoint) : Build Symbol := do
  let struct ← Build.freshSymbol ""
  let type ← Build.type (.vector (← Build.type .u32) 3)
  let member ← Build.structMember field type []
  let _ ← Build.structSym struct [member]
  let buffer ← Build.freshSymbol ""
  let type ← Build.type (.named struct)
  let group ← Build.attr (.group point.group)
  let binding ← Build.attr (.binding point.binding)
  let _ ← Build.globalVarSym buffer type .uniform [group, binding]
  return buffer

def structName (p : Program) (st : StructFacts) : Symbol :=
  ((p.shape? st.decl).bind Shape.declName?).getD 0

/-- The access around a use, if it selects the member of the value used. -/
def accessAround? (p : Program) (user : NodeId) : Option NodeId :=
  let parent := p.parent user
  match p.facts.member? parent, p.shape? parent with
  | some _, some (.expr (.member object _)) => if object = user then some parent else none
  | _, _ => none

def dropParam (p : Program) (buffer : Symbol) (param : DroppedParam) : Edit Use Unit Unit := do
  Edit.remove param.decl
  for user in ((p.facts.variableAt param.decl).map (·.users)).getD [] do
    match param.rebuilt, accessAround? p user with
    | none, _ => Edit.replaceWith user (.read buffer)
    | some _, some access => Edit.replaceWith access (.read buffer)
    | some st, none => Edit.replaceWith user (.construct (structName p st) buffer)

/-- Registers all changes of a plan. -/
def carryOut (p : Program) (buffer : Symbol) (plan : Plan) : Edit Use Unit Unit := do
  for param in plan.params do dropParam p buffer param
  for id in plan.members ++ plan.attributes do Edit.remove id
  for id in p.treeIds do
    if (p.facts.member? id).any (plan.members.contains ·.decl) then
      Edit.replaceWith id (.read buffer)

def work (p : Program) (inputs : Data) : Work Use Unit Data := do
  let point ← Work.need (.missingData name) (inputs.get? .numWorkgroups)
  let plan := planned p
  unless plan.params.isEmpty && plan.members.isEmpty do
    let buffer ← Work.build (declareBuffer point)
    Work.edit (carryOut p buffer plan)
  Work.edit (Edit.copyModule (Edit.copy act))
  return {}

def hasBuiltin (p : Program) (id : NodeId) : Bool :=
  match p.shape? id with
  | some (.decl (.value v)) => v.kind = .parameter && p.builtinOf v.attributes == .numWorkgroups
  | some (.structMember _ _ attributes) => p.builtinOf attributes == .numWorkgroups
  | _ => false

def pass : Pass where
  name
  shouldRun p _ := p.treeIds.any (hasBuiltin p)
  run p inputs := (work p inputs).perform p ()

end ShaderLoom.Workgroups
