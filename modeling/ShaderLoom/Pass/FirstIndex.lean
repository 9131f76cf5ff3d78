import ShaderLoom.Pass.Pass

/-! Adds the number of the first vertex and the first instance to every read of the builtins that
count them, for targets whose counts start at zero. The two numbers come from a uniform buffer. -/
namespace ShaderLoom.FirstIndex

open Copy

def name : String := "FirstIndexOffset"

def vertexField : String := "first_vertex_index"

def instanceField : String := "first_instance_index"

/-- The member of the buffer that holds the offset for a builtin. -/
def offsetField? : BuiltinValue → Option String
  | .vertexIndex => some vertexField
  | .instanceIndex => some instanceField
  | _ => none

/-- The builtins of parameters and structure members in the tree. -/
def builtins (p : Program) : List BuiltinValue :=
  p.treeIds.map fun id =>
    match p.shape? id with
    | some (.decl (.value v)) => if v.kind = .parameter then p.builtinOf v.attributes else .none
    | some (.structMember _ _ attributes) => p.builtinOf attributes
    | _ => .none

/-- The vertex offset comes first in the buffer, and each takes four bytes. -/
def layout (p : Program) : FirstIndexData :=
  let used := builtins p
  let hasVertex := used.contains .vertexIndex
  let hasInstance := used.contains .instanceIndex
  { hasVertex, hasInstance, instanceOffset := if hasVertex && hasInstance then 4 else 0 }

/-- The builtin that an expression reads, as a parameter or as a member. -/
def read (p : Program) (id : NodeId) : BuiltinValue :=
  match p.shape? id with
  | some (.expr (.ident _)) =>
    match p.facts.variableOf id with
    | some v => if v.scope = .parameter then v.builtin else .none
    | none => .none
  | some (.expr (.member _ _)) => ((p.facts.member? id).map (·.builtin)).getD .none
  | _ => .none

/-- The sum of an expression and a member of the buffer. -/
structure AddOffset where
  buffer : Symbol
  field : String

def act : Act AddOffset Unit := fun copy h id => do
  let index ← Edit.copyPlain copy id
  Edit.build do
    let field ← Build.symbol h.field
    let offset ← Build.memberSym (.symbol h.buffer) field
    Build.binary .add (.node index) (.node offset)

/-- Declares the buffer and answers with its name. -/
def declareBuffer (data : FirstIndexData) (point : BindingPoint) : Build Symbol := do
  let fields := (if data.hasVertex then [vertexField] else []) ++
    (if data.hasInstance then [instanceField] else [])
  let members ← fields.mapM fun field => do Build.structMember field (← Build.type .u32) []
  let struct ← Build.freshSymbol ""
  let _ ← Build.structSym struct members
  let buffer ← Build.freshSymbol ""
  let type ← Build.type (.named struct)
  let group ← Build.attr (.group point.group)
  let binding ← Build.attr (.binding point.binding)
  let _ ← Build.globalVarSym buffer type .uniform [group, binding]
  return buffer

def work (p : Program) (inputs : Data) : Work AddOffset Unit Data := do
  let point ← Work.need (.missingData name) (inputs.get? .firstIndexOffset)
  let data := layout p
  if data.hasVertex || data.hasInstance then
    let buffer ← Work.build (declareBuffer data point)
    for id in p.treeIds do
      if let some field := offsetField? (read p id) then
        Work.edit (Edit.replaceWith id ⟨buffer, field⟩)
  Work.edit (Edit.copyModule (Edit.copy act))
  return Exchange.put {} .firstIndexData data

def pass : Pass where
  name
  shouldRun p _ := p.facts.hasStage .vertex
  run p inputs := (work p inputs).perform p ()

end ShaderLoom.FirstIndex
