import ShaderLoom.Program
import ShaderLoom.Syntax.Traverse

/-! A session copies a source program into a new builder while it changes it. What is to change is
registered first: nodes that become other nodes, list elements that are left out, nodes put around
list elements or at the ends of lists, handlers for whole families of nodes, and renamed symbols. A
handler is a value of a type `κ` that the caller chooses together with a state of type `σ`. -/
namespace ShaderLoom.Copy

/-- What becomes of a node: a node of the target, or whatever a handler makes at each copy. -/
inductive Replacement (κ : Type) where
  | fixed (id : NodeId)
  | handler (h : κ)

/-- Gives a symbol of the source a symbol of the target's table. -/
abbrev SymbolRule := Symbol → SymbolTable → Symbol × SymbolTable

structure Session (κ σ : Type) where
  source : Program
  target : Builder
  state : σ
  replacements : NodeId → Option (Replacement κ) := fun _ => none
  removed : NodeId → Bool := fun _ => false
  before : NodeId → List NodeId := fun _ => []
  after : NodeId → List NodeId := fun _ => []
  front : NodeId → ListKind → List NodeId := fun _ _ => []
  back : NodeId → ListKind → List NodeId := fun _ _ => []
  /-- Handlers of families, in the order in which they were registered. -/
  handlers : List (Tag × κ) := []
  /-- Symbols that have their symbol of the target, the latest first. -/
  symbols : List (Symbol × Symbol) := []
  symbolRule : Option SymbolRule := none
  copied : Bool := false

/-- A table with another value in one place. -/
def update {α β : Type} [DecidableEq α] (table : α → β) (key : α) (value : β) : α → β :=
  fun k => if k = key then value else table k

@[simp] theorem update_self {α β : Type} [DecidableEq α] (table : α → β) (key : α) (value : β) :
    update table key value key = value := by simp [update]

theorem update_of_ne {α β : Type} [DecidableEq α] (table : α → β) {key k : α} (value : β)
    (h : k ≠ key) : update table key value k = table k := by simp [update, h]

/-- The target starts with the names of the source, so that fresh names are fresh in both, and with
all diagnostics but those that resolution will raise again. -/
def Session.start {κ σ : Type} (source : Program) (state : σ) : Session κ σ where
  source
  target := { symbols := source.symbols, diagnostics := source.diagnostics.without .resolver }
  state

abbrev Edit (κ σ : Type) := EStateM Misuse (Session κ σ)

namespace Edit

variable {κ σ : Type}

/-- A step on the target. -/
def build {α : Type} (step : Build α) : Edit κ σ α := fun s =>
  match step s.target with
  | .ok a b => .ok a { s with target := b }
  | .error e b => .error e { s with target := b }

def getState : Edit κ σ σ := do return (← get).state

def setState (state : σ) : Edit κ σ Unit := modify fun s => { s with state }

def source : Edit κ σ Program := do return (← get).source

/-- The node has to be in the tree of the source. -/
def checkSource (id : NodeId) : Edit κ σ Node := do
  let s ← get
  match s.source.node? id with
  | some n => if s.source.inTree id then return n else throw (.nodeNotInSource id)
  | none => throw (.nodeNotInSource id)

def checkTarget (id : NodeId) : Edit κ σ Node := do
  match (← get).target.node? id with
  | some n => return n
  | none => throw (.nodeNotInDestination id)

/-- The node has to be an element of one of its parent's lists. -/
def checkElement (id : NodeId) : Edit κ σ Unit := do
  let n ← checkSource id
  let p := (← get).source
  match p.node? (p.parent id) with
  | some parent =>
    unless parent.holdsInList id do throw (.notAListElement n.shape.kind id)
  | none => throw (.notAListElement n.shape.kind id)

def register (id : NodeId) (r : Replacement κ) : Edit κ σ Unit := do
  if ((← get).replacements id).isSome then throw (.duplicateReplacement id)
  modify fun s => { s with replacements := update s.replacements id (some r) }

/-- Every copy of `id` is the node `target`, or nothing if that is absent. -/
def replace (id target : NodeId) : Edit κ σ Unit := do
  let _ ← checkSource id
  if target ≠ 0 then
    let _ ← checkTarget target
  register id (.fixed target)

/-- Every copy of `id` is what the handler makes. -/
def replaceWith (id : NodeId) (h : κ) : Edit κ σ Unit := do
  let _ ← checkSource id
  register id (.handler h)

/-- Copies of nodes of a family are what the handler makes, or plain copies where it makes nothing.
Two handlers for related families would both apply, and so the second is refused. -/
def replaceAll (tag : Tag) (h : κ) : Edit κ σ Unit := do
  match (← get).handlers.find? fun (t, _) => tag.related t with
  | some (t, _) => throw (.overlappingHandlers tag.name t.name)
  | none => modify fun s => { s with handlers := s.handlers ++ [(tag, h)] }

/-- Leaves a list element out. -/
def remove (id : NodeId) : Edit κ σ Unit := do
  checkElement id
  modify fun s => { s with removed := update s.removed id true }

/-- Puts a node of the target just before a list element, whether or not that is left out. -/
def insertBefore (anchor target : NodeId) : Edit κ σ Unit := do
  checkElement anchor
  let _ ← checkTarget target
  modify fun s => { s with before := update s.before anchor (s.before anchor ++ [target]) }

def insertAfter (anchor target : NodeId) : Edit κ σ Unit := do
  checkElement anchor
  let _ ← checkTarget target
  modify fun s => { s with after := update s.after anchor (s.after anchor ++ [target]) }

/-- The list of `owner` that holds nodes of the family of `target`. -/
def listFor (owner target : NodeId) : Edit κ σ ListKind := do
  let o ← checkSource owner
  let t ← checkTarget target
  match o.shape.listFor? t.shape with
  | some kind => return kind
  | none => throw (.noMatchingList o.shape.kind owner t.shape.kind)

def insertFront (owner target : NodeId) : Edit κ σ Unit := do
  let kind ← listFor owner target
  modify fun s => { s with
    front := update s.front owner (update (s.front owner) kind (s.front owner kind ++ [target])) }

def insertBack (owner target : NodeId) : Edit κ σ Unit := do
  let kind ← listFor owner target
  modify fun s => { s with
    back := update s.back owner (update (s.back owner) kind (s.back owner kind ++ [target])) }

def replaceSymbol (s t : Symbol) : Edit κ σ Unit :=
  modify fun x => { x with symbols := (s, t) :: x.symbols }

/-- Installs the rule for symbols without a replacement of their own. -/
def setSymbolRule (rule : SymbolRule) : Edit κ σ Unit := do
  if (← get).symbolRule.isSome then throw .duplicateSymbolRule
  modify fun s => { s with symbolRule := some rule }

end Edit
end ShaderLoom.Copy
