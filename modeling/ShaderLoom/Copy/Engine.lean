import ShaderLoom.Copy.Session

/-! The copying itself. A node with a replacement becomes it, a node of a handled family becomes
what the handler makes, and any other node is made anew from the copies of its parts. Handlers are
given the copying function, and the depth to which they may nest is bounded. -/
namespace ShaderLoom.Copy

variable {κ σ : Type}

/-- What handlers do: with a way to copy nodes, the handler, and the node it is called for. -/
abbrev Act (κ σ : Type) := (NodeId → Edit κ σ NodeId) → κ → NodeId → Edit κ σ NodeId

namespace Edit

/-- The symbol of the target for a symbol of the source. A rule is asked once per symbol. -/
def copySymbol (s : Symbol) : Edit κ σ Symbol := do
  if s = 0 then return s
  let session ← get
  match session.symbols.lookup s, session.symbolRule with
  | some t, _ => return t
  | none, some rule =>
    let (t, table) := rule s session.target.symbols
    set { session with
      target := { session.target with symbols := table }
      symbols := (s, t) :: session.symbols }
    return t
  | none, none => return s

/-- The elements of a list with their insertions, handed to `yield` one by one. -/
def foldElements {β : Type} (copy : NodeId → Edit κ σ NodeId) (yield : β → NodeId → Edit κ σ β) :
    List NodeId → β → Edit κ σ β
  | [], b => pure b
  | id :: rest, b => do
    let b ← ((← get).before id).foldlM yield b
    let b ← if (← get).removed id then pure b else do
      let t ← copy id
      if t = 0 then pure b else yield b t
    let b ← ((← get).after id).foldlM yield b
    foldElements copy yield rest b

/-- A whole list: what was put at its front, its elements, what was put at its back. -/
def foldList {β : Type} (copy : NodeId → Edit κ σ NodeId) (yield : β → NodeId → Edit κ σ β)
    (owner : NodeId) (kind : ListKind) (ids : List NodeId) (b : β) : Edit κ σ β := do
  let b ← ((← get).front owner kind).foldlM yield b
  let b ← foldElements copy yield ids b
  ((← get).back owner kind).foldlM yield b

def copyListOf (copy : NodeId → Edit κ σ NodeId) (owner : NodeId) (kind : ListKind)
    (ids : List NodeId) : Edit κ σ (List NodeId) :=
  foldList copy (fun out id => pure (out ++ [id])) owner kind ids []

/-- A node made anew from the copies of its parts. The module itself is copied as a whole only. -/
def copyParts (copy : NodeId → Edit κ σ NodeId) (id : NodeId) (n : Node) : Edit κ σ NodeId := do
  match n.shape with
  | .module _ => throw .moduleCopy
  | shape =>
    let shape ← shape.traverse copySymbol copy (copyListOf copy id)
    build (Build.push shape n.span)

/-- One level of copying. -/
def copyStep (act : Act κ σ) (copy : NodeId → Edit κ σ NodeId) (id : NodeId) : Edit κ σ NodeId := do
  if id = 0 then return 0
  let n ← checkSource id
  let s ← get
  match s.replacements id with
  | some (.fixed target) => return target
  | some (.handler h) => act copy h id
  | none =>
    match s.handlers.find? fun (t, _) => n.shape.tag.is t with
    | some (_, h) =>
      let t ← act copy h id
      if t = 0 then copyParts copy id n else return t
    | none => copyParts copy id n

/-- Copying to a bounded depth. -/
def copyTo (act : Act κ σ) : Nat → NodeId → Edit κ σ NodeId
  | 0, _ => throw .endlessCopy
  | n + 1, id => copyStep act (copyTo act n) id

/-- The copy of a node. No tree of the source is deeper than its arena is large; the bound is twice
that, so that handlers may copy nodes elsewhere in the tree. -/
def copy (act : Act κ σ) (id : NodeId) : Edit κ σ NodeId := do
  copyTo act (2 * (← get).source.size + 2) id

/-- The copy of a node whose own replacement is passed over; its parts are copied as usual. -/
def copyPlain (copy : NodeId → Edit κ σ NodeId) (id : NodeId) : Edit κ σ NodeId := do
  if id = 0 then return 0
  let n ← checkSource id
  copyParts copy id n

/-- The copy of a child list of `owner`, known by its elements. -/
def copyList (copy : NodeId → Edit κ σ NodeId) (owner : NodeId) (ids : List NodeId) :
    Edit κ σ (List NodeId) := do
  match ((← get).source.shape? owner).bind (Shape.listKind? ids) with
  | some kind => copyListOf copy owner kind ids
  | none => throw (.notAChildList owner)

/-- Adds a declaration to the target's globals unless it is known already. -/
def addOnce (seen : List NodeId) (id : NodeId) : Edit κ σ (List NodeId) := do
  if seen.contains id then return seen
  build (Build.addGlobal id)
  return id :: seen

/-- Copies the whole module, once. What the target declares already comes first, and what is
declared while a global is copied comes before that global. -/
def copyModule (copy : NodeId → Edit κ σ NodeId) : Edit κ σ Unit := do
  let s ← get
  if s.copied then throw .alreadyCopied
  modify fun s => { s with copied := true }
  let _ ← foldList copy addOnce s.source.root .globals s.source.globals s.target.globals

end Edit

/-- Handlers of a session that has none. -/
def noHandlers : Act Empty Unit := fun _ h _ => nomatch h

/-- The copy of a program in which nothing is to change. -/
def plainCopy (p : Program) : Except Misuse Program :=
  match Edit.copyModule (Edit.copy noHandlers) (Session.start p ()) with
  | .ok () s => .ok s.target.build
  | .error e _ => .error e

end ShaderLoom.Copy
