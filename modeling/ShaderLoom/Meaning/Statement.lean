import ShaderLoom.Meaning.Resolver

/-! Statements: what they refer to, how control leaves them, and which of them it can reach. -/
namespace ShaderLoom.Resolve

variable (c : Scene)

def setStmt (id : NodeId) (reachable : Bool) : Resolve Unit :=
  modify fun r => { r with facts := { r.facts with
    stmts := r.facts.stmts.insert id { function := r.function, reachable } } }

def setBehaviors (id : NodeId) (b : Behaviors) : Resolve Unit :=
  mapFacts fun f => { f with stmts := f.stmts.modify id fun s => { s with behaviors := b } }

/-- Resolves a list of statements one after another. A statement is reachable while what ran before
it may still complete. -/
def inOrder (one : NodeId → Bool → Resolve Behaviors) (reachable : Bool) :
    List NodeId → Behaviors → Resolve Behaviors
  | [], sofar => pure sofar
  | id :: rest, sofar => do
    let live := reachable && sofar.next
    let b ← one id live
    inOrder one reachable rest (if live then sofar.andThen b else sofar)

/-- The variable that a statement declares. -/
def localVariable (id : NodeId) : Resolve Unit := do
  match c.arena.asVariable? id with
  | some v =>
    let _ ← resolveVariable c c.fuel id v .local
  | none => return

/-- The body of a loop whose continuing part sees what the body declares: it opens no level of its
own. -/
def openBody (one : NodeId → Bool → Resolve Behaviors) (body : NodeId) (reachable : Bool) :
    Resolve Behaviors := do
  match c.arena.block? body with
  | some ss =>
    setStmt body reachable
    let b ← inOrder one reachable ss (.only .next)
    setBehaviors body b
    return b
  | none => return {}

/-- The behaviors of what is in a statement of a shape, given those of the statements in it. -/
def inside (one : NodeId → Bool → Resolve Behaviors) (id : NodeId) (reachable : Bool) :
    Option (Shape Symbol NodeId) → Resolve Behaviors
  | some (.stmt (.block ss)) => do
    pushFrame
    let b ← inOrder one reachable ss (.only .next)
    popFrame
    return b
  | some (.stmt (.varDecl v)) => do
    localVariable c v
    return .only .next
  | some (.stmt (.assign l r)) => do
    let _ ← expr c c.fuel l
    let _ ← expr c c.fuel r
    return .only .next
  | some (.stmt (.increment l _)) => do
    let _ ← expr c c.fuel l
    return .only .next
  | some (.stmt (.callStatement e)) => do
    let _ ← expr c c.fuel e
    return .only .next
  | some (.stmt (.ifElse cond body otherwise)) => do
    let _ ← expr c c.fuel cond
    let b ← one body reachable
    let e ← one otherwise reachable
    return b.union e
  | some (.stmt (.forLoop init cond continuing body)) => do
    pushFrame
    let _ ← one init reachable
    let _ ← expr c c.fuel cond
    let b ← one body reachable
    let _ ← one continuing reachable
    popFrame
    return b.ofLoop (cond ≠ 0)
  | some (.stmt (.whileLoop cond body)) => do
    let _ ← expr c c.fuel cond
    let b ← one body reachable
    return b.ofLoop true
  | some (.stmt (.loop body continuing)) => do
    pushFrame
    let b ← openBody c one body reachable
    let _ ← one continuing reachable
    popFrame
    return b.ofLoop false
  | some (.stmt .breakLoop) => return .only .brk
  | some (.stmt .continueLoop) => return .only .cont
  | some (.stmt .discard) => return .only .discard
  | some (.stmt (.ret v)) => do
    let _ ← expr c c.fuel v
    return .only .ret
  | _ => do
    report c id "expected a statement"
    return .only .next

/-- The behaviors of a statement, recorded for it and everything in it. An absent statement
completes. -/
def statement : Nat → NodeId → Bool → Resolve Behaviors
  | 0, id, _ => do
    let _ ← tooDeep c id
    return .only .next
  | n + 1, id, reachable => do
    if id = 0 then return .only .next
    let outer := (← get).stmt
    modify fun r => { r with stmt := id }
    setStmt id reachable
    let b ← inside c (statement n) id reachable (c.arena.shape? id)
    setBehaviors id b
    modify fun r => { r with stmt := outer }
    return b

end ShaderLoom.Resolve
