import ShaderLoom.Pass.Pass

/-! Moving expressions into declarations before the statement that evaluates them. What has to run
again on every turn of a loop goes into the loop: a loop with declarations in its header becomes one
that tests and leaves by itself, and an `else if` with declarations becomes a block in the `else`.
Work is recorded first and takes effect with `apply`, before the module is copied. -/
namespace ShaderLoom

/-- Declarations waiting for one loop: before its condition, and before its continuing part. -/
structure PendingLoop where
  id : NodeId
  condition : List NodeId := []
  continuing : List NodeId := []

structure PendingElse where
  id : NodeId
  condition : List NodeId := []

structure Hoist where
  loops : List PendingLoop := []
  elseIfs : List PendingElse := []
  deriving Inhabited

namespace Hoist

/-- What the nodes that hoisting touches become. -/
inductive Rule where
  | reference (s : Symbol)
  | lowerLoop (id : NodeId)
  | lowerElse (id : NodeId)
  deriving DecidableEq, Repr

/-- Changes what waits for a loop, which joins the record if it is new. -/
def onLoop (h : Hoist) (id : NodeId) (f : PendingLoop → PendingLoop) : Hoist :=
  if h.loops.any (·.id == id) then
    { h with loops := h.loops.map fun l => if l.id == id then f l else l }
  else { h with loops := h.loops ++ [f { id }] }

def onElse (h : Hoist) (id : NodeId) (f : PendingElse → PendingElse) : Hoist :=
  if h.elseIfs.any (·.id == id) then
    { h with elseIfs := h.elseIfs.map fun e => if e.id == id then f e else e }
  else { h with elseIfs := h.elseIfs ++ [f { id }] }

def loopOf (h : Hoist) (id : NodeId) : PendingLoop := (h.loops.find? (·.id == id)).getD { id }

def elseOf (h : Hoist) (id : NodeId) : PendingElse := (h.elseIfs.find? (·.id == id)).getD { id }

end Hoist

/-- Sessions in which hoisting can be done: their handlers include its rules and their state its
record. -/
class Hoisting (κ σ : Type) where
  rule : Hoist.Rule → κ
  hoist : σ → Hoist
  setHoist : Hoist → σ → σ

namespace Hoist

variable {κ σ : Type} [Hoisting κ σ]

open Copy

def record : Edit κ σ Hoist := do return Hoisting.hoist κ (← get).state

def changeRecord (f : Hoist → Hoist) : Edit κ σ Unit :=
  modify fun s => { s with state := Hoisting.setHoist κ (f (Hoisting.hoist κ s.state)) s.state }

/-- `if (!condition) { break; }` -/
def breakUnless (copy : NodeId → Edit κ σ NodeId) (condition : NodeId) : Edit κ σ NodeId := do
  let c ← copy condition
  Edit.build do
    let test ← Build.unary .not (.node c)
    let leave ← Build.stmt .breakLoop
    let body ← Build.block [leave]
    Build.stmt (.ifElse test body 0)

/-- What the rules make. -/
def act (copy : NodeId → Edit κ σ NodeId) (rule : Rule) : Edit κ σ NodeId := do
  let src := (← get).source
  match rule with
  | .reference s => Edit.build (Build.identSym s)
  | .lowerLoop id =>
    let pending := (← record).loopOf id
    match src.shape? id with
    | some (.stmt (.forLoop init cond continuing body)) =>
      let test ← if cond = 0 then pure [] else do pure [← breakUnless copy cond]
      let inner ← copy body
      let cont ← if continuing = 0 then pure 0 else do
        let before := ((← record).loopOf id).continuing
        let last ← copy continuing
        Edit.build (Build.block (before ++ [last]))
      let loop ← Edit.build do
        let b ← Build.block (pending.condition ++ test ++ [inner])
        Build.stmt (.loop b cont)
      if init = 0 then return loop
      let first ← copy init
      Edit.build (Build.block [first, loop])
    | some (.stmt (.whileLoop cond body)) =>
      let test ← breakUnless copy cond
      let inner ← copy body
      Edit.build do
        let b ← Build.block (pending.condition ++ [test, inner])
        Build.stmt (.loop b 0)
    | _ => return 0
  | .lowerElse id =>
    match src.shape? id with
    | some (.stmt (.ifElse cond body otherwise)) =>
      let c ← copy cond
      let b ← copy body
      let e ← copy otherwise
      let pending := (← record).elseOf id
      Edit.build do
        let inner ← Build.stmt (.ifElse c b e)
        Build.block (pending.condition ++ [inner])
    | _ => return 0

def isElseOf (src : Program) (id : NodeId) : Bool :=
  match src.shape? id, src.shape? (src.parent id) with
  | some (.stmt (.ifElse _ _ _)), some (.stmt (.ifElse _ _ e)) => e == id
  | _, _ => false

/-- Puts a statement of the target before a statement of the source. A header's initializer runs
once, so what goes before it goes before the loop. -/
def insertBefore : Nat → NodeId → NodeId → Work κ σ Unit
  | 0, id, _ => Work.fail (.hoistUnknownStatement id)
  | n + 1, id, stmt => do
    let src := (← get).source
    match src.shape? id with
    | none => Work.fail (.hoistUnknownStatement id)
    | some shape =>
      if isElseOf src id then
        Work.edit <| changeRecord (·.onElse id fun e =>
          { e with condition := e.condition ++ [stmt] })
      else
        let parent := src.parent id
        match src.shape? parent with
        | some (.stmt (.block _)) => Work.edit (Edit.insertBefore id stmt)
        | some (.stmt (.forLoop init _ continuing _)) =>
          if id = init then insertBefore n parent stmt
          else if id = continuing then
            Work.edit <| changeRecord (·.onLoop parent fun l =>
              { l with continuing := l.continuing ++ [stmt] })
          else Work.fail (.hoistUnsupportedPosition shape.kind id)
        | _ => Work.fail (.hoistUnsupportedPosition shape.kind id)

def insert (id stmt : NodeId) : Work κ σ Unit := do
  insertBefore ((← get).source.size + 1) id stmt

def isLoopHeader (src : Program) (stmt : NodeId) : Bool :=
  match src.shape? stmt with
  | some (.stmt (.forLoop _ _ _ _)) => true
  | some (.stmt (.whileLoop _ _)) => true
  | _ => false

/-- Declares the value of `expr` before the statement around `before` and makes `expr` refer to it.
The only expression that a loop holds directly is its condition, which runs on every turn. -/
def add (act : Act κ σ) (before expr : NodeId) (asLet : Bool) (hint : String) : Work κ σ Unit := do
  let src := (← get).source
  let stmt := src.statementOf before
  if stmt = 0 then Work.fail (.hoistOutsideFunction before)
  let name ← Work.build (Build.freshSymbol hint)
  let value ← Work.edit (Edit.copy act expr)
  let kind := if asLet then VariableKind.letValue else .var .none .undefined
  let decl ← Work.build (Build.variableSym kind name 0 value [])
  Work.edit (Edit.replaceWith expr (Hoisting.rule σ (.reference name)))
  let declared ← Work.build (Build.declare decl)
  if isLoopHeader src stmt then
    Work.edit <| changeRecord (·.onLoop stmt fun l =>
      { l with condition := l.condition ++ [declared] })
  else insert stmt declared

/-- Registers what becomes of the loops and `else if`s with declarations. -/
def apply : Edit κ σ Unit := do
  let h ← record
  for l in h.loops do Edit.replaceWith l.id (Hoisting.rule σ (.lowerLoop l.id))
  for e in h.elseIfs do Edit.replaceWith e.id (Hoisting.rule σ (.lowerElse e.id))

end Hoist
end ShaderLoom
