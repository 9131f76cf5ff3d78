import ShaderLoom.Meaning.Facts
import ShaderLoom.Meaning.Typing
import ShaderLoom.Report.Diagnostic

/-! Resolution: names to declarations, and types of everything that has one. Module-scope
declarations are collected before any of them is resolved, so they may stand in any order. Problems
become diagnostics, and what could be resolved stays. -/
namespace ShaderLoom

/-- Names of one lexical level; the first declaration of a name counts. -/
abbrev Frame := List (Symbol × NodeId)

def Frame.find? (f : Frame) (s : Symbol) : Option NodeId := (List.find? (·.1 == s) f).map (·.2)

/-- The kind of thing that opens a lexical level. -/
inductive ScopeKind where
  | module | function | block | loop
  | other (code : Int)
  deriving DecidableEq, Repr

def ScopeKind.ofCode : Int → ScopeKind
  | 0 => .module
  | 1 => .function
  | 2 => .block
  | 3 => .loop
  | n => .other n

def ScopeKind.text : ScopeKind → String
  | .module => "module"
  | .function => "function"
  | .block => "block"
  | .loop => "loop"
  | .other _ => "unknown"

/-- What resolution works on: the nodes, the names of the module, and a bound on how deep it
looks. -/
structure Scene where
  arena : Arena
  module : Frame
  fuel : Nat

structure Resolver where
  facts : Facts := {}
  diagnostics : Diagnostics := []
  /-- The levels inside the module, innermost first. -/
  frames : List Frame := []
  function : Option NodeId := none
  stmt : NodeId := 0
  /-- Aliases and structures being resolved. -/
  pending : List NodeId := []
  /-- Globals and functions that the current function is already known to use. -/
  seenGlobals : List VariableId := []
  seenCallees : List NodeId := []

abbrev Resolve := StateM Resolver

namespace Resolve

variable (c : Scene)

def report (id : NodeId) (message : String) : Resolve Unit :=
  modify fun r => { r with
    diagnostics := r.diagnostics ++ [Diagnostic.errorAt .resolver message (c.arena.spanOf id)] }

def mapFacts (f : Facts → Facts) : Resolve Unit := modify fun r => { r with facts := f r.facts }

def setType (id : NodeId) (t : Ty) : Resolve Unit :=
  mapFacts fun f => { f with types := f.types.insert id t }

def setExpr (id : NodeId) (e : ExprFacts) : Resolve Unit :=
  mapFacts fun f => { f with exprs := f.exprs.insert id e }

def updateFunction (id : NodeId) (g : FunctionFacts → FunctionFacts) : Resolve Unit :=
  mapFacts fun f => { f with functions := f.functions.modify id g }

/-- Looks through the levels from the innermost to the module. -/
def lookup (s : Symbol) : Resolve (Option NodeId) := do
  let r ← get
  return (r.frames.findSome? (Frame.find? · s)).or (c.module.find? s)

/-- Declares a name at the innermost level. Answers `false` if the level has the name already. -/
def declareLocal (s : Symbol) (id : NodeId) : Resolve Bool :=
  modifyGet fun r =>
    match r.frames with
    | [] => (true, r)
    | top :: rest =>
      if (Frame.find? top s).isSome then (false, r)
      else (true, { r with frames := ((s, id) :: top) :: rest })

/-- Records the type of a type node, if it has one. -/
def keepType (id : NodeId) (t : Option Ty) : Resolve (Option Ty) := do
  if let some t := t then setType id t
  return t

/-- Records an expression and answers with its type. -/
def finish (id : NodeId) (e : ExprFacts) : Resolve (Option Ty) := do
  setExpr id e
  return e.type

/-- Reports a problem with what has no type then. -/
def refuse (id : NodeId) (message : String) : Resolve (Option Ty) := do
  report c id message
  return none

/-- The sign that resolution would never end: it was broken off at its bound. No problem of a
program is worded like this, and a document whose program bears the sign is not answered with a
program. -/
def endless : String := "declaration leads back to itself"

/-- Breaks off at the bound. It is wide enough for whatever ends. What does not is a variable of the
module whose initializer leads back to it: such a variable would be looked for again and again. -/
def tooDeep (id : NodeId) : Resolve (Option Ty) := refuse c id endless

/-- A member of a structure, whose type is found by `type`. -/
def memberFacts (type : NodeId → Resolve (Option Ty)) (m : NodeId) (i : Nat) :
    Resolve (Option MemberFacts) := do
  match c.arena.shape? m with
  | some (.structMember s ty attributes) =>
    let t ← type ty
    return some { decl := m, name := c.arena.nameOf s, type := t, index := i,
                  builtin := c.arena.builtinOf attributes }
  | _ => return none

/-- The type that a structure or an alias declares, given the types of type nodes. A structure has
its type before its members are looked at. -/
def declared (type : NodeId → Resolve (Option Ty)) (id : NodeId) : Resolve (Option Ty) := do
  match c.arena.shape? id with
  | some (.decl (.struct s members _)) =>
    let name := c.arena.nameOf s
    let t := Ty.struct id name
    mapFacts fun f => { f with
      structs := f.structs.insert id { decl := id, name }
      types := f.types.insert id t }
    let found ← members.zipIdx.filterMapM fun (m, i) => memberFacts c type m i
    mapFacts fun f => { f with
      structs := f.structs.insert id { decl := id, name, members := found } }
    return some t
  | some (.decl (.typeAlias _ ty)) => keepType id (← type ty)
  | _ => return none

def pushFrame : Resolve Unit := modify fun r => { r with frames := [] :: r.frames }

def popFrame : Resolve Unit := modify fun r => { r with frames := r.frames.drop 1 }

mutual

/-- The type of a type node. -/
def type : Nat → NodeId → Resolve (Option Ty)
  | 0, id => tooDeep c id
  | n + 1, id => do
    if id = 0 then return none
    match c.arena.shape? id with
    | some (.type .bool) => keepType id (some .bool)
    | some (.type .i32) => keepType id (some .i32)
    | some (.type .u32) => keepType id (some .u32)
    | some (.type .f32) => keepType id (some .f32)
    | some (.type (.vector e w)) => do keepType id ((← type n e).map (.vector · w))
    | some (.type (.matrix e cols rows)) => do keepType id ((← type n e).map (.matrix · cols rows))
    | some (.type (.array e count)) => do keepType id ((← type n e).map (.array · count))
    | some (.type (.sampler cmp)) => keepType id (some (.sampler cmp))
    | some (.type (.sampledTexture d e)) => do keepType id ((← type n e).map (.sampledTexture d))
    | some (.type .externalTexture) => keepType id (some .externalTexture)
    | some (.type (.named s)) =>
      match c.module.find? s with
      | none => refuse c id s!"unknown type '{c.arena.nameOf s}'"
      | some decl =>
        if (c.arena.shape? decl).any Shape.isTypeDecl then
          mapFacts fun f => { f with typeDecls := f.typeDecls.insert id decl }
          keepType id (← typeDecl n decl)
        else refuse c id s!"'{c.arena.nameOf s}' is not a type"
    | _ => refuse c id "expected a type"

/-- The type that a structure or an alias declares, resolved at its first use. An alias that leads
back to itself has none. -/
def typeDecl : Nat → NodeId → Resolve (Option Ty)
  | 0, id => tooDeep c id
  | n + 1, id => do
    let r ← get
    if let some t := r.facts.types[id]? then return some t
    if r.pending.contains id then refuse c id "cyclic type declaration"
    else
      modify fun r => { r with pending := id :: r.pending }
      let t ← declared c (type n) id
      modify fun r => { r with pending := r.pending.erase id }
      return t

end

/-- The address space of a variable that names none: handles for samplers and textures, and function
scope for other locals. -/
def defaultSpace (type : Option Ty) (scope : VariableScope) : AddressSpace :=
  match type with
  | some (.sampler _) | some (.sampledTexture _ _) | some .externalTexture => .handle
  | _ => if scope = .local then .function else .none

def bindingPointOf (a : Arena) (attributes : List NodeId) : Option BindingPoint := do
  let group ← a.findAttr? attributes fun
    | .group g => some g
    | _ => none
  let binding ← a.findAttr? attributes fun
    | .binding b => some b
    | _ => none
  return ⟨group, binding⟩

/-- The facts of a variable once its type is known. -/
def variableFacts (a : Arena) (id : NodeId) (v : VariableShape Symbol NodeId)
    (scope : VariableScope) (type : Option Ty) : VariableFacts :=
  let facts : VariableFacts :=
    { decl := id, name := a.nameOf v.name, scope, type, builtin := a.builtinOf v.attributes
      bindingPoint := bindingPointOf a v.attributes }
  match v.kind with
  | .var space access =>
    { facts with space := if space = .none then defaultSpace type scope else space, access }
  | _ => facts

/-- The type of a variable is the one it names, or else that of its initializer. -/
def variableType (id : NodeId) (v : VariableShape Symbol NodeId) (initType : Option Ty) :
    Resolve (Option Ty) :=
  if v.type ≠ 0 then type c c.fuel v.type
  else if v.initializer ≠ 0 then pure initType
  else refuse c id s!"'{c.arena.nameOf v.name}' has no type or initializer"

/-- Makes a variable and, unless it is global, declares it at the innermost level. -/
def makeVariable (id : NodeId) (v : VariableShape Symbol NodeId) (scope : VariableScope)
    (t : Option Ty) : Resolve (Option VariableId) := do
  if scope ≠ .global then
    unless ← declareLocal v.name id do
      report c id s!"redeclaration of '{c.arena.nameOf v.name}'"
  let number := (← get).facts.vars.size
  mapFacts (·.addVariable (variableFacts c.arena id v scope t))
  return some number

/-- Notes that the current function uses a module-scope variable. -/
def useGlobal (number : VariableId) : Resolve Unit := do
  let r ← get
  if let some fn := r.function then
    unless r.seenGlobals.contains number do
      modify fun r => { r with seenGlobals := number :: r.seenGlobals }
      updateFunction fn fun f => { f with directGlobals := f.directGlobals ++ [number] }

/-- Notes that an identifier refers to a variable, and answers with the variable's type. -/
def useVariable (id : NodeId) (facts : ExprFacts) (number : VariableId) : Resolve (Option Ty) := do
  match (← get).facts.vars[number]? with
  | none => return none
  | some v =>
    setExpr id { facts with variableId := some number, type := v.type }
    mapFacts fun f => { f with
      vars := f.vars.modify number fun v => { v with users := v.users ++ [id] } }
    if v.scope = .global then useGlobal number
    return v.type

def useCallee (decl : NodeId) : Resolve Unit := do
  let r ← get
  if let some fn := r.function then
    unless r.seenCallees.contains decl do
      modify fun r => { r with seenCallees := decl :: r.seenCallees }
      updateFunction fn fun f => { f with callees := f.callees ++ [decl] }

def callBuiltin (id : NodeId) (facts : ExprFacts) (name : String) (args : List (Option Ty)) :
    Resolve (Option Ty) :=
  match builtinRule? name with
  | some rule => finish id { facts with builtin := name, type := rule.result args }
  | none => refuse c id s!"unknown function '{name}'"

def callFunction (id : NodeId) (facts : ExprFacts) (name : String) (decl : NodeId) :
    Resolve (Option Ty) := do
  match (← get).facts.functions[decl]? with
  | none => refuse c id s!"'{name}' cannot be called here"
  | some f =>
    let t ← finish id { facts with target := some decl, type := f.returnType }
    useCallee decl
    return t

/-- The type of `object[…]`, or what is wrong with it. -/
def indexed : Ty → Except String Ty
  | .vector e _ => .ok e
  | .matrix e _ rows => .ok (.vector e rows)
  | .array e _ => .ok e
  | t => .error s!"cannot index a value of type {t.text}"

/-- The facts of `object.name`, or what is wrong with it. -/
def selected (facts : Facts) (name : String) : Ty → Except String (ExprFacts → ExprFacts)
  | .struct d structName =>
    match (facts.structs[d]?.bind (·.member? name)) with
    | some m => .ok fun e => { e with member := some m, type := m.type }
    | none => .error s!"struct {structName} has no member '{name}'"
  | .vector elem w =>
    match swizzle? name w with
    | some [i] => .ok fun e => { e with swizzle := some [i], type := some elem }
    | some is => .ok fun e => { e with swizzle := some is, type := some (.vector elem is.length) }
    | none => .error s!"invalid vector swizzle '{name}'"
  | t => .error s!"type {t.text} has no members"

mutual

/-- The type of an expression, recorded with the rest of what is known about it. -/
def expr : Nat → NodeId → Resolve (Option Ty)
  | 0, id => tooDeep c id
  | n + 1, id => do
    if id = 0 then return none
    let facts : ExprFacts := { stmt := (← get).stmt }
    setExpr id facts
    match c.arena.shape? id with
    | some (.expr (.ident s)) =>
      match ← lookup c s with
      | none => refuse c id s!"unknown identifier '{c.arena.nameOf s}'"
      | some decl =>
        match (← get).facts.latest[decl]?, c.arena.asVariable? decl with
        | some number, _ => useVariable id facts number
        | none, some v =>
          match ← resolveVariable n decl v .global with
          | some number => useVariable id facts number
          | none => return none
        | none, none => refuse c id s!"'{c.arena.nameOf s}' is not a value"
    | some (.expr (.int _ suffix)) =>
      finish id { facts with type := some (if suffix = .u then .u32 else .i32) }
    | some (.expr (.float _)) => finish id { facts with type := some .f32 }
    | some (.expr (.bool _)) => finish id { facts with type := some .bool }
    | some (.expr (.binary op l r)) => do
      let lt ← expr n l
      let rt ← expr n r
      finish id { facts with type := binaryType op lt rt }
    | some (.expr (.unary _ e)) => do finish id { facts with type := ← expr n e }
    | some (.expr (.call target args)) => call n id facts target args
    | some (.expr (.index o i)) => do
      let ot ← expr n o
      let _ ← expr n i
      match ot.map indexed with
      | none => return none
      | some (.ok t) => finish id { facts with type := some t }
      | some (.error message) => refuse c id message
    | some (.expr (.member o s)) => do
      let ot ← expr n o
      match ot.map (selected (← get).facts (c.arena.nameOf s)) with
      | none => return none
      | some (.ok g) => finish id (g facts)
      | some (.error message) => refuse c id message
    | _ =>
      mapFacts fun f => { f with exprs := f.exprs.erase id }
      refuse c id "expected an expression"

/-- A call of a declared function, a builtin function, or a constructor. Functions and types are
looked up at module scope only. -/
def call : Nat → NodeId → ExprFacts → NodeId → List NodeId → Resolve (Option Ty)
  | 0, id, _, _, _ => tooDeep c id
  | n + 1, id, facts, target, args => do
    let argTypes ← args.mapM (expr n)
    match c.arena.shape? target with
    | some (.type _) => do finish id { facts with type := ← type c c.fuel target }
    | some (.expr (.ident s)) =>
      match c.module.find? s with
      | none => callBuiltin c id facts (c.arena.nameOf s) argTypes
      | some decl =>
        match c.arena.shape? decl with
        | some (.decl (.function _)) => callFunction c id facts (c.arena.nameOf s) decl
        | some (.decl (.struct _ _ _)) | some (.decl (.typeAlias _ _)) => do
          finish id { facts with type := ← typeDecl c c.fuel decl }
        | _ => callBuiltin c id facts (c.arena.nameOf s) argTypes
    | _ => refuse c id "call target must be a name or a type"

/-- The variable of a declaration, after its initializer. -/
def resolveVariable : Nat → NodeId → VariableShape Symbol NodeId → VariableScope →
    Resolve (Option VariableId)
  | 0, id, _, _ => do
    let _ ← tooDeep c id
    return none
  | n + 1, id, v, scope => do
    let initType ← expr n v.initializer
    makeVariable c id v scope (← variableType c id v initType)

end

end Resolve
end ShaderLoom
