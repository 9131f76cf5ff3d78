import ShaderLoom.Pass.Pass

/-! Turns external textures into pairs of planes. Every variable and parameter of that type becomes
a `texture_2d<f32>` and gets two companions, the second plane and a structure of conversion
parameters. Sampling and loading become calls of helper functions that convert from luma and chroma
to colour, and calls of other functions pass the companions on. -/
namespace ShaderLoom.Planes

open Copy

def name : String := "MultiplanarExternalTexture"

/-- The companions of one texture. -/
structure Companions where
  plane1 : Symbol
  params : Symbol

/-- Names of parameters and variables in the helper functions. -/
structure Locals where
  plane0 : Symbol
  plane1 : Symbol
  smp : Symbol
  coord : Symbol
  params : Symbol
  y : Symbol
  uv : Symbol
  u : Symbol
  v : Symbol
  r : Symbol
  g : Symbol
  b : Symbol

inductive Fetch where
  | sample
  | load
  deriving DecidableEq

def Fetch.builtin : Fetch → String
  | sample => "textureSampleLevel"
  | load => "textureLoad"

def Fetch.helper : Fetch → String
  | sample => "textureSampleExternal"
  | load => "textureLoadExternal"

/-- Arguments of the builtin, the texture included. -/
def Fetch.arity : Fetch → Nat
  | sample => 3
  | load => 2

/-- What is declared once and used many times. -/
structure Made where
  paramsStruct : Option Symbol := none
  companions : List (NodeId × Companions) := []
  sampleHelper : Option Symbol := none
  loadHelper : Option Symbol := none
  locals : Option Locals := none

/-- What nodes become. -/
inductive Use where
  | plane
  /-- A type name that stands for an external texture. -/
  | named
  | converted (fetch : Fetch) (companions : Companions) (args : List NodeId)

abbrev PlaneEdit := Edit Use Made

def paramsStruct : PlaneEdit Symbol := do
  match (← Edit.getState).paramsStruct with
  | some s => return s
  | none =>
    let s ← Edit.build do
      let s ← Build.freshSymbol "ExternalTextureParams"
      let count ← Build.structMember "numPlanes" (← Build.type .u32) []
      let rest ← ["vr", "ug", "vg", "ub"].mapM fun field => do
        Build.structMember field (← Build.type .f32) []
      let _ ← Build.structSym s (count :: rest)
      return s
    Edit.setState { (← Edit.getState) with paramsStruct := some s }
    return s

def freshCompanions : Build Companions := do
  let plane1 ← Build.freshSymbol "ext_tex_plane_1"
  let params ← Build.freshSymbol "ext_tex_params"
  return ⟨plane1, params⟩

def remember (id : NodeId) (c : Companions) : PlaneEdit Unit := do
  let s ← Edit.getState
  Edit.setState { s with companions := (id, c) :: s.companions }

def bindAt (s : Symbol) (type : NodeId) (space : AddressSpace) (point : BindingPoint) :
    Build Unit := do
  let group ← Build.attr (.group point.group)
  let binding ← Build.attr (.binding point.binding)
  let _ ← Build.globalVarSym s type space [group, binding]

/-- Declares the companions of a texture at module scope. -/
def addGlobal (points : PointMap PlanePoints) (v : VariableFacts) : Work Use Made Unit := do
  let point ← Work.need (.unboundTexture v.name) v.bindingPoint
  let planes ← Work.need (.missingPlanes point) (points.find? point)
  Work.edit do
    let struct ← paramsStruct
    let c ← Edit.build freshCompanions
    Edit.build do
      bindAt c.plane1 (← Build.texture2d) .none planes.plane1
      bindAt c.params (← Build.type (.named struct)) .uniform planes.params
    remember v.decl c

/-- Puts the companions of a texture parameter behind it. -/
def addParameter (id : NodeId) : PlaneEdit Unit := do
  let struct ← paramsStruct
  let c ← Edit.build freshCompanions
  let plane ← Edit.build do Build.variableSym .parameter c.plane1 (← Build.texture2d) 0 []
  Edit.insertAfter id plane
  let params ← Edit.build do
    Build.variableSym .parameter c.params (← Build.type (.named struct)) 0 []
  Edit.insertAfter id params
  remember id c

def companionsOf (p : Program) (expr : NodeId) : PlaneEdit (Option Companions) := do
  let known := (← Edit.getState).companions
  return (p.facts.variableOf expr).bind fun v => known.lookup v.decl

/-- Passes the companions of an argument on behind it. -/
def passOn (p : Program) (arg : NodeId) : PlaneEdit Unit := do
  if let some c ← companionsOf p arg then
    Edit.insertAfter arg (← Edit.build (Build.identSym c.plane1))
    Edit.insertAfter arg (← Edit.build (Build.identSym c.params))

/-- What happens to a call. -/
def addCall (p : Program) (id : NodeId) (args : List NodeId) (call : ExprFacts) :
    PlaneEdit Unit := do
  if call.target.isSome then
    for arg in args do passOn p arg
  else if let texture :: _ := args then
    if let some c ← companionsOf p texture then
      let found := [Fetch.sample, .load].find? fun a =>
        call.builtin == a.builtin && args.length == a.arity
      if let some fetch := found then Edit.replaceWith id (.converted fetch c args)

def freshLocals : Build Locals := do
  return {
    plane0 := ← Build.freshSymbol "plane0"
    plane1 := ← Build.freshSymbol "plane1"
    smp := ← Build.freshSymbol "smp"
    coord := ← Build.freshSymbol "coord"
    params := ← Build.freshSymbol "params"
    y := ← Build.freshSymbol "y"
    uv := ← Build.freshSymbol "uv"
    u := ← Build.freshSymbol "u"
    v := ← Build.freshSymbol "v"
    r := ← Build.freshSymbol "r"
    g := ← Build.freshSymbol "g"
    b := ← Build.freshSymbol "b" }

def locals : PlaneEdit Locals := do
  match (← Edit.getState).locals with
  | some l => return l
  | none =>
    let l ← Edit.build freshLocals
    Edit.setState { (← Edit.getState) with locals := some l }
    return l

namespace Helper

/-- The constants of the conversion from limited-range luma and chroma. -/
def scale : Binary64 := (Binary64.ofRatio? false 1164000034 1000000000).getD .zero

def black : Binary64 := (Binary64.ofRatio? false 1 16).getD .zero

def half : Binary64 := (Binary64.ofRatio? false 1 2).getD .zero

def one : Binary64 := (Binary64.ofRatio? false 1 1).getD .zero

def parameter (s : Symbol) (type : Build NodeId) : Build NodeId := do
  Build.variableSym .parameter s (← type) 0 []

def vector (elem : TypeShape Symbol NodeId) (width : Int) : Build NodeId := do
  Build.type (.vector (← Build.type elem) width)

def parameters (fetch : Fetch) (l : Locals) (struct : Symbol) : Build (List NodeId) := do
  let plane0 ← parameter l.plane0 Build.texture2d
  let plane1 ← parameter l.plane1 Build.texture2d
  let place ← match fetch with
    | .sample => do
      let smp ← parameter l.smp (Build.type (.sampler false))
      let coord ← parameter l.coord (vector .f32 2)
      pure [smp, coord]
    | .load => do pure [← parameter l.coord (vector .i32 2)]
  let params ← parameter l.params (Build.type (.named struct))
  return [plane0, plane1] ++ place ++ [params]

/-- The value of a plane at the wanted place. -/
def readPlane (fetch : Fetch) (l : Locals) (plane : Symbol) : Build NodeId := do
  let texture ← Build.identSym plane
  match fetch with
  | .sample =>
    let smp ← Build.identSym l.smp
    let coord ← Build.identSym l.coord
    Build.call fetch.builtin [.node texture, .node smp, .node coord, .float .zero]
  | .load =>
    let coord ← Build.identSym l.coord
    Build.call fetch.builtin [.node texture, .node coord, .int 0]

def param (l : Locals) (field : String) : Build NodeId := do
  Build.member (.node (← Build.identSym l.params)) field

def declareLet (s : Symbol) (value : NodeId) : Build NodeId := do
  Build.declare (← Build.variableSym .letValue s 0 value [])

/-- A component of a read plane less a constant. -/
def level (fetch : Fetch) (l : Locals) (plane : Symbol) (components : String) (base : Binary64) :
    Build NodeId := do
  let value ← readPlane fetch l plane
  let part ← Build.member (.node value) components
  Build.binary .sub (.node part) (.float base)

def component (s : Symbol) (field : String) : Build NodeId := do
  Build.member (.node (← Build.identSym s)) field

/-- The scaled luma. -/
def luma (l : Locals) : Build NodeId := do
  let y ← Build.identSym l.y
  Build.binary .mul (.float scale) (.node y)

/-- A chroma value times its parameter. -/
def chroma (l : Locals) (field : String) (s : Symbol) : Build NodeId := do
  let factor ← param l field
  let value ← Build.identSym s
  Build.binary .mul (.node factor) (.node value)

def combine (op : BinaryOp) (lhs rhs : Build NodeId) : Build NodeId := do
  let x ← lhs
  let y ← rhs
  Build.binary op (.node x) (.node y)

/-- A texture of one plane already holds colours. -/
def singlePlane (fetch : Fetch) (l : Locals) : Build NodeId := do
  let planes ← param l "numPlanes"
  let one ← Build.expr (.int 1 .u)
  let test ← Build.binary .equal (.node planes) (.node one)
  let value ← readPlane fetch l l.plane0
  let body ← Build.block [← Build.returnValue (.node value)]
  Build.ifElse (.node test) body 0

def body (fetch : Fetch) (l : Locals) : Build (List NodeId) := do
  let single ← singlePlane fetch l
  let y ← declareLet l.y (← level fetch l l.plane0 "r" black)
  let uv ← declareLet l.uv (← level fetch l l.plane1 "rg" half)
  let u ← declareLet l.u (← component l.uv "x")
  let v ← declareLet l.v (← component l.uv "y")
  let r ← declareLet l.r (← combine .add (luma l) (chroma l "vr" l.v))
  let g ← declareLet l.g (← combine .sub
    (combine .sub (luma l) (chroma l "ug" l.u)) (chroma l "vg" l.v))
  let b ← declareLet l.b (← combine .add (luma l) (chroma l "ub" l.u))
  let type ← vector .f32 4
  let red ← Build.identSym l.r
  let green ← Build.identSym l.g
  let blue ← Build.identSym l.b
  let colour ← Build.construct type [.node red, .node green, .node blue, .float one]
  let last ← Build.returnValue (.node colour)
  return [single, y, uv, u, v, r, g, b, last]

def declare (fetch : Fetch) (s struct : Symbol) (l : Locals) : Build Unit := do
  let params ← parameters fetch l struct
  let statements ← body fetch l
  let type ← vector .f32 4
  let _ ← Build.functionSym s params type [] statements []

end Helper

def Made.helper (m : Made) : Fetch → Option Symbol
  | .sample => m.sampleHelper
  | .load => m.loadHelper

def Made.setHelper (m : Made) (s : Symbol) : Fetch → Made
  | .sample => { m with sampleHelper := some s }
  | .load => { m with loadHelper := some s }

/-- The conversion function for a way to fetch, declared at its first use. -/
def helper (fetch : Fetch) : PlaneEdit Symbol := do
  match (← Edit.getState).helper fetch with
  | some s => return s
  | none =>
    let s ← Edit.build (Build.freshSymbol fetch.helper)
    let l ← locals
    let struct := (← Edit.getState).paramsStruct.getD 0
    Edit.build (Helper.declare fetch s struct l)
    Edit.setState ((← Edit.getState).setHelper s fetch)
    return s

def act : Act Use Made := fun copy use id => do
  match use with
  | .plane => Edit.build Build.texture2d
  | .named =>
    if Ty.isExternalTexture ((← Edit.source).facts.typeOf id) then
      Edit.build Build.texture2d else return 0
  | .converted fetch c args =>
    let s ← helper fetch
    let texture ← (args.take 1).mapM copy
    let plane1 ← Edit.build (Build.identSym c.plane1)
    let rest ← (args.drop 1).mapM copy
    let params ← Edit.build (Build.identSym c.params)
    Edit.build (Build.callSym s ((texture ++ [plane1] ++ rest ++ [params]).map .node))

def isVar (p : Program) (id : NodeId) : Bool :=
  match p.shape? id with
  | some (.decl (.value ⟨.var _ _, _, _, _, _⟩)) => true
  | _ => false

def isAlias (p : Program) (id : NodeId) : Bool :=
  match p.shape? id with
  | some (.decl (.typeAlias _ _)) => true
  | _ => false

def external? (p : Program) (id : NodeId) : Option VariableFacts :=
  (p.facts.variableAt id).filter fun v => Ty.isExternalTexture v.type

def work (p : Program) (inputs : Data) : Work Use Made Data := do
  let points ← Work.need (.missingPlaneData name) (inputs.get? .planes)
  for id in p.globals.filter (isVar p) do
    if let some v := external? p id then addGlobal points v
  Work.edit do
    for id in (p.globals.filterMap p.function?).flatMap (·.params) do
      if (external? p id).isSome then addParameter id
    Edit.replaceAll (.kind "ExternalTexture" .texture) .plane
    Edit.replaceAll (.kind "TypeName" .typeNode) .named
    for id in p.globals.filter (isAlias p) do
      if Ty.isExternalTexture p.facts.types[id]? then Edit.remove id
    for id in p.treeIds do
      match p.shape? id, p.facts.call? id with
      | some (.expr (.call _ args)), some call => addCall p id args call
      | _, _ => pure ()
    Edit.copyModule (Edit.copy act)
  return {}

def isExternalNode (p : Program) (id : NodeId) : Bool :=
  match p.shape? id with
  | some (.type .externalTexture) => true
  | _ => false

def pass : Pass where
  name
  shouldRun p _ := p.treeIds.any (isExternalNode p)
  run p inputs := (work p inputs).perform p {}

end ShaderLoom.Planes
