import ShaderLoom.Backend.Version
import ShaderLoom.Document.Reader
import ShaderLoom.Pass.Data
import ShaderLoom.Text.Lowercase

/-! Targets, and the options that each of them takes. -/
namespace ShaderLoom

inductive Backend where
  | glsl
  | hlsl
  | msl
  | spirv
  | other (code : Int)
  deriving DecidableEq, Repr, Inhabited

namespace Backend

def declared : List Backend := [glsl, hlsl, msl, spirv]

def ofCode : Int → Backend
  | 0 => glsl
  | 1 => hlsl
  | 2 => msl
  | 3 => spirv
  | n => other n

def code : Backend → Int
  | glsl => 0
  | hlsl => 1
  | msl => 2
  | spirv => 3
  | other n => n

def text : Backend → String
  | glsl => "glsl"
  | hlsl => "hlsl"
  | msl => "msl"
  | spirv => "spirv"
  | other n => s!"Backend({n})"

end Backend

/-- Why a program cannot be prepared for a target at all. -/
inductive BackendProblem where
  | unknownName (name : String)
  | unknownBackend (backend : Backend)
  | badVersion (problem : VersionProblem)
  | computeUnsupported (entryPoint : String) (version : GlslVersion)
  | ambiguousEntryPoint (count : Nat)
  | entryPointNotFound (name : String)
  | invalidAccess (access : String) (point : BindingPoint)
  deriving DecidableEq, Repr

def BackendProblem.toFault : BackendProblem → Fault
  | .unknownName name => .configuration "UNKNOWN_BACKEND" s!"unknown backend '{name}'"
  | .unknownBackend b => .configuration "UNKNOWN_BACKEND" s!"unknown backend {b.text}"
  | .badVersion problem => problem.toFault
  | .computeUnsupported entryPoint version =>
    .configuration "UNSUPPORTED_STAGE"
      s!"compute entry point '{entryPoint}' needs GLSL ES 3.1 or GLSL 4.3, got '{version.text}'"
  | .ambiguousEntryPoint count =>
    .input "AMBIGUOUS_ENTRY_POINT"
      s!"an entry point name is required when the module has {count} entry points"
  | .entryPointNotFound name => .input "ENTRY_POINT_NOT_FOUND" s!"entry point '{name}' not found"
  | .invalidAccess access point =>
    .configuration "INVALID_ACCESS" s!"invalid access '{access}' for binding {point.text}"

namespace Backend

/-- A name in upper or lower case. -/
def parse (s : String) : Except BackendProblem Backend :=
  let name := Text.lowercase (Text.trim s)
  if name == "spv" || name == "spir-v" then .ok spirv
  else
    match declared.find? (·.text == name) with
    | some b => .ok b
    | none => .error (.unknownName name)

/-- Names between commas; empty ones and repetitions are left out. -/
def parseList (s : String) : Except BackendProblem (List Backend) :=
  let names := (s.splitOn ",").filter fun part => !(Text.trim part).isEmpty
  (names.mapM parse).map List.eraseDups

end Backend

structure AccessOption where
  binding : BindingPoint := default
  access : String := ""
  deriving Repr, Inhabited

structure RemapOption where
  source : BindingPoint := default
  target : BindingPoint := default
  deriving Repr, Inhabited

structure TextureOption where
  binding : BindingPoint := default
  plane1 : BindingPoint := default
  params : BindingPoint := default
  deriving Repr, Inhabited

/-- What every target takes. -/
structure CommonOptions where
  remaps : List RemapOption := []
  accesses : List AccessOption := []
  allowCollisions : Bool := false
  textures : List TextureOption := []
  deriving Repr, Inhabited

structure GlslOptions extends CommonOptions where
  /-- A version directive, `310 es` if empty. -/
  version : String := ""
  /-- May be empty if the module has one entry point. -/
  entryPoint : String := ""
  deriving Repr, Inhabited

structure HlslOptions extends CommonOptions where
  firstIndexOffset : Option BindingPoint := none
  numWorkgroups : Option BindingPoint := none
  deriving Repr, Inhabited

structure MslOptions extends CommonOptions where
  /-- A language version, `1.2` if empty. -/
  version : String := ""
  deriving Repr, Inhabited

structure SpirvOptions extends CommonOptions where
  deriving Repr, Inhabited

/-- One set of options for each target, so that one file can serve several. -/
structure Options where
  glsl : GlslOptions := {}
  hlsl : HlslOptions := {}
  msl : MslOptions := {}
  spirv : SpirvOptions := {}
  deriving Repr, Inhabited

namespace CommonOptions

def accessOf (a : AccessOption) : Except BackendProblem (BindingPoint × Access) :=
  match Access.parse? a.access with
  | some .undefined | none => .error (.invalidAccess a.access a.binding)
  | some access => .ok (a.binding, access)

def remapping (c : CommonOptions) : Except BackendProblem Remapping := do
  let access ← c.accesses.mapM accessOf
  let points := c.remaps.map fun r => (r.source, r.target)
  return { points, access, allowCollisions := c.allowCollisions }

def planePoints (c : CommonOptions) : PointMap PlanePoints :=
  c.textures.map fun t => (t.binding, ⟨t.plane1, t.params⟩)

end CommonOptions
end ShaderLoom
