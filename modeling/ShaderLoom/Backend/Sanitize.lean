import ShaderLoom.Backend.Options
import ShaderLoom.Pass.EntryPoint
import ShaderLoom.Pass.FirstIndex
import ShaderLoom.Pass.Pipeline
import ShaderLoom.Pass.Planes
import ShaderLoom.Pass.Promote
import ShaderLoom.Pass.Rebind
import ShaderLoom.Pass.Rename
import ShaderLoom.Pass.Unreachable
import ShaderLoom.Pass.Workgroups

/-! Preparing a program for a target: the passes of the target in their order, with the data that
its options supply. -/
namespace ShaderLoom

namespace Options

def defaultGlslVersion : String := "310 es"

def defaultMslVersion : String := "1.2"

/-- Where the number of workgroups is read unless the options say otherwise. -/
def defaultNumWorkgroups : BindingPoint := ⟨0, 30⟩

end Options

/-- The text of an option, or another one if it is empty. -/
def orElseText (text default : String) : String := if text.isEmpty then default else text

/-- What is to run for a target, and the line that its output starts with. -/
structure Plan where
  passes : List Pass
  data : Data
  header : String := ""

namespace Plan

/-- The data that every target's passes share. -/
def commonData (c : CommonOptions) : Except BackendProblem Data := do
  let remapping ← c.remapping
  let data : Data := Exchange.put {} .remapping remapping
  return data.put .planes c.planePoints

/-- The entry point of that name, or the only one if the name is empty. -/
def selectEntryPoint (f : Facts) (name : String) : Except BackendProblem FunctionFacts :=
  if name.isEmpty then
    match f.entryPointFacts with
    | [entry] => .ok entry
    | entries => .error (.ambiguousEntryPoint entries.length)
  else
    match f.entryPointFacts.find? (·.name == name) with
    | some entry => .ok entry
    | none => .error (.entryPointNotFound name)

def glsl (semver : Semver) (p : Program) (o : GlslOptions) : Except BackendProblem Plan := do
  let version ← (GlslVersion.parse semver
    (orElseText o.version Options.defaultGlslVersion)).mapError
    .badVersion
  let entry ← selectEntryPoint p.facts o.entryPoint
  if entry.stage = .compute && !version.supportsCompute semver then
    throw (.computeUnsupported entry.name version)
  let data ← commonData o.toCommonOptions
  let data := data.put .entryPoint entry.name
  return {
    passes := [Rebind.pass, Planes.pass, EntryPoint.pass, Unreachable.pass,
      Promote.pass, Rename.pass]
    data := data.put .renaming { target := .glsl }
    header := version.directive }

def hlsl (o : HlslOptions) : Except BackendProblem Plan := do
  let data ← commonData o.toCommonOptions
  let data := match o.firstIndexOffset with
    | some point => data.put .firstIndexOffset point
    | none => data
  let data := data.put .numWorkgroups (o.numWorkgroups.getD Options.defaultNumWorkgroups)
  let first := if o.firstIndexOffset.isSome then [FirstIndex.pass] else []
  return {
    passes := [Planes.pass, Rebind.pass] ++ first ++
      [Workgroups.pass, Unreachable.pass, Promote.pass, Rename.pass]
    data := data.put .renaming { target := .hlsl } }

def msl (semver : Semver) (o : MslOptions) : Except BackendProblem Plan := do
  let _ ← (MslVersion.parse semver (orElseText o.version Options.defaultMslVersion)).mapError
      .badVersion
  let data ← commonData o.toCommonOptions
  return {
    passes := [Planes.pass, Rebind.pass, Unreachable.pass, Promote.pass, Rename.pass]
    data := data.put .renaming { target := .msl }
    header := "#include <metal_stdlib>" }

def spirv (o : SpirvOptions) : Except BackendProblem Plan := do
  let data ← commonData o.toCommonOptions
  return { passes := [Planes.pass, Rebind.pass, Unreachable.pass], data }

/-- The plan for a target. -/
def of (semver : Semver) (p : Program) (o : Options) : Backend → Except BackendProblem Plan
  | .glsl => glsl semver p o.glsl
  | .hlsl => hlsl o.hlsl
  | .msl => msl semver o.msl
  | .spirv => spirv o.spirv
  | backend => .error (.unknownBackend backend)

end Plan

structure EntryPointSummary where
  name : String
  stage : PipelineStage
  /-- All zero unless the stage is compute. -/
  workgroup : UInt32 × UInt32 × UInt32 := (0, 0, 0)
  deriving Repr

def EntryPointSummary.of (f : FunctionFacts) : EntryPointSummary :=
  if f.stage = .compute then ⟨f.name, f.stage, f.workgroup⟩ else ⟨f.name, f.stage, (0, 0, 0)⟩

/-- A prepared program. If a pass failed it is the last good program with the errors. -/
structure Sanitized where
  backend : Backend
  program : Program
  data : Data
  entryPoints : List EntryPointSummary
  header : String

/-- What went wrong for a target. -/
inductive SanitizeError where
  | invalidInput (backend : Backend) (errors : Diagnostics)
  | refused (backend : Backend) (problem : BackendProblem)
  | failed (backend : Backend) (errors : Diagnostics)

namespace SanitizeError

def failedText (backend : Backend) (errors : Diagnostics) : String :=
  s!"{backend.text} sanitizer failed:\n{errors.text}"

def toFailure : SanitizeError → Failure
  | .invalidInput backend errors =>
    .wrapped s!"{backend.text} sanitizer: invalid input program"
      (.plain (failedText backend errors))
  | .refused backend problem => .wrapped s!"{backend.text} sanitizer" (.fault problem.toFault)
  | .failed backend errors => .plain (failedText backend errors)

/-- The diagnostics to show, if it is the program that is at fault. -/
def diagnostics? : SanitizeError → Option Diagnostics
  | .invalidInput _ errors => some errors
  | .refused _ _ => none
  | .failed _ errors => some errors

end SanitizeError

/-- A run for a target: its log, what came out, and what went wrong. -/
structure SanitizeRun where
  log : Log := []
  result : Option Sanitized := none
  error : Option SanitizeError := none

/-- Prepares a program for a target. -/
def sanitize (semver : Semver) (p : Program) (o : Options) (backend : Backend) :
    Except Misuse SanitizeRun :=
  if !p.valid then .ok { error := some (.invalidInput backend p.diagnostics.errors) }
  else
    match Plan.of semver p o backend with
    | .error problem => .ok { error := some (.refused backend problem) }
    | .ok plan => do
      let (log, out) := Pipeline.run (plan.passes.map Pass.toTransform) p plan.data
      let out ← out
      let q := out.program
      let entryPoints := if q.valid then q.facts.entryPointFacts.map EntryPointSummary.of else []
      return {
        log
        result := some ⟨backend, q, out.data, entryPoints, plan.header⟩
        error := if q.valid then none else some (.failed backend q.diagnostics.errors) }

end ShaderLoom
