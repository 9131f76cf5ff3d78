import ShaderLoom.Copy.Engine
import ShaderLoom.Pass.Data

/-! Passes turn a program into another by copying it. A pass says whether it has anything to do, and
running it ends in a finished copy, in a failure, or in a misuse. -/
namespace ShaderLoom

/-- Why a pass cannot do its work. -/
inductive PassProblem where
  | missingData (pass : String)
  | missingPlaneData (pass : String)
  | unboundTexture (name : String)
  | missingPlanes (point : BindingPoint)
  | accessNotStorage (name : String) (space : AddressSpace)
  | collision (entryPoint first second : String) (point : BindingPoint)
  | entryPointNotFound (name : String)
  | hoistOutsideFunction (id : NodeId)
  | hoistUnknownStatement (id : NodeId)
  | hoistUnsupportedPosition (kind : String) (id : NodeId)
  deriving DecidableEq, Repr

def PassProblem.toFault : PassProblem → Fault
  | .missingData pass =>
    .configuration "MISSING_TRANSFORM_DATA" s!"missing transform data for {pass}"
  | .missingPlaneData pass =>
    .configuration "MISSING_TRANSFORM_DATA" s!"missing new binding point data for {pass}"
  | .unboundTexture name =>
    .input "MISSING_BINDING_POINTS" s!"texture_external variable '{name}' has no binding point"
  | .missingPlanes point =>
    .input "MISSING_BINDING_POINTS"
      s!"missing new binding points for texture_external at binding {point.text}"
  | .accessNotStorage name space =>
    .input "ACCESS_CONTROL_NOT_STORAGE"
      s!"cannot apply access control to variable '{name}' in the {space.text} address space"
  | .collision entryPoint first second point =>
    let uses := s!"'{first}' and '{second}' both use {point.text}"
    .input "BINDING_POINT_COLLISION"
      s!"binding point collision in entry point '{entryPoint}': {uses}"
  | .entryPointNotFound name => .input "ENTRY_POINT_NOT_FOUND" s!"entry point '{name}' not found"
  | .hoistOutsideFunction id =>
    .input "HOIST_OUTSIDE_FUNCTION" s!"expression {id} is not inside a statement"
  | .hoistUnknownStatement id =>
    .input "HOIST_UNKNOWN_STATEMENT" s!"statement {id} is not part of the program"
  | .hoistUnsupportedPosition kind id =>
    .input "HOIST_UNSUPPORTED_POSITION" s!"cannot insert a statement before {kind} node {id}"

def PassProblem.toFailure (p : PassProblem) : Failure := .fault p.toFault

inductive Ending where
  /-- The target, and whether the module was copied into it. -/
  | finished (target : Builder) (copied : Bool)
  | failed (reason : Failure)
  | misused (reason : Misuse)

section

variable (κ : Type) (π : κ → Type)

/-- What a run puts out, and how it ends. -/
structure Result where
  outputs : Exchange κ π := {}
  ending : Ending

/-- A program with what was put out on the way to it. -/
structure Outcome where
  program : Program
  data : Exchange κ π

/-- Anything that can stand in a pipeline. It is handed the inputs themselves, when it is asked
whether it has anything to do and when it is run, and may change them under the hands of whoever
comes after it. -/
structure Transform where
  name : String
  shouldRun : Program → Exchange κ π → Bool × Exchange κ π
  run : Program → Exchange κ π → Result κ π × Exchange κ π

end

section

variable {κ : Type} {π : κ → Type}

/-- The program that comes of a run on another one. A failure becomes a diagnostic of the program as
it was. -/
def Result.outcome (r : Result κ π) (name : String) (p : Program) : Except Misuse (Outcome κ π) :=
  match r.ending with
  | .misused m => .error m
  | .failed e =>
    .ok ⟨p.withDiagnostics [Diagnostic.errorAt .transform e.diagnosticText {}], r.outputs⟩
  | .finished target copied =>
    if copied then .ok ⟨target.build, r.outputs⟩ else .error (.moduleNotCopied name)

/-- Runs a transform whether or not it has anything to do, and answers with the inputs as it leaves
them. An invalid program is handed back. -/
def Transform.apply (t : Transform κ π) (p : Program) (inputs : Exchange κ π) :
    Except Misuse (Outcome κ π) × Exchange κ π :=
  if !p.valid then (.ok ⟨p, {}⟩, inputs)
  else
    let (r, left) := t.run p inputs
    (r.outcome t.name p, left)

end

abbrev PassResult := Result Topic Payload

abbrev Output := Outcome Topic Payload

/-- A transform of the library's own. It reads its inputs and leaves them alone. -/
structure Pass where
  name : String
  shouldRun : Program → Data → Bool
  run : Program → Data → PassResult

/-- What ends the work of a pass early. -/
inductive Stop where
  | misuse (reason : Misuse)
  | problem (reason : PassProblem)
  deriving DecidableEq, Repr

/-- The work of a pass: steps of a session that may fail. -/
abbrev Work (κ σ : Type) := EStateM Stop (Copy.Session κ σ)

namespace Work

variable {κ σ α : Type}

def edit (step : Copy.Edit κ σ α) : Work κ σ α := fun s =>
  match step s with
  | .ok a s => .ok a s
  | .error m s => .error (.misuse m) s

def build (step : Build α) : Work κ σ α := edit (Copy.Edit.build step)

def fail (p : PassProblem) : Work κ σ α := throw (.problem p)

/-- The payload of a topic, without which the pass cannot work. -/
def need {π : Type} (problem : PassProblem) : Option π → Work κ σ π
  | some x => pure x
  | none => fail problem

/-- Runs the steps of a pass on a session of its own. What they answer is the pass's output. -/
def perform (work : Work κ σ Data) (p : Program) (state : σ) : PassResult :=
  match work (Copy.Session.start p state) with
  | .ok outputs s => { outputs, ending := .finished s.target s.copied }
  | .error (.problem problem) _ => { ending := .failed problem.toFailure }
  | .error (.misuse misuse) _ => { ending := .misused misuse }

end Work

namespace Pass

def toTransform (t : Pass) : Transform Topic Payload where
  name := t.name
  shouldRun p inputs := (t.shouldRun p inputs, inputs)
  run p inputs := (t.run p inputs, inputs)

/-- Runs a pass whether or not it has anything to do. An invalid program is handed back. -/
def apply (t : Pass) (p : Program) (inputs : Data) : Except Misuse Output :=
  if !p.valid then .ok ⟨p, {}⟩ else (t.run p inputs).outcome t.name p

end Pass
end ShaderLoom
