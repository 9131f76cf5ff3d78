import ShaderLoom.Backend.OptionsText
import ShaderLoom.Backend.Sanitize
import ShaderLoom.Command.Host
import ShaderLoom.Document.Decode
import ShaderLoom.Document.Writer
import ShaderLoom.Patch.Hunk
import ShaderLoom.Pass.Shuffle
import ShaderLoom.Print.Shader

/-! One run of the command: load a module, prepare it for each target, and show or write what came
out. -/
namespace ShaderLoom.Command

structure Job where
  input : String
  /-- A file of options, none if empty. -/
  config : String := ""
  /-- The directory for prepared modules, none if empty. -/
  out : String := ""
  backends : List Backend := []
  dump : Bool := false
  diff : Bool := false
  color : Bool := false
  verbose : Bool := false
  debug : Bool := false
  /-- Declarations are shuffled unless it is negative. -/
  seed : Int := -1

/-- Why a run as a whole ended early. -/
inductive RunProblem where
  | openModule (problem : FileProblem)
  | readModule (input : String) (problem : FileProblem)
  | unreadableModule (input : String) (reason : Document.Unreadable)
  | decodeModule (input : String) (problem : Document.DecodeError)
  /-- Resolution of the module never ends: the run dies of it. -/
  | endlessModule (input : String)
  | invalidModule (input : String)
  | shuffleFailed (input : String)
  | readOptions (problem : FileProblem)
  | unreadableOptions (reason : Document.Unreadable)
  | outputDirectory (problem : FileProblem)
  | write (path : String) (problem : FileProblem)
  | misuse (reason : Misuse)
  | backendsFailed

def RunProblem.text : RunProblem → String
  | .openModule problem => "open module: " ++ problem.text
  | .readModule input problem => input ++ ": decode module: " ++ problem.text
  | .unreadableModule input reason => s!"{input}: decode module: {reason.text}"
  | .decodeModule input problem => input ++ ": " ++ problem.toFault.text
  | .endlessModule input => input ++ ": " ++ Resolve.endless
  | .invalidModule input => input ++ ": invalid module"
  | .shuffleFailed input => input ++ ": shuffle failed"
  | .readOptions problem => "read sanitizer options: " ++ problem.text
  | .unreadableOptions reason => "parse sanitizer options: " ++ reason.text
  | .outputDirectory problem => "create output directory: " ++ problem.text
  | .write path problem => s!"write {path}: {problem.text}"
  | .misuse reason => reason.message
  | .backendsFailed => "one or more backends failed"

inductive Level where
  | debug
  | info
  | error
  deriving DecidableEq, Repr

def Level.text : Level → String
  | .debug => "DEBUG"
  | .info => "INFO"
  | .error => "ERROR"

/-- Debugging shows everything, a verbose run all but that, and errors are always shown. -/
def Job.shows (job : Job) : Level → Bool
  | .debug => job.debug
  | .info => job.verbose || job.debug
  | .error => true

/-- The steps of a run, which a problem may end. -/
abbrev Run (m : Type → Type) := ExceptT RunProblem m

section

variable {m : Type → Type} [Monad m] (host : Host m) (job : Job)

def say (level : Level) (text : String) : Run m Unit := do
  if job.shows level then
    let time ← host.time
    host.err s!"[{level.text}] {time}: {text}\n"

def sayLine (line : LogLine) : Run m Unit :=
  say host job (match line.level with
    | .debug => .debug
    | .info => .info) line.text

def sayAll (log : Log) : Run m Unit := log.forM (sayLine host job)

/-- The program of the module file. -/
def loadModule : Run m Program := do
  match ← host.read job.input with
  | .error problem =>
    throw (if problem.action = .open then .openModule problem else .readModule job.input problem)
  | .ok text =>
    match Document.Module.parse text with
    | .error reason => throw (.unreadableModule job.input reason)
    | .ok document =>
      match document.read with
      | .error (.refused problem) => throw (.decodeModule job.input problem)
      | .error .endless => throw (.endlessModule job.input)
      | .ok p => return p

/-- Shuffles the declarations of a program if the job says so. -/
def shuffled (p : Program) : Run m Program := do
  if job.seed < 0 then return p
  let data : Data := Exchange.put {} .shuffling (UInt64.ofNat job.seed.toNat)
  let (log, out) := Pipeline.run [Shuffle.pass.toTransform] p data
  sayAll host job log
  match out with
  | .error reason => throw (.misuse reason)
  | .ok out =>
    if out.program.valid then return out.program
    host.err (out.program.diagnostics.render job.color)
    throw (.shuffleFailed job.input)

def load : Run m Program := do
  let p ← loadModule host job
  unless p.valid do
    host.err (p.diagnostics.render job.color)
    throw (.invalidModule job.input)
  say host job .debug s!"loaded {job.input}: {p.globals.length} declarations"
  shuffled host job p

def loadOptions : Run m Options := do
  if job.config.isEmpty then return {}
  match ← host.read job.config with
  | .error problem => throw (.readOptions problem)
  | .ok text =>
    match Options.parse text with
    | .error reason => throw (.unreadableOptions reason)
    | .ok options => return options

def sanitizeFor (semver : Semver) (p : Program) (options : Options) (backend : Backend) :
    Run m SanitizeRun := do
  say host job .info s!"sanitizing for {backend.text}"
  match sanitize semver p options backend with
  | .error reason => throw (.misuse reason)
  | .ok run =>
    sayAll host job run.log
    return run

/-- Writes a prepared module beside those for other targets and answers with its path. -/
def writeModule (backend : Backend) (p : Program) : Run m String := do
  if let .error problem ← host.makeDirectories job.out then throw (.outputDirectory problem)
  let name := Path.base job.input
  let stem := (name.dropSuffix (Path.extension job.input)).toString
  let path := Path.join job.out s!"{stem}.{backend.text}.json"
  if let .error problem ← host.write path (Document.textOf p ++ "\n") then
    throw (.write path problem)
  return path

/-- Shows and writes what came out for one target. -/
def reportResult (input : Program) (res : Sanitized) : Run m Unit := do
  let backend := res.backend
  let names := ", ".intercalate (res.entryPoints.map (·.name))
  say host job .info s!"{backend.text}: entry points [{names}]"
  if job.dump then
    host.out s!"// {backend.text}\n"
    unless res.header.isEmpty do host.out (res.header ++ "\n")
    host.out res.program.text
  if job.diff then
    let name := s!"{Path.base job.input}:{backend.text}"
    host.out (Patch.diff name input.text res.program.text {})
  unless job.out.isEmpty do
    let path ← writeModule host job backend res.program
    say host job .info s!"wrote {path}"

/-- Reports one target, and answers whether it succeeded. -/
def report (input : Program) (backend : Backend) (run : SanitizeRun) : Run m Bool := do
  match run.error, run.result with
  | some e, _ =>
    match e.diagnostics? with
    | some ds =>
      host.err s!"{backend.text}:\n"
      host.err (ds.render job.color)
    | none => say host job .error s!"{backend.text}: {e.toFailure.text}"
    return false
  | none, some res =>
    reportResult host job input res
    return true
  | none, none => return true

/-- The whole run. All targets are prepared before the first is reported. -/
def run (semver : Semver) : Run m Unit := do
  let p ← load host job
  let options ← loadOptions host job
  let runs ← job.backends.mapM fun b => do return (b, ← sanitizeFor host job semver p options b)
  let good ← runs.mapM fun (b, r) => report host job p b r
  unless good.all id do throw .backendsFailed

end

end ShaderLoom.Command
