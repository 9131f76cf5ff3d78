import ShaderLoom.Command.Environment
import ShaderLoom.Command.Flags
import ShaderLoom.Command.Run
import ShaderLoom.Command.Watch
import Std.Time.DateTime.Timestamp

/-! The command: settings from the command line and the environment, one run over the files of the
machine, and, if asked for, another run whenever a file that was read changes. -/
namespace ShaderLoom.Command

def reasonOf : IO.Error → FileReason
  | .noFileOrDirectory _ _ _ => .notFound
  | .inappropriateType _ code details =>
    if code == 20 then .notDirectory else if code == 21 then .isDirectory else .other details
  | .alreadyExists _ _ _ => .taken
  | .invalidArgument _ code details =>
    if code == 22 then .badPath else if code == 36 then .nameTooLong else .other details
  | e => .other (toString e)

/-- Turns what goes wrong with a file into a problem with its path. -/
def attempt {α : Type} (problem : FileReason → FileProblem) (act : IO α) :
    IO (Except FileProblem α) := do
  try
    return .ok (← act)
  catch e => return .error (problem (reasonOf e))

def readProblem (path : String) (reason : FileReason) : FileProblem :=
  ⟨if reason = .isDirectory then .read else .open, path, reason⟩

def machine : Host IO where
  read path := attempt (readProblem path) (IO.FS.readFile path)
  write path text := attempt (⟨.open, path, ·⟩) (IO.FS.writeFile path text)
  makeDirectories path := attempt (⟨.makeDirectory, path, ·⟩) (IO.FS.createDirAll path)
  out text := do (← IO.getStdout).putStr text
  err text := do (← IO.getStderr).putStr text
  time := do
    let now ← Std.Time.Timestamp.now
    return timeOfDay now.toSecondsSinceUnixEpoch.val.toNat

def complain (job : Job) (text : String) : IO Unit := do
  let _ ← (say machine job .error text).run

/-- One run; the answer is the exit code. -/
def runOnce (job : Job) : IO UInt32 := do
  match ← (run machine job .standard).run with
  | .ok () => return 0
  | .error problem =>
    complain job problem.text
    return 1

/-- The texts of the watched files, none for a file that cannot be read. -/
def contents (files : List String) : IO (List (Option String)) :=
  files.mapM fun path => do return (← machine.read path).toOption

/-- Runs again whenever a watched file has another text than before. -/
partial def watchFrom (job : Job) (files : List String) (before : List (Option String)) :
    IO UInt32 := do
  IO.sleep 150
  let now ← contents files
  if now != before then
    let _ ← (say machine job .info "re-running after change").run
    let _ ← runOnce job
  watchFrom job files now

def watch (job : Job) : IO UInt32 := do
  let here := toString (← IO.currentDir)
  let files := Watch.files here [job.input, job.config]
  let before ← contents files
  let _ ← runOnce job
  watchFrom job files before

def fail (text : String) : IO UInt32 := do
  IO.eprintln s!"Error: {text}"
  return 1

def version : String := "0.3.0"

def buildDate : String := "2025-09-30"

def printVersion (asJson : Bool) : IO Unit :=
  if asJson then
    IO.println (Json.indented 0 (.obj [("tool", .str "prism"), ("version_info",
      .obj [("version", .str version), ("build_date", .str buildDate)])]))
  else IO.println s!"prism v{version}\nBuild Date: {buildDate}"

def variableOf (name : String) : IO (String × Option String) := do return (name, ← IO.getEnv name)

/-- The settings of the environment. -/
def environment : IO (Except Failure Environment) := do
  let values ← [Environment.maxConcurrencyName, Environment.verboseName, Environment.debugName,
    Environment.colorName].mapM variableOf
  return Environment.load (fun name => (values.lookup name).join) 1

def runWith (flags : Flags) (input : String) : IO UInt32 := do
  match ← environment with
  | .error e => fail e.text
  | .ok env =>
    match Backend.parseList flags.backends with
    | .error e => fail e.toFault.text
    | .ok backends =>
      let terminal ← (← IO.getStderr).isTty
      let job : Job := {
        input, backends, config := flags.config, out := flags.out, dump := flags.dump
        diff := flags.diff, seed := flags.seed, color := env.color.useColor terminal
        verbose := flags.verbose || env.verbose, debug := flags.debug || env.debug }
      if flags.watch then watch job else runOnce job

def start (words : List String) : IO UInt32 := do
  match Flags.read {} words with
  | .error .help =>
    IO.eprint usage
    return 0
  | .error problem =>
    IO.eprint (problem.text ++ "\n" ++ usage)
    return 2
  | .ok (flags, operands) =>
    if flags.version then
      printVersion flags.json
      return 0
    match operands with
    | [input] => runWith flags input
    | _ =>
      IO.eprint usage
      return 2

end ShaderLoom.Command

def main (words : List String) : IO UInt32 := ShaderLoom.Command.start words
