import ShaderLoom.Text.Path

/-! What the command needs from its surroundings: files, two output streams and a clock. -/
namespace ShaderLoom.Command

inductive FileAction where
  | open
  | read
  | makeDirectory
  deriving DecidableEq, Repr

def FileAction.text : FileAction → String
  | .open => "open"
  | .read => "read"
  | .makeDirectory => "mkdir"

inductive FileReason where
  | notFound
  | notDirectory
  | isDirectory
  | taken
  | nameTooLong
  | badPath
  | other (text : String)
  deriving DecidableEq, Repr

def FileReason.text : FileReason → String
  | .notFound => "no such file or directory"
  | .notDirectory => "not a directory"
  | .isDirectory => "is a directory"
  | .taken => "file exists"
  | .nameTooLong => "file name too long"
  | .badPath => "invalid argument"
  | .other t => t

/-- What could not be done, to which path, and why. -/
structure FileProblem where
  action : FileAction
  path : String
  reason : FileReason
  deriving DecidableEq, Repr

def FileProblem.text (p : FileProblem) : String := s!"{p.action.text} {p.path}: {p.reason.text}"

/-- The time of day, `15:04:05`, of a second counted from a midnight. -/
def timeOfDay (second : Nat) : String :=
  let two (n : Nat) : String := if n < 10 then s!"0{n}" else s!"{n}"
  s!"{two (second / 3600 % 24)}:{two (second / 60 % 60)}:{two (second % 60)}"

structure Host (m : Type → Type) where
  read : String → m (Except FileProblem String)
  write : String → String → m (Except FileProblem Unit)
  /-- Makes a directory and those it is in, unless they exist. -/
  makeDirectories : String → m (Except FileProblem Unit)
  out : String → m Unit
  err : String → m Unit
  /-- The time of day. -/
  time : m String

end ShaderLoom.Command
