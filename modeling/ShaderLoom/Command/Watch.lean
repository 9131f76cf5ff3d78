import ShaderLoom.Text.Path

/-! Which changes in the file system call for another run. -/
namespace ShaderLoom.Watch

inductive Change where
  | create
  | write
  | remove
  | rename
  | chmod
  deriving DecidableEq, Repr

/-- A path as seen from a directory. -/
def absolute (here path : String) : String :=
  if path.startsWith "/" then Path.clean path else Path.join here path

/-- The files to watch: the paths that are not empty, each once. -/
def files (here : String) (paths : List String) : List String :=
  ((paths.filter (!·.isEmpty)).map (absolute here)).eraseDups

/-- Writing, creating and renaming a watched file count; a changed mode or a removal does not. -/
def relevant (here : String) (watched : List String) (path : String) (changes : List Change) :
    Bool :=
  changes.any (fun c => c == .write || c == .create || c == .rename) &&
    watched.contains (absolute here path)

end ShaderLoom.Watch
