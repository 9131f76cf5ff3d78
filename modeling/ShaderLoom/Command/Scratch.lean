import ShaderLoom.Command.Host

/-! Files in memory. Directories are the paths that lead to files, together with those that were
made; every path starts in the same directory. -/
namespace ShaderLoom.Command

structure Scratch where
  files : List (List String × String) := []
  directories : List (List String) := []
  out : String := ""
  err : String := ""

namespace Scratch

/-- What a path leads to. -/
inductive Entry where
  | file (content : String)
  | directory
  | missing
  deriving DecidableEq, Repr

/-- The bytes that one element of a path may have. -/
def maxName : Nat := 255

/-- The bytes that a path may not reach. -/
def maxPath : Nat := 4096

def isDirectory (s : Scratch) (place : List String) : Bool :=
  place.isEmpty || s.directories.contains place ||
    s.files.any fun (p, _) => place.isPrefixOf p && place.length < p.length

def entry (s : Scratch) (place : List String) : Entry :=
  match s.files.lookup place with
  | some content => .file content
  | none => if s.isDirectory place then .directory else .missing

/-- Follows the elements of a path from a place, and answers with where they lead and what is there.
Only a directory leads on, also with an empty element, which a slash at the end makes. -/
def follow (s : Scratch) (place : List String) :
    List String → Except FileReason (List String × Entry)
  | [] => .ok (place, s.entry place)
  | e :: rest =>
    match s.entry place with
    | .file _ => .error .notDirectory
    | .missing => .error .notFound
    | .directory =>
      if e == "" || e == "." then s.follow place rest
      else if e == ".." then s.follow place.dropLast rest
      else if maxName < e.utf8ByteSize then .error .nameTooLong
      else s.follow (place ++ [e]) rest

/-- Why a text is no path, if it is none. -/
def refused? (path : String) : Option FileReason :=
  if path.contains (Char.ofNat 0) then some .badPath
  else if path.isEmpty then some .notFound
  else if maxPath ≤ path.utf8ByteSize then some .nameTooLong
  else none

def find (s : Scratch) (path : String) : Except FileReason (List String × Entry) :=
  match refused? path with
  | some reason => .error reason
  | none => s.follow [] (path.splitOn "/")

def read (path : String) : StateM Scratch (Except FileProblem String) := do
  match (← get).find path with
  | .ok (_, .file content) => return .ok content
  | .ok (_, .directory) => return .error ⟨.read, path, .isDirectory⟩
  | .ok (_, .missing) => return .error ⟨.open, path, .notFound⟩
  | .error reason => return .error ⟨.open, path, reason⟩

def put (s : Scratch) (place : List String) (content : String) : Scratch :=
  { s with files := (place, content) :: s.files.filter fun f => f.1 != place }

def write (path content : String) : StateM Scratch (Except FileProblem Unit) := do
  let s ← get
  match s.find path with
  | .ok (_, .directory) => return .error ⟨.open, path, .isDirectory⟩
  | .error reason => return .error ⟨.open, path, reason⟩
  | .ok (place, _) =>
    set (s.put place content)
    return .ok ()

/-- Makes one directory in another that is there. -/
def makeDirectory (s : Scratch) (path : String) : Except FileReason Scratch := do
  if let some reason := refused? path then throw reason
  let elements := (path.splitOn "/").filter (!·.isEmpty)
  let (place, _) ← s.follow [] (elements.dropLast ++ ["."])
  let name := elements.getLast?.getD "."
  if name == "." || name == ".." then throw .taken
  if maxName < name.utf8ByteSize then throw .nameTooLong
  match s.entry (place ++ [name]) with
  | .missing => return { s with directories := s.directories ++ [place ++ [name]] }
  | _ => throw .taken

/-- Makes a directory after those that it is in. Those that could be made stay when the next
cannot. -/
def makeFrom : Nat → String → StateM Scratch (Except FileProblem Unit)
  | 0, _ => return .ok ()
  | fuel + 1, path => do
    match (← get).find path with
    | .ok (_, .directory) => return .ok ()
    | .ok (_, .file _) => return .error ⟨.makeDirectory, path, .notDirectory⟩
    | _ =>
      let parent := Path.parent path
      unless parent.isEmpty do
        if let .error problem ← makeFrom fuel parent then return .error problem
      let s ← get
      match s.makeDirectory path, s.find path with
      | .ok s, _ =>
        set s
        return .ok ()
      | .error _, .ok (_, .directory) => return .ok ()
      | .error reason, _ => return .error ⟨.makeDirectory, path, reason⟩

def makeDirectories (path : String) : StateM Scratch (Except FileProblem Unit) :=
  makeFrom (path.length + 1) path

def host (time : String) : Host (StateM Scratch) where
  read
  write
  makeDirectories
  out text := modify fun s => { s with out := s.out ++ text }
  err text := modify fun s => { s with err := s.err ++ text }
  time := return time

/-- The files in a directory, but not in those below it. -/
def filesIn (s : Scratch) (path : String) : List (String × String) :=
  match s.find path with
  | .ok (place, .directory) => s.files.filterMap fun (p, content) =>
    if p.dropLast = place ∧ p ≠ [] then p.getLast?.map (·, content) else none
  | _ => []

def ofFiles (files : List (String × String)) : Scratch :=
  { files := files.map fun (path, content) => ((Path.clean path).splitOn "/", content) }

end Scratch
end ShaderLoom.Command
