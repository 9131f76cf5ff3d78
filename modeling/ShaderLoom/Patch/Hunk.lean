import ShaderLoom.Patch.Edit
import ShaderLoom.Text.Split

/-! Differences of two texts, cut into hunks. Changes with at most twice the context between them
share a hunk, and a hunk shows the context on both its sides. -/
namespace ShaderLoom.Patch

structure Line where
  change : Change
  number : Nat
  content : String
  deriving DecidableEq, Repr

structure Hunk where
  beforeStart : Nat
  beforeCount : Nat
  afterStart : Nat
  afterCount : Nat
  lines : List Line
  deriving DecidableEq, Repr

def Hunk.header (h : Hunk) : String :=
  s!"@@ -{h.beforeStart},{h.beforeCount} +{h.afterStart},{h.afterCount} @@"

/-- Arithmetic in 64 bits with a sign. -/
def word (n : Int) : Int := Int.bmod n (1 <<< 64)

/-- Places of changes that share a hunk, as first and last place. -/
def groups (context : Int) : List Nat → List (Nat × Nat)
  | [] => []
  | k :: rest =>
    match groups context rest with
    | [] => [(k, k)]
    | (first, last) :: more =>
      if (first : Int) - k - 1 ≤ word (2 * context) then (k, last) :: more
      else (k, k) :: (first, last) :: more

def lineOf (a b : Array String) (e : Edit) : Line :=
  match e.change with
  | .added => ⟨.added, e.after + 1, b[e.after]?.getD ""⟩
  | c => ⟨c, e.before + 1, a[e.before]?.getD ""⟩

/-- The hunk around the changes from place `first` to place `last` of the script. -/
def hunkOf (script : List Edit) (a b : Array String) (context : Int) (group : Nat × Nat) : Hunk :=
  let start := (max 0 (word ((group.1 : Int) - context))).toNat
  let stop := (min (script.length : Int) (word ((group.2 : Int) + context + 1))).toNat
  let part := (script.take stop).drop start
  let head := (script.drop start).headD ⟨.context, 0, 0⟩
  { beforeStart := head.before + 1
    beforeCount := (part.filter (·.change != .added)).length
    afterStart := head.after + 1
    afterCount := (part.filter (·.change != .removed)).length
    lines := part.map (lineOf a b) }

def hunks (a b : List String) (context : Int) : List Hunk :=
  let script := edits a b
  let changed := (script.zipIdx.filter (·.1.change != .context)).map (·.2)
  (groups context changed).map (hunkOf script a.toArray b.toArray context)

/-- How much context is shown, and whether lines are numbered. -/
structure Options where
  context : Int := 3
  numbers : Bool := false

/-- The hunks between two texts. -/
def between (before after : String) (options : Options) : List Hunk :=
  hunks (Lines.split before) (Lines.split after) options.context

def count (change : Change) (hs : List Hunk) : Nat :=
  (hs.flatMap (·.lines)).countP (·.change == change)

def sign : Change → String
  | .context => " "
  | .added => "+"
  | .removed => "-"

def padded (n : Nat) : String :=
  let t := toString n
  String.ofList (List.replicate (4 - t.length) ' ') ++ t

def Line.text (l : Line) (numbers : Bool) : String :=
  sign l.change ++ (if numbers then padded l.number ++ ": " else "") ++ l.content ++ "\n"

/-- The difference as text, empty if there is none. -/
def unified (name : String) (hs : List Hunk) (options : Options) : String :=
  if hs.isEmpty then ""
  else
    "--- " ++ name ++ "\t(before)\n+++ " ++ name ++ "\t(after)\n" ++
      String.join (hs.map fun h =>
        h.header ++ "\n" ++ String.join (h.lines.map (·.text options.numbers)))

/-- The difference of two texts as text. -/
def diff (name before after : String) (options : Options) : String :=
  unified name (between before after options) options

end ShaderLoom.Patch
