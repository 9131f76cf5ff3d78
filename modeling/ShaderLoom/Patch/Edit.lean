/-! Edit scripts between two lists of lines. A table of longest common subsequence lengths of all
pairs of suffixes tells which way keeps more lines. -/
namespace ShaderLoom.Patch

inductive Change where
  | context
  | added
  | removed
  deriving DecidableEq, Repr

/-- One step, with the places in both lists at which it is taken, counted from zero. -/
structure Edit where
  change : Change
  before : Nat
  after : Nat
  deriving DecidableEq, Repr

/-- One row of the table: the line `x` and what follows it in the first list, against every suffix
of the second. `below` is the row without `x`. -/
def row (x : String) : List String → List Nat → List Nat
  | [], _ => [0]
  | y :: ys, below =>
    let rest := row x ys (below.drop 1)
    let value := if x = y then (below.drop 1).headD 0 + 1 else max (below.headD 0) (rest.headD 0)
    value :: rest

/-- All rows, that of the whole first list first. -/
def rows (a b : List String) : List (List Nat) :=
  a.foldr (fun x table => row x b (table.headD []) :: table) [List.replicate (b.length + 1) 0]

/-- The length of a longest common subsequence of the suffixes from `i` and `j` on. -/
def common (table : Array (Array Nat)) (i j : Nat) : Nat := ((table[i]?.getD #[])[j]?).getD 0

/-- Keeps equal lines; else takes a line away if that loses no more than adding one. -/
def walk (table : Array (Array Nat)) : List String → List String → Nat → Nat → List Edit
  | [], bs, i, j => bs.mapIdx fun k _ => ⟨.added, i, j + k⟩
  | as, [], i, j => as.mapIdx fun k _ => ⟨.removed, i + k, j⟩
  | x :: as, y :: bs, i, j =>
    if x = y then ⟨.context, i, j⟩ :: walk table as bs (i + 1) (j + 1)
    else if common table i (j + 1) ≤ common table (i + 1) j then
      ⟨.removed, i, j⟩ :: walk table as (y :: bs) (i + 1) j
    else ⟨.added, i, j⟩ :: walk table (x :: as) bs i (j + 1)
termination_by as bs => as.length + bs.length

/-- A shortest script that turns `a` into `b`. -/
def edits (a b : List String) : List Edit :=
  walk ((rows a b).map List.toArray).toArray a b 0 0

end ShaderLoom.Patch
