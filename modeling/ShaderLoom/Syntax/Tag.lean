import ShaderLoom.Report.Misuse

/-! Tags tell what a value is. A tag knows its base, so that asking whether a value is a statement
is a walk from its tag towards the root. A register gives every key one tag. -/
namespace ShaderLoom

/-- A tag is the root or stands below another tag. The key tells tags of one name apart. -/
inductive Tag where
  | root
  | derived (key name : String) (base : Tag)
  deriving DecidableEq, Repr, Inhabited

namespace Tag

def name : Tag → String
  | root => "Castable"
  | derived _ name _ => name

def key : Tag → String
  | root => "Castable"
  | derived key _ _ => key

def base? : Tag → Option Tag
  | root => none
  | derived _ _ base => some base

/-- The number of steps to the root. -/
def depth : Tag → Nat
  | root => 0
  | derived _ _ base => base.depth + 1

/-- The tag itself and all it stands below. -/
def chain : Tag → List Tag
  | root => [root]
  | derived key name base => derived key name base :: base.chain

/-- Does the tag equal `target` or stand below it? A tag nearer to the root never does. -/
def is (t target : Tag) : Bool :=
  if t.depth < target.depth then false else t.chain.contains target

/-- One of the two stands below the other, or they are equal. -/
def related (a b : Tag) : Bool := a.is b || b.is a

theorem depth_le_of_mem_chain {t u : Tag} (h : u ∈ t.chain) : u.depth ≤ t.depth := by
  induction t with
  | root => simp_all [chain]
  | derived key name base ih =>
    rcases List.mem_cons.1 h with rfl | h
    · exact Nat.le_refl _
    · exact Nat.le_succ_of_le (ih h)

/-- The shortcut by depth never refuses a tag of the chain. -/
theorem is_iff_mem_chain {t u : Tag} : t.is u ↔ u ∈ t.chain := by
  unfold is
  split
  · simp only [Bool.false_eq_true, false_iff]
    intro h
    have := depth_le_of_mem_chain h
    omega
  · simp

end Tag

/-- The tags given out so far, by key. -/
structure TagRegister where
  tags : List (String × Tag) := [("Castable", .root)]

namespace TagRegister

def get? (r : TagRegister) (key : String) : Option Tag := (r.tags.find? (·.1 == key)).map (·.2)

/-- The tag of a key; a key without one is a mistake of the caller. -/
def tagOf (r : TagRegister) (key : String) : Except Misuse Tag :=
  match r.get? key with
  | some t => .ok t
  | none => .error .unknownTag

/-- Gives a key its tag below `base`. A key gets a tag once. -/
def register (r : TagRegister) (key name : String) (base : Tag) :
    Except Misuse (Tag × TagRegister) :=
  match r.get? key with
  | some _ => .error .duplicateTag
  | none => .ok (.derived key name base, ⟨r.tags ++ [(key, .derived key name base)]⟩)

end TagRegister

/-- A cast from one tag to another succeeds for some value only if the two are related. -/
def Tag.checkCast (target static : Tag) : Except Misuse Unit :=
  if target.related static then .ok () else .error (.impossibleCast static.name target.name)

/-- A value with its tag. The tag may promise a family that the value does not keep to. -/
structure Tagged where
  tag : Tag
  keeps : Tag → Bool := fun _ => true

namespace Tagged

/-- The value as one of a family; none if it is not of the family. A promise that the value does not
keep is a mistake of whoever gave it its tag. -/
def viewAs (v : Tagged) (target : Tag) : Except Misuse (Option Tag) :=
  if !v.tag.is target then .ok none
  else if v.keeps target then .ok (some v.tag)
  else .error .tagMismatch

/-- A value that is only known to be of the family `static`; a value outside of it is none. -/
def knownAs (static : Tag) (v : Option Tagged) : Option Tagged :=
  v.filter fun v => v.tag.is static && v.keeps static

/-- The test for a family where it can come out both ways. -/
def strictIs (target static : Tag) (v : Option Tagged) : Except Misuse Bool := do
  target.checkCast static
  return (knownAs static v).any (·.tag.is target)

/-- The view as a family where it can come out both ways. -/
def strictAs (target static : Tag) (v : Option Tagged) : Except Misuse (Option Tag) := do
  target.checkCast static
  match knownAs static v with
  | some v => v.viewAs target
  | none => return none

/-- The values of a family with a further property. The property is asked of values of the family
only: the number tells how often. -/
def strictWith (target static : Tag) (property : Tag → Bool) (v : Option Tagged) :
    Except Misuse (Bool × Nat) := do
  match ← strictAs target static v with
  | some t => return (property t, 1)
  | none => return (false, 0)

end Tagged

/-- An arm of a choice by tag: one tag, or whatever no other arm takes. -/
inductive Arm (α : Type) where
  | onTag (tag : Tag) (result : α)
  | otherwise (result : α)

namespace Arm

def isOtherwise {α : Type} : Arm α → Bool
  | .otherwise _ => true
  | .onTag _ _ => false

def takes {α : Type} (t : Tag) : Arm α → Option α
  | .onTag tag a => if t.is tag then some a else none
  | .otherwise _ => none

/-- The first arm whose tag fits, in the order given; an absent value fits none. The arm for the
rest must come last. -/
def choose {α : Type} (value : Option Tag) (arms : List (Arm α)) : Except Misuse (Option α) :=
  if arms.dropLast.any isOtherwise then .error .defaultNotLast
  else
    let taken := value.bind fun t => arms.findSome? (takes t)
    match taken, arms.getLast? with
    | some a, _ => .ok (some a)
    | none, some (.otherwise a) => .ok (some a)
    | none, _ => .ok none

end Arm

/-- A named set of tags, taken with all that stands below them. -/
structure TagCategory where
  label : String
  members : List Tag

namespace TagCategory

def includes (c : TagCategory) (t : Tag) : Bool := c.members.any t.is

def text (c : TagCategory) : String :=
  c.label ++ "\x7b" ++ ", ".intercalate (c.members.map Tag.name) ++ "\x7d"

end TagCategory
end ShaderLoom
