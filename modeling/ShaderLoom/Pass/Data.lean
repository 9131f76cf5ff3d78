import ShaderLoom.Meaning.Facts

/-! Data handed from pass to pass. An exchange holds at most one payload per topic and remembers the
order in which the topics came. Then the topics that passes read and write, and what is said on
each. -/
namespace ShaderLoom

structure Exchange (κ : Type) (π : κ → Type) where
  entries : List ((topic : κ) × π topic) := []

namespace Exchange

variable {κ : Type} [DecidableEq κ] {π : κ → Type}

def empty : Exchange κ π := {}

def topics (d : Exchange κ π) : List κ := d.entries.map (·.1)

def size (d : Exchange κ π) : Nat := d.entries.length

def has (d : Exchange κ π) (topic : κ) : Bool := d.entries.any (·.1 = topic)

/-- The payload of an entry, if it is on the topic. -/
def payload? (topic : κ) (e : (t : κ) × π t) : Option (π topic) :=
  if h : e.1 = topic then some (h ▸ e.2) else none

def get? (d : Exchange κ π) (topic : κ) : Option (π topic) := d.entries.findSome? (payload? topic)

/-- Sets the payload of a topic. A topic that is there keeps its place. -/
def put (d : Exchange κ π) (topic : κ) (value : π topic) : Exchange κ π :=
  if d.has topic then ⟨d.entries.map fun e => if e.1 = topic then ⟨topic, value⟩ else e⟩
  else ⟨d.entries ++ [⟨topic, value⟩]⟩

def remove (d : Exchange κ π) (topic : κ) : Exchange κ π :=
  ⟨d.entries.filter fun e => e.1 ≠ topic⟩

/-- Takes every payload of `other` over. -/
def merge (d other : Exchange κ π) : Exchange κ π :=
  other.entries.foldl (fun d e => d.put e.1 e.2) d

@[simp] theorem merge_empty (d : Exchange κ π) : d.merge empty = d := rfl

theorem topics_put (d : Exchange κ π) (topic : κ) (value : π topic) :
    (d.put topic value).topics = if d.has topic then d.topics else d.topics ++ [topic] := by
  unfold put
  split
  · simp only [topics, List.map_map]
    apply List.map_congr_left
    intro e _
    by_cases h : e.1 = topic <;> simp [h]
  · simp [topics]

end Exchange

/-- Which names a renaming is after. -/
inductive RenameTarget where
  | all
  | glsl
  | hlsl
  | msl
  | other (code : Int)
  deriving DecidableEq, Repr, Inhabited

namespace RenameTarget

def ofCode : Int → RenameTarget
  | 0 => .all
  | 1 => .glsl
  | 2 => .hlsl
  | 3 => .msl
  | n => .other n

def text : RenameTarget → String
  | .all => "all"
  | .glsl => "glsl"
  | .hlsl => "hlsl"
  | .msl => "msl"
  | .other n => s!"RenamerTarget({n})"

end RenameTarget

structure RenameConfig where
  target : RenameTarget := .all
  /-- Keeps names outside ASCII unless the target reserves them. -/
  preserveUnicode : Bool := false
  deriving DecidableEq, Repr

/-- A table in which a later entry for a key wins. -/
abbrev PointMap (α : Type) := List (BindingPoint × α)

def PointMap.find? {α : Type} (m : PointMap α) (p : BindingPoint) : Option α :=
  (List.find? (·.1 == p) (List.reverse m)).map (·.2)

/-- The further resources of an external texture: its second plane and its parameters. -/
structure PlanePoints where
  plane1 : BindingPoint
  params : BindingPoint
  deriving DecidableEq, Repr

structure Remapping where
  points : PointMap BindingPoint := []
  access : PointMap Access := []
  /-- Lets two resources of one entry point share a binding point. -/
  allowCollisions : Bool := false
  deriving Repr

/-- Which first-index offsets a program reads, and where they are in their buffer. -/
structure FirstIndexData where
  hasVertex : Bool := false
  hasInstance : Bool := false
  vertexOffset : Nat := 0
  instanceOffset : Nat := 0
  deriving DecidableEq, Repr

inductive Topic where
  | firstIndexOffset
  | numWorkgroups
  | planes
  | remapping
  | entryPoint
  | renaming
  | shuffling
  | firstIndexData
  | renamed
  deriving DecidableEq, Repr

/-- What is said on a topic. Renamed names come as pairs of the old and the new one. -/
abbrev Payload : Topic → Type
  | .firstIndexOffset => BindingPoint
  | .numWorkgroups => BindingPoint
  | .planes => PointMap PlanePoints
  | .remapping => Remapping
  | .entryPoint => String
  | .renaming => RenameConfig
  | .shuffling => UInt64
  | .firstIndexData => FirstIndexData
  | .renamed => List (String × String)

def Topic.text : Topic → String
  | .firstIndexOffset => "FirstIndexOffsetBindingPoint"
  | .numWorkgroups => "NumWorkgroupsFromUniformConfig"
  | .planes => "MultiplanarNewBindingPoints"
  | .remapping => "BindingRemapperRemappings"
  | .entryPoint => "SingleEntryPointConfig"
  | .renaming => "RenamerConfig"
  | .shuffling => "ShuffleConfig"
  | .firstIndexData => "FirstIndexOffsetData"
  | .renamed => "RenamerData"

abbrev Data := Exchange Topic Payload

end ShaderLoom
