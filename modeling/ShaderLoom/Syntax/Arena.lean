import ShaderLoom.Source.Span
import ShaderLoom.Syntax.Shape
import ShaderLoom.Syntax.Symbol

/-! Nodes in the order in which they were made. A node is known by its place, counted from one, and
refers to its children by their places; zero is the absent node. -/
namespace ShaderLoom

/-- The place of a node, below `idLimit`. -/
abbrev NodeId := Nat

structure Node where
  shape : Shape Symbol NodeId
  span : Span := {}
  deriving DecidableEq, Repr

structure Arena where
  nodes : Array Node := #[]
  symbols : SymbolTable := .empty
  deriving Inhabited

namespace Node

/-- The children that are present, in source order. -/
def children (n : Node) : List NodeId := n.shape.slots.filter (· != 0)

def holdsInList (n : Node) (child : NodeId) : Bool := n.shape.lists.any (·.contains child)

end Node

namespace Arena

def size (a : Arena) : Nat := a.nodes.size

def node? (a : Arena) (id : NodeId) : Option Node := if id = 0 then none else a.nodes[id - 1]?

def shape? (a : Arena) (id : NodeId) : Option (Shape Symbol NodeId) := (a.node? id).map (·.shape)

def spanOf (a : Arena) (id : NodeId) : Span := ((a.node? id).map (·.span)).getD {}

def nameOf (a : Arena) (s : Symbol) : String := a.symbols.nameFor s

def children (a : Arena) (id : NodeId) : List NodeId := ((a.node? id).map Node.children).getD []

/-- Every number a node may have. -/
def ids (a : Arena) : List NodeId := (List.range a.size).map (· + 1)

def asVariable? (a : Arena) (id : NodeId) : Option (VariableShape Symbol NodeId) :=
  (a.shape? id).bind Shape.asVariable?

def function? (a : Arena) (id : NodeId) : Option (FunctionShape Symbol NodeId) :=
  (a.shape? id).bind Shape.function?

def block? (a : Arena) (id : NodeId) : Option (List NodeId) := (a.shape? id).bind Shape.block?

def attr? (a : Arena) (id : NodeId) : Option (AttrShape NodeId) :=
  match a.shape? id with
  | some (.attr x) => some x
  | _ => none

/-- The first attribute of the list for which `pick` answers. -/
def findAttr? {β : Type} (a : Arena) (attributes : List NodeId)
    (pick : AttrShape NodeId → Option β) : Option β :=
  attributes.findSome? fun id => (a.attr? id).bind pick

def builtinOf (a : Arena) (attributes : List NodeId) : BuiltinValue :=
  (a.findAttr? attributes fun
    | .builtin b => some b
    | _ => none).getD .none

@[simp] theorem node?_zero (a : Arena) : a.node? 0 = none := rfl

@[simp] theorem node?_succ (a : Arena) (i : Nat) : a.node? (i + 1) = a.nodes[i]? := rfl

theorem node?_isSome_iff {a : Arena} {id : NodeId} :
    (a.node? id).isSome ↔ 0 < id ∧ id ≤ a.size := by
  cases id with
  | zero => simp
  | succ i =>
    rw [node?_succ, isSome_getElem?]
    exact ⟨fun h => ⟨Nat.succ_pos i, h⟩, fun h => h.2⟩

end Arena
end ShaderLoom
