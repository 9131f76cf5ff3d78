/-! Data documents as values. Fields keep their order and may repeat, and a number keeps its text,
so that whoever reads a document decides what a repeated field or a fraction means. -/
namespace ShaderLoom

inductive Json where
  | null
  | bool (value : Bool)
  | num (text : String)
  | str (text : String)
  | arr (items : List Json)
  | obj (fields : List (String × Json))
  deriving Repr, Inhabited

namespace Json

def ofInt (n : Int) : Json := .num (if n < 0 then "-" ++ toString n.natAbs else toString n.toNat)

def ofNat (n : Nat) : Json := .num (toString n)

/-- The last field of that name, as readers that let later fields win see it. -/
def field? (key : String) : Json → Option Json
  | .obj fields => (fields.reverse.find? (·.1 == key)).map (·.2)
  | _ => none

/-- The text of a value that is one, and nothing otherwise. -/
def toText : Json → String
  | .str s => s
  | _ => ""

def toBool : Json → Bool
  | .bool b => b
  | _ => false

/-- The items of an array; any other value has none. -/
def toItems : Json → List Json
  | .arr items => items
  | _ => []

def toFields : Json → List (String × Json)
  | .obj fields => fields
  | _ => []

/-- The value of a field, `null` if there is none. -/
def get (j : Json) (key : String) : Json := (j.field? key).getD .null

mutual

/-- How many levels of arrays and objects a value has. -/
def depth : Json → Nat
  | .arr items => depthItems items + 1
  | .obj fields => depthFields fields + 1
  | _ => 0

def depthItems : List Json → Nat
  | [] => 0
  | v :: rest => max (depth v) (depthItems rest)

def depthFields : List (String × Json) → Nat
  | [] => 0
  | (_, v) :: rest => max (depth v) (depthFields rest)

end

end Json
end ShaderLoom
