/-! Names as numbers. A symbol is the position of its name in a table, counted from one; nodes hold
symbols and never texts. No name stands in a table twice, so names and symbols correspond. -/
namespace ShaderLoom

/-- Where the numbers of names and of nodes end: they are 32 bits wide. Tables and arenas count
without a bound here, and what they count stays below this one as long as there are fewer names and
nodes. -/
def idLimit : Nat := UInt32.size

/-- The number of a name, below `idLimit`. Zero names nothing. -/
abbrev Symbol := Nat

structure SymbolTable where
  names : Array String := #[]
  nodup : names.toList.Nodup := by simp

namespace SymbolTable

instance : Inhabited SymbolTable := ⟨{}⟩

def empty : SymbolTable := {}

def size (t : SymbolTable) : Nat := t.names.size

/-- The symbol of a name, zero if it has none. -/
def get (t : SymbolTable) (name : String) : Symbol :=
  match t.names.toList.findIdx? (· == name) with
  | some i => i + 1
  | none => 0

/-- The name of a symbol; a symbol that is not in the table shows its number. -/
def nameFor (t : SymbolTable) (s : Symbol) : String :=
  if s = 0 then "$0" else t.names[s - 1]?.getD ("$" ++ toString s)

/-- The table with one more name. -/
def extend (t : SymbolTable) (name : String) (h : name ∉ t.names.toList) : SymbolTable where
  names := t.names.push name
  nodup := by
    simpa [List.nodup_append, t.nodup] using fun a ha (hn : a = name) => h (by simpa [hn] using ha)

/-- The symbol of a name, which joins the table if it is new. -/
def register (t : SymbolTable) (name : String) : Symbol × SymbolTable :=
  if h : name ∈ t.names.toList then (t.get name, t) else (t.size + 1, t.extend name h)

/-- The name that stands for a missing hint. -/
def defaultName : String := "tint_symbol"

/-- The first of `hint`, `hint_1`, `hint_2`, … from the `k`-th on that is not in the table. -/
def freshName (t : SymbolTable) (hint : String) : Nat → Nat → String
  | 0, k => if k = 0 then hint else hint ++ "_" ++ toString k
  | fuel + 1, k =>
    let name := if k = 0 then hint else hint ++ "_" ++ toString k
    if name ∈ t.names.toList then freshName t hint fuel (k + 1) else name

/-- A symbol with a name of its own. Among as many candidates as the table has names and one more,
one is free. -/
def fresh (t : SymbolTable) (hint : String) : Symbol × SymbolTable :=
  t.register (t.freshName (if hint.isEmpty then defaultName else hint) t.size 0)

/-- Symbols and their names in the order in which they came. -/
def toList (t : SymbolTable) : List (Symbol × String) :=
  t.names.toList.zipIdx.map fun (name, i) => (i + 1, name)

@[simp] theorem names_empty : empty.names = #[] := rfl

@[simp] theorem names_extend (t : SymbolTable) (name : String) (h : name ∉ t.names.toList) :
    (t.extend name h).names = t.names.push name := rfl

theorem register_of_mem {t : SymbolTable} {name : String} (h : name ∈ t.names.toList) :
    t.register name = (t.get name, t) := by
  rw [register, dif_pos h]

theorem names_register (t : SymbolTable) (name : String) :
    (t.register name).2.names = if name ∈ t.names.toList then t.names else t.names.push name := by
  unfold register
  split <;> rfl

end SymbolTable
end ShaderLoom
