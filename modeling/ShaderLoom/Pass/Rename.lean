import ShaderLoom.Pass.Pass
import ShaderLoom.Pass.Reserved

/-! Gives fresh names to symbols that a target cannot use. The letters that select vector components
and the names of builtin functions are never changed. -/
namespace ShaderLoom.Rename

open Copy

def name : String := "Renamer"

def isAscii (s : String) : Bool := s.toList.all fun c => c.toNat < 128

def hasDoubleUnderscore : List Char → Bool
  | '_' :: '_' :: _ => true
  | _ :: rest => hasDoubleUnderscore rest
  | [] => false

/-- Whether a name cannot stay for the target. -/
def selects (config : RenameConfig) (name : String) : Bool :=
  if !config.preserveUnicode && !isAscii name then true
  else
    match config.target with
    | .all => true
    | .glsl =>
      Reserved.glsl.contains name || ['g', 'l', '_'].isPrefixOf name.toList ||
        hasDoubleUnderscore name.toList
    | .hlsl => Reserved.hlsl.contains name
    | .msl => Reserved.msl.contains name || ['_', '_'].isPrefixOf name.toList
    | .other _ => false

/-- Selected names get fresh ones. -/
def rule (p : Program) (config : RenameConfig) : SymbolRule := fun s table =>
  if selects config (p.nameOf s) then table.fresh "" else (s, table)

/-- What is kept apart from symbols: component selections and called builtin functions. -/
inductive Keep where
  | component
  | builtin

/-- The call whose target a node is, if it is a call of a builtin function. -/
def isBuiltinTarget (p : Program) (id : NodeId) : Bool :=
  match p.shape? (p.parent id) with
  | some (.expr (.call target _)) =>
    target == id && (p.facts.call? (p.parent id)).any (·.builtin != "")
  | _ => false

def act : Act Keep Unit := fun copy keep id => do
  let p := (← get).source
  match keep, p.shape? id with
  | .component, some (.expr (.member object s)) =>
    if (p.facts.exprs[id]?).any (·.swizzle.isSome) then
      let o ← copy object
      Edit.build (Build.memberSym (.node o) s)
    else return 0
  | .builtin, some (.expr (.ident s)) =>
    if isBuiltinTarget p id then Edit.build (Build.identSym s) else return 0
  | _, _ => return 0

/-- The renamed names among the symbols that were copied, as pairs of the old and the new one. -/
def renamed (p : Program) (config : RenameConfig) (table : SymbolTable)
    (symbols : List (Symbol × Symbol)) : List (String × String) :=
  (symbols.filter fun (s, _) => selects config (p.nameOf s)).map fun (s, t) =>
    (p.nameOf s, table.nameFor t)

def work (p : Program) (inputs : Data) : Work Keep Unit Data := do
  let config := (inputs.get? .renaming).getD {}
  Work.edit do
    Edit.replaceAll (.kind "Member" .expression) .component
    Edit.replaceAll (.kind "Ident" .expression) .builtin
    Edit.setSymbolRule (rule p config)
    Edit.copyModule (Edit.copy act)
  let s ← get
  return Exchange.put {} .renamed (renamed p config s.target.symbols s.symbols)

def pass : Pass where
  name
  shouldRun p _ := !p.globals.isEmpty
  run p inputs := (work p inputs).perform p ()

end ShaderLoom.Rename
