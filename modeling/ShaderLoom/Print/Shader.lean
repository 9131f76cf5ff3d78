import ShaderLoom.Decimal.Shortest
import ShaderLoom.Program

/-! Nodes and programs as shader text. The text of a tree depends on the tree alone, so texts can be
compared. -/
namespace ShaderLoom.Print

/-- The shortest digits that read back, never with an exponent and always with a point. -/
def floatText (x : Binary64) : String :=
  match x.magnitude with
  | .nan => "NaN"
  | .infinite => if x.negative then "-Inf" else "+Inf"
  | .finite m e =>
    let body := Decimal.positional (Decimal.shortest m e)
    let pointed := if body.contains '.' then body else body ++ ".0"
    if x.negative then "-" ++ pointed else pointed

variable (a : Arena) (child : NodeId → String)

/-- The present ones of a list, separated by commas. -/
def commaList (ids : List NodeId) : String := ", ".intercalate ((ids.filter (· != 0)).map child)

/-- Attributes separated by blanks, and `trail` after them if there are any. -/
def attributeList (ids : List NodeId) (trail : String) : String :=
  if ids.isEmpty then "" else " ".intercalate (ids.map child) ++ trail

def exprText : ExprShape Symbol NodeId → String
  | .ident s => a.nameOf s
  | .int v suffix => toString v ++ suffix.text
  | .float v => floatText v
  | .bool v => if v then "true" else "false"
  | .binary op l r => "(" ++ child l ++ " " ++ op.text ++ " " ++ child r ++ ")"
  | .unary op e => op.text ++ "(" ++ child e ++ ")"
  | .call t args => child t ++ "(" ++ commaList child args ++ ")"
  | .index o i => child o ++ "[" ++ child i ++ "]"
  | .member o s => child o ++ "." ++ a.nameOf s

def typeText : TypeShape Symbol NodeId → String
  | .bool => "bool"
  | .i32 => "i32"
  | .u32 => "u32"
  | .f32 => "f32"
  | .vector e w => "vec" ++ toString w ++ "<" ++ child e ++ ">"
  | .matrix e c r => "mat" ++ toString c ++ "x" ++ toString r ++ "<" ++ child e ++ ">"
  | .array e n => "array<" ++ child e ++ (if 0 < n then ", " ++ toString n else "") ++ ">"
  | .sampler comparison => if comparison then "sampler_comparison" else "sampler"
  | .sampledTexture d e => "texture_" ++ d.text ++ "<" ++ child e ++ ">"
  | .externalTexture => "texture_external"
  | .named s => a.nameOf s

def attrText : AttrShape NodeId → String
  | .stage s => "@" ++ s.text
  | .workgroup x y z => "@workgroup_size(" ++ commaList child [x, y, z] ++ ")"
  | .builtin b => "@builtin(" ++ b.text ++ ")"
  | .location v => "@location(" ++ toString v.toNat ++ ")"
  | .group v => "@group(" ++ toString v.toNat ++ ")"
  | .binding v => "@binding(" ++ toString v.toNat ++ ")"
  | .id v => "@id(" ++ toString v.toNat ++ ")"

def variableWord : VariableKind → String
  | .var space access =>
    if space = .none then "var"
    else "var<" ++ space.text ++ (if access = .undefined then "" else ", " ++ access.text) ++ ">"
  | .letValue => "let"
  | .constant => "const"
  | .overridable => "override"
  | .parameter => ""

def variableText (v : VariableShape Symbol NodeId) : String :=
  attributeList child v.attributes " " ++ variableWord v.kind ++ " " ++ a.nameOf v.name ++
    (if v.type ≠ 0 then " : " ++ child v.type else "") ++
    (if v.initializer ≠ 0 then " = " ++ child v.initializer else "")

def parameterText (id : NodeId) : String :=
  match a.asVariable? id with
  | some v => attributeList child v.attributes " " ++ a.nameOf v.name ++ " : " ++ child v.type
  | none => ""

/-- A function up to its body. -/
def functionHead (f : FunctionShape Symbol NodeId) : String :=
  attributeList child f.attributes "\n" ++ "fn " ++ a.nameOf f.name ++ "(" ++
    ", ".intercalate (f.params.map (parameterText a child)) ++ ")" ++
    (if f.returnType ≠ 0 then
      " -> " ++ attributeList child f.returnAttributes " " ++ child f.returnType
    else "") ++ " "

/-- A statement without indentation and end, as it stands in a loop header; `none` for the
others. -/
def simpleText : StmtShape NodeId → Option String
  | .varDecl v => some ((a.asVariable? v).elim "" (variableText a child))
  | .assign l r => some (child l ++ " = " ++ child r)
  | .increment l decrement => some (child l ++ if decrement then "--" else "++")
  | .callStatement e => some (child e)
  | .ret v => some ("return" ++ if v ≠ 0 then " " ++ child v else "")
  | .breakLoop => some "break"
  | .continueLoop => some "continue"
  | .discard => some "discard"
  | _ => none

/-- The place a node is printed in. -/
inductive Place where
  | node
  | header
  | line
  | block
  | ifChain
  | global
  deriving DecidableEq, Repr

/-- The unit of indentation, in blanks. -/
structure Style where
  indent : Nat := 2

def Style.margin (s : Style) (level : Nat) : String :=
  String.ofList (List.replicate (level * s.indent) ' ')

section Places

/-! The text of a node in each place, over the texts of nodes in any place. -/

variable (style : Style) (sub : Place → Nat → NodeId → String) (level : Nat) (id : NodeId)

def nodeText : String :=
  let child := sub .node level
  match a.shape? id with
  | some (.expr e) => exprText a child e
  | some (.type t) => typeText a child t
  | some (.attr x) => attrText child x
  | some (.decl (.value v)) => variableText a child v
  | some (.decl _) => sub .global level id
  | some (.stmt s) =>
    if (simpleText a child s).isSome then sub .header level id else sub .line level id
  | _ => ""

def headerText : String :=
  let child := sub .node level
  match a.shape? id with
  | some (.stmt s) => (simpleText a child s).getD (child id)
  | some _ => child id
  | none => ""

def blockText : String :=
  "\x7b\n" ++ String.join (((a.block? id).getD []).map (sub .line (level + 1))) ++
    style.margin level ++
    "\x7d"

/-- What follows the body of a conditional statement. -/
def elseText (otherwise : NodeId) : String :=
  if otherwise = 0 then ""
  else match a.shape? otherwise with
    | some (.stmt (.ifElse _ _ _)) => " else " ++ sub .ifChain level otherwise
    | _ => " else " ++ sub .block level otherwise

def ifText : String :=
  match a.shape? id with
  | some (.stmt (.ifElse c b e)) =>
    "if (" ++ sub .node level c ++ ") " ++ sub .block level b ++ elseText a sub level e
  | _ => ""

def loopText (body continuing : NodeId) : String :=
  let inner := (a.block? body).getD []
  let last :=
    if continuing = 0 then ""
    else (if inner.isEmpty then "" else "\n") ++ style.margin (level + 1) ++ "continuing " ++
      sub .block (level + 1) continuing ++ "\n"
  "loop \x7b\n" ++ String.join (inner.map (sub .line (level + 1))) ++ last ++
    style.margin level ++ "\x7d"

def lineText : String :=
  let body := match a.shape? id with
    | some (.stmt (.block _)) => sub .block level id
    | some (.stmt (.ifElse _ _ _)) => sub .ifChain level id
    | some (.stmt (.forLoop i c t b)) =>
      "for(" ++ sub .header level i ++ "; " ++ sub .node level c ++ "; " ++
        sub .header level t ++ ") " ++
        sub .block level b
    | some (.stmt (.whileLoop c b)) => "while (" ++ sub .node level c ++ ") " ++ sub .block level b
    | some (.stmt (.loop b t)) => loopText a style sub level b t
    | _ => sub .header level id ++ ";"
  style.margin level ++ body ++ "\n"

/-- One member of a structure, on a line of its own. -/
def memberText (inside : NodeId → String) (id : NodeId) : String :=
  match a.shape? id with
  | some (.structMember s t attributes) =>
    style.margin (level + 1) ++ attributeList inside attributes " " ++ a.nameOf s ++
      " : " ++ inside t ++
      ",\n"
  | _ => ""

def globalText : String :=
  let child := sub .node level
  match a.shape? id with
  | some (.decl (.struct s members attributes)) =>
    attributeList child attributes "\n" ++ "struct " ++ a.nameOf s ++ " \x7b\n" ++
      String.join (members.map (memberText a style level (sub .node (level + 1)))) ++ "\x7d"
  | some (.decl (.typeAlias s t)) => "alias " ++ a.nameOf s ++ " = " ++ child t ++ ";"
  | some (.decl (.function f)) => functionHead a child f ++ sub .block level f.body
  | some (.decl (.value v)) => variableText a child v ++ ";"
  | _ => child id

end Places

/-- The text of a node in a place. `fuel` bounds the depth of the tree. -/
def render (a : Arena) (style : Style) : Nat → Place → Nat → NodeId → String
  | 0, _, _, _ => ""
  | n + 1, .node, level, id => nodeText a (render a style n) level id
  | n + 1, .header, level, id => headerText a (render a style n) level id
  | n + 1, .line, level, id => lineText a style (render a style n) level id
  | n + 1, .block, level, id => blockText a style (render a style n) level id
  | n + 1, .ifChain, level, id => ifText a (render a style n) level id
  | n + 1, .global, level, id => globalText a style (render a style n) level id

/-- Enough fuel for a tree over the arena: a node takes at most four places on the way to its
children. -/
def fuelFor (a : Arena) : Nat := 4 * (a.size + 2)

/-- The text of one node. -/
def node (a : Arena) (id : NodeId) : String := render a {} (fuelFor a) .node 0 id

/-- Declarations one after another, with a blank line between two. -/
def declarations (a : Arena) (style : Style) (globals : List NodeId) : String :=
  "\n".intercalate (globals.map fun id => render a style (fuelFor a) .global 0 id ++ "\n")

end ShaderLoom.Print

namespace ShaderLoom.Program

def textWith (p : Program) (style : Print.Style) : String :=
  Print.declarations p.toArena style p.globals

def text (p : Program) : String := p.textWith {}

end ShaderLoom.Program
