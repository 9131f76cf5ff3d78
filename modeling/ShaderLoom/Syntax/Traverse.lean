import ShaderLoom.Syntax.Shape

/-! Going through the parts of a shape with effects. The order is fixed: names that a node declares
come before its parts, a member's name after its object, and lists after the single children beside
them. -/
namespace ShaderLoom

/-- The child lists that a node may have. -/
inductive ListKind where
  | globals | statements | members | params | attributes | returnAttributes | args
  deriving DecidableEq, Repr

namespace Shape

variable {ν μ α β : Type} {m : Type → Type} [Monad m]

/-- The same shape over other names and children. -/
def traverse (name : ν → m μ) (child : α → m β) (list : ListKind → List α → m (List β)) :
    Shape ν α → m (Shape μ β)
  | type .bool => pure (type .bool)
  | type .i32 => pure (type .i32)
  | type .u32 => pure (type .u32)
  | type .f32 => pure (type .f32)
  | type (.vector e w) => do return type (.vector (← child e) w)
  | type (.matrix e c r) => do return type (.matrix (← child e) c r)
  | type (.array e n) => do return type (.array (← child e) n)
  | type (.sampler c) => pure (type (.sampler c))
  | type (.sampledTexture d e) => do return type (.sampledTexture d (← child e))
  | type .externalTexture => pure (type .externalTexture)
  | type (.named s) => do return type (.named (← name s))
  | expr (.ident s) => do return expr (.ident (← name s))
  | expr (.int v s) => pure (expr (.int v s))
  | expr (.float v) => pure (expr (.float v))
  | expr (.bool v) => pure (expr (.bool v))
  | expr (.binary op l r) => do
    let l ← child l
    let r ← child r
    return expr (.binary op l r)
  | expr (.unary op e) => do return expr (.unary op (← child e))
  | expr (.call t args) => do
    let t ← child t
    let args ← list .args args
    return expr (.call t args)
  | expr (.index o i) => do
    let o ← child o
    let i ← child i
    return expr (.index o i)
  | expr (.member o s) => do
    let o ← child o
    let s ← name s
    return expr (.member o s)
  | stmt (.block ss) => do return stmt (.block (← list .statements ss))
  | stmt (.varDecl v) => do return stmt (.varDecl (← child v))
  | stmt (.assign l r) => do
    let l ← child l
    let r ← child r
    return stmt (.assign l r)
  | stmt (.increment l d) => do return stmt (.increment (← child l) d)
  | stmt (.callStatement c) => do return stmt (.callStatement (← child c))
  | stmt (.ifElse c b e) => do
    let c ← child c
    let b ← child b
    let e ← child e
    return stmt (.ifElse c b e)
  | stmt (.forLoop i c t b) => do
    let i ← child i
    let c ← child c
    let t ← child t
    let b ← child b
    return stmt (.forLoop i c t b)
  | stmt (.whileLoop c b) => do
    let c ← child c
    let b ← child b
    return stmt (.whileLoop c b)
  | stmt (.loop b t) => do
    let b ← child b
    let t ← child t
    return stmt (.loop b t)
  | stmt .breakLoop => pure (stmt .breakLoop)
  | stmt .continueLoop => pure (stmt .continueLoop)
  | stmt .discard => pure (stmt .discard)
  | stmt (.ret v) => do return stmt (.ret (← child v))
  | decl (.value v) => do
    let s ← name v.name
    let t ← child v.type
    let i ← child v.initializer
    let attrs ← list .attributes v.attributes
    return decl (.value ⟨v.kind, s, t, i, attrs⟩)
  | decl (.function f) => do
    let s ← name f.name
    let ps ← list .params f.params
    let ret ← child f.returnType
    let b ← child f.body
    let attrs ← list .attributes f.attributes
    let retAttrs ← list .returnAttributes f.returnAttributes
    return decl (.function ⟨s, ps, ret, b, attrs, retAttrs⟩)
  | decl (.struct s members attributes) => do
    let s ← name s
    let ms ← list .members members
    let attrs ← list .attributes attributes
    return decl (.struct s ms attrs)
  | decl (.typeAlias s t) => do
    let s ← name s
    let t ← child t
    return decl (.typeAlias s t)
  | structMember s t attributes => do
    let s ← name s
    let t ← child t
    let attrs ← list .attributes attributes
    return structMember s t attrs
  | attr (.stage s) => pure (attr (.stage s))
  | attr (.workgroup x y z) => do
    let x ← child x
    let y ← child y
    let z ← child z
    return attr (.workgroup x y z)
  | attr (.builtin b) => pure (attr (.builtin b))
  | attr (.location v) => pure (attr (.location v))
  | attr (.group v) => pure (attr (.group v))
  | attr (.binding v) => pure (attr (.binding v))
  | attr (.id v) => pure (attr (.id v))
  | module globals => do return module (← list .globals globals)

/-- Which of a node's lists has these elements, the first one if several have. -/
def listKind? [DecidableEq α] (ids : List α) : Shape ν α → Option ListKind
  | module globals => if globals = ids then some .globals else none
  | stmt (.block ss) => if ss = ids then some .statements else none
  | decl (.struct _ members attributes) =>
    if members = ids then some .members else if attributes = ids then some .attributes else none
  | decl (.function f) =>
    if f.params = ids then some .params
    else if f.attributes = ids then some .attributes
    else if f.returnAttributes = ids then some .returnAttributes
    else none
  | expr (.call _ args) => if args = ids then some .args else none
  | structMember _ _ attributes => if attributes = ids then some .attributes else none
  | decl (.value v) => if v.attributes = ids then some .attributes else none
  | _ => none

/-- The list of a node that holds elements of another node's family. -/
def listFor? {μ β : Type} (owner : Shape ν α) (element : Shape μ β) : Option ListKind :=
  match owner with
  | module _ => if element.isDeclaration then some .globals else none
  | stmt (.block _) => if element.isStatement then some .statements else none
  | decl (.struct _ _ _) =>
    match element with
    | structMember _ _ _ => some .members
    | attr _ => some .attributes
    | _ => none
  | decl (.function _) =>
    match element with
    | decl (.value v) => if v.kind = .parameter then some .params else none
    | attr _ => some .attributes
    | _ => none
  | expr (.call _ _) => if element.isExpression then some .args else none
  | structMember _ _ _ => if element.isAttribute then some .attributes else none
  | decl (.value _) => if element.isAttribute then some .attributes else none
  | _ => none

end Shape
end ShaderLoom
