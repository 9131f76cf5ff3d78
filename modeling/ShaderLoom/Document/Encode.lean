import ShaderLoom.Document.Decode

/-! From programs to documents. -/
namespace ShaderLoom.Document

/-- The record of a node, over the records of its children. -/
def ofNode (a : Arena) (sub : NodeId → Option Record) (node : Node) : Record :=
  let many (ids : List NodeId) : List (Option Record) := ids.map sub
  let base : Record :=
    { kind := node.shape.kind, span := if node.span.valid then some node.span else none }
  match node.shape with
  | .expr (.ident s) => { base with name := a.nameOf s }
  | .expr (.int v s) => { base with int := some v, suffix := s.text }
  | .expr (.float v) => { base with float := some v }
  | .expr (.bool v) => { base with bool := some v }
  | .expr (.binary op l r) => { base with op := op.text, lhs := sub l, rhs := sub r }
  | .expr (.unary op e) => { base with op := op.text, expr := sub e }
  | .expr (.call t args) => { base with target := sub t, args := many args }
  | .expr (.index o i) => { base with object := sub o, index := sub i }
  | .expr (.member o s) => { base with object := sub o, name := a.nameOf s }
  | .stmt (.block ss) => { base with statements := many ss }
  | .stmt (.varDecl v) => { base with var := sub v }
  | .stmt (.assign l r) => { base with lhs := sub l, rhs := sub r }
  | .stmt (.increment l d) => { base with lhs := sub l, decrement := d }
  | .stmt (.callStatement e) => { base with call := sub e }
  | .stmt (.ifElse c b e) => { base with condition := sub c, body := sub b, otherwise := sub e }
  | .stmt (.forLoop i c t b) =>
    { base with initializer := sub i, condition := sub c, continuing := sub t, body := sub b }
  | .stmt (.whileLoop c b) => { base with condition := sub c, body := sub b }
  | .stmt (.loop b t) => { base with body := sub b, continuing := sub t }
  | .stmt .breakLoop | .stmt .continueLoop | .stmt .discard => base
  | .stmt (.ret v) => { base with expr := sub v }
  | .decl (.value v) =>
    let base := { base with
      name := a.nameOf v.name, type := sub v.type, initializer := sub v.initializer
      attributes := many v.attributes }
    match v.kind with
    | .var space access => { base with addressSpace := space.text, access := access.text }
    | _ => base
  | .decl (.function f) =>
    { base with
      name := a.nameOf f.name, params := many f.params, returnType := sub f.returnType
      returnAttributes := many f.returnAttributes, body := sub f.body
      attributes := many f.attributes }
  | .decl (.struct s members attributes) =>
    { base with name := a.nameOf s, members := many members, attributes := many attributes }
  | .decl (.typeAlias s t) => { base with name := a.nameOf s, type := sub t }
  | .structMember s t attributes =>
    { base with name := a.nameOf s, type := sub t, attributes := many attributes }
  | .attr (.stage s) => { base with stage := s.text }
  | .attr (.workgroup x y z) => { base with x := sub x, y := sub y, z := sub z }
  | .attr (.builtin b) => { base with builtin := b.text }
  | .attr (.location v) => { base with value := some v }
  | .attr (.group v) => { base with value := some v }
  | .attr (.binding v) => { base with value := some v }
  | .attr (.id v) => { base with value := some v }
  | .type (.vector e w) => { base with elem := sub e, width := w }
  | .type (.matrix e c r) => { base with elem := sub e, columns := c, rows := r }
  | .type (.array e n) => { base with elem := sub e, count := n }
  | .type (.sampler c) => { base with comparison := c }
  | .type (.sampledTexture d e) => { base with dim := d.text, elem := sub e }
  | .type (.named s) => { base with name := a.nameOf s }
  | .type _ => base
  | .module _ => base

/-- The record of a node and everything below it; an absent node has none. `fuel` bounds the
depth. -/
def record (a : Arena) : Nat → NodeId → Option Record
  | 0, _ => none
  | n + 1, id => (a.node? id).map (ofNode a (record a n))

/-- The document of a program. -/
def ofProgram (p : Program) : Module :=
  { version := formatVersion, globals := p.globals.map (record p.toArena (p.size + 1)) }

end ShaderLoom.Document
