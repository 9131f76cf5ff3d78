import ShaderLoom.Meaning.Ty

/-! All tags in use: families of nodes and of resolved types, and the kinds in them. -/
namespace ShaderLoom

def Tag.families : List Tag :=
  [.node, .expression, .literal, .statement, .typeNode, .texture, .attributeNode, .declaration,
    .typeDecl, .variableDecl, Ty.semanticRoot, Ty.scalarTag, Ty.textureTag]

/-- One shape of every kind of node. -/
def Shape.samples : List (Shape Unit Unit) :=
  let types : List (TypeShape Unit Unit) :=
    [.bool, .i32, .u32, .f32, .vector () 0, .matrix () 0 0, .array () 0, .sampler false,
      .sampledTexture .d1 (), .externalTexture, .named ()]
  let exprs : List (ExprShape Unit Unit) :=
    [.ident (), .int 0 .none, .float .zero, .bool false, .binary .add () (), .unary .not (),
      .call () [], .index () (), .member () ()]
  let stmts : List (StmtShape Unit) :=
    [.block [], .varDecl (), .assign () (), .increment () false, .callStatement (),
      .ifElse () () (), .forLoop () () () (), .whileLoop () (), .loop () (), .breakLoop,
      .continueLoop, .discard, .ret ()]
  let values : List VariableKind :=
    [.var .none .undefined, .letValue, .constant, .overridable, .parameter]
  let decls : List (DeclShape Unit Unit) :=
    values.map (fun k => .value ⟨k, (), (), (), []⟩) ++
      [.function ⟨(), [], (), (), [], []⟩, .struct () [] [], .typeAlias () ()]
  let attrs : List (AttrShape Unit) :=
    [.stage .none, .workgroup () () (), .builtin .none, .location 0, .group 0, .binding 0, .id 0]
  types.map .type ++ exprs.map .expr ++ stmts.map .stmt ++ decls.map .decl ++ attrs.map .attr ++
    [.structMember () () [], .module []]

/-- One type of every kind. -/
def Ty.samples : List Ty :=
  [.void, .bool, .i32, .u32, .f32, .vector .f32 0, .matrix .f32 0 0, .array .f32 0, .struct 0 "",
    .sampler false, .sampledTexture .d1 .f32, .externalTexture]

def Tag.declared : List Tag :=
  .root :: Tag.families ++ Shape.samples.map Shape.tag ++ Ty.samples.map Ty.tag

/-- The register of all tags in use. -/
def TagRegister.standard : TagRegister := ⟨Tag.declared.map fun t => (t.key, t)⟩

example : (Tag.declared.map Tag.key).Nodup := by decide +kernel

end ShaderLoom
