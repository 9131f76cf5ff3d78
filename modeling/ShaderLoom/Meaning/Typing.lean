import ShaderLoom.Meaning.Ty

/-! Result types of operators, builtin functions and component selections. -/
namespace ShaderLoom

/-- The type of `lhs op rhs`; an operand whose type is unknown leaves the result unknown. A product
of a matrix and a vector has the shape that linear algebra gives it. -/
def binaryType (op : BinaryOp) : Option Ty → Option Ty → Option Ty
  | some l, some r =>
    if op.isComparison then
      match l with
      | .vector _ w => some (.vector .bool w)
      | _ => some .bool
    else if op.isLogical then some .bool
    else
      match l, r with
      | .matrix _ _ rows, .vector e _ => if op = .mul then some (.vector e rows) else some l
      | .matrix _ _ _, _ => some l
      | .vector e _, .matrix _ columns _ => if op = .mul then some (.vector e columns) else some l
      | .vector _ _, _ => some l
      | _, .vector _ _ => some r
      | _, .matrix _ _ _ => some r
      | _, _ => some l
  | _, _ => none

/-- How the result type of a builtin function follows from its arguments. -/
inductive BuiltinRule where
  | firstArgument
  | elementOfFirst
  | fixed (type : Ty)
  /-- Four components of what a sampled texture holds, and of `f32` for any other. -/
  | texel
  | truthLike
  deriving Repr

def BuiltinRule.result : BuiltinRule → List (Option Ty) → Option Ty
  | .firstArgument, args => args.head?.getD none
  | .elementOfFirst, args => (args.head?.getD none).map Ty.element
  | .fixed t, _ => some t
  | .texel, args =>
    match args.head?.getD none with
    | some (.sampledTexture _ e) => some (.vector e 4)
    | _ => some (.vector .f32 4)
  | .truthLike, args =>
    match args.head?.getD none with
    | some (.vector _ w) => some (.vector .bool w)
    | _ => some .bool

def likeFirst : List String :=
  ["abs", "ceil", "clamp", "cos", "cross", "exp", "exp2", "floor", "fract", "inverseSqrt",
    "log", "log2", "max", "min", "mix", "normalize", "pow", "round", "select", "sign", "sin",
    "smoothstep", "sqrt", "step", "tan", "trunc"]

def likeTexel : List String :=
  ["textureSample", "textureSampleLevel", "textureSampleBias", "textureSampleGrad",
    "textureSampleBaseClampToEdge", "textureLoad"]

/-- The rule of a builtin function; other names have none. -/
def builtinRule? (name : String) : Option BuiltinRule :=
  if likeFirst.contains name then some .firstArgument
  else if ["dot", "length", "distance"].contains name then some .elementOfFirst
  else if ["all", "any"].contains name then some (.fixed .bool)
  else if name == "isNan" then some .truthLike
  else if name == "arrayLength" then some (.fixed .u32)
  else if likeTexel.contains name then some .texel
  else if name == "textureDimensions" then some (.fixed (.vector .i32 2))
  else if name == "textureNumLevels" then some (.fixed .i32)
  else if ["workgroupBarrier", "storageBarrier"].contains name then some (.fixed .void)
  else none

def isBuiltinFunction (name : String) : Bool := (builtinRule? name).isSome

/-- The component that a letter selects, as a position or a colour. -/
def componentIndex? (c : Char) : Option Nat := (("xyzwrgba".toList).idxOf? c).map (· % 4)

/-- One to four components, all within the vector. -/
def swizzle? (name : String) (width : Int) : Option (List Nat) := do
  let is ← name.toList.mapM fun c => do
    let i ← componentIndex? c
    if (i : Int) < width then some i else none
  if is.isEmpty || 4 < is.length then none else some is

example : swizzle? "rgb" 3 = some [0, 1, 2] := by decide
example : swizzle? "xyw" 3 = none := by decide

end ShaderLoom
