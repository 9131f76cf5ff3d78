import ShaderLoom.Syntax.Shape

/-! Resolved types. A structure type is known by its declaration alone, so that structures may refer
to themselves; what its members are stands in a table beside it. -/
namespace ShaderLoom

inductive Ty where
  | void
  | bool
  | i32
  | u32
  | f32
  | vector (elem : Ty) (width : Int)
  | matrix (elem : Ty) (columns rows : Int)
  | array (elem : Ty) (count : Int)
  | struct (decl : Nat) (name : String)
  | sampler (comparison : Bool)
  | sampledTexture (dim : TextureDim) (elem : Ty)
  | externalTexture
  deriving DecidableEq, Repr, Inhabited

namespace Ty

def text : Ty → String
  | void => "void"
  | bool => "bool"
  | i32 => "i32"
  | u32 => "u32"
  | f32 => "f32"
  | vector e w => "vec" ++ toString w ++ "<" ++ e.text ++ ">"
  | matrix e c r => "mat" ++ toString c ++ "x" ++ toString r ++ "<" ++ e.text ++ ">"
  | array e 0 => "array<" ++ e.text ++ ">"
  | array e n => "array<" ++ e.text ++ ", " ++ toString n ++ ">"
  | struct _ name => name
  | sampler c => if c then "sampler_comparison" else "sampler"
  | sampledTexture d e => "texture_" ++ d.text ++ "<" ++ e.text ++ ">"
  | externalTexture => "texture_external"

/-- Equal up to the names of structures, which are equal if they share their declaration. -/
def same : Ty → Ty → Bool
  | vector e w, vector f v => w == v && same e f
  | matrix e c r, matrix f d s => c == d && r == s && same e f
  | array e n, array f m => n == m && same e f
  | struct d _, struct e _ => d == e
  | sampledTexture d e, sampledTexture c f => d == c && same e f
  | s, t => s == t

def semanticRoot : Tag := .derived "sem.Type" "Type" .root

def scalarTag : Tag := .derived "sem.Scalar" "Scalar" semanticRoot

def textureTag : Tag := .derived "sem.Texture" "Texture" semanticRoot

/-- The tag of a kind of resolved type, told from a node kind of the same name by its key. -/
def kindTag (name : String) (base : Tag) : Tag := .derived ("sem." ++ name) name base

def tag : Ty → Tag
  | void => kindTag "Void" semanticRoot
  | bool => kindTag "Bool" scalarTag
  | i32 => kindTag "I32" scalarTag
  | u32 => kindTag "U32" scalarTag
  | f32 => kindTag "F32" scalarTag
  | vector _ _ => kindTag "Vector" semanticRoot
  | matrix _ _ _ => kindTag "Matrix" semanticRoot
  | array _ _ => kindTag "Array" semanticRoot
  | struct _ _ => kindTag "Struct" semanticRoot
  | sampler _ => kindTag "Sampler" semanticRoot
  | sampledTexture _ _ => kindTag "SampledTexture" textureTag
  | externalTexture => kindTag "ExternalTexture" textureTag

def numeric : TagCategory := ⟨"numeric", [i32.tag, u32.tag, f32.tag]⟩

def integer : TagCategory := ⟨"integer", [i32.tag, u32.tag]⟩

/-- The element type of a vector, matrix or array, and any other type itself. -/
def element : Ty → Ty
  | vector e _ => e
  | matrix e _ _ => e
  | array e _ => e
  | t => t

/-- Whether values may live in a buffer that the host sees. `members` gives the member types of a
structure; `fuel` bounds how deep structures nest. -/
def hostShareable (members : Nat → List (Option Ty)) : Nat → Ty → Bool
  | _, i32 => true
  | _, u32 => true
  | _, f32 => true
  | fuel, vector e _ => hostShareable members fuel e
  | fuel, matrix e _ _ => hostShareable members fuel e
  | fuel, array e _ => hostShareable members fuel e
  | fuel + 1, struct d _ => (members d).all fun
    | some t => hostShareable members fuel t
    | none => false
  | _, _ => false
termination_by fuel t => (fuel, sizeOf t)

def isExternalTexture : Option Ty → Bool
  | some externalTexture => true
  | _ => false

theorem same_refl (t : Ty) : same t t = true := by
  induction t <;> simp_all [same]

end Ty
end ShaderLoom
