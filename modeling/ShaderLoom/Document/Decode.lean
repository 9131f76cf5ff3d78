import ShaderLoom.Document.Kind
import ShaderLoom.Document.Record
import ShaderLoom.Program

/-! From documents to programs. The nodes are made in the order of the fields of each kind, children
before the node that holds them. The first problem in that order is the one reported. -/
namespace ShaderLoom.Document

/-- What is wrong with a record. -/
inductive Problem where
  | missingNode
  | missingName
  | missingValue
  | missing (field : String)
  | invalid (what text : String)
  | invalidWidth (width : Int)
  | invalidShape (columns rows : Int)
  | invalidCount (count : Int)
  | unknownKind (kind : String)
  deriving DecidableEq, Repr

def Problem.message : Problem → String
  | .missingNode => "missing node"
  | .missingName => "missing name"
  | .missingValue => "missing value"
  | .missing field => s!"missing {field}"
  | .invalid what text => s!"invalid {what} '{text}'"
  | .invalidWidth w => s!"invalid vector width {w}"
  | .invalidShape c r => s!"invalid matrix shape {c}x{r}"
  | .invalidCount n => s!"invalid array count {n}"
  | .unknownKind k => s!"unknown node kind '{k}'"

inductive DecodeError where
  | unsupportedVersion (version : Int)
  | invalid (path : String) (problem : Problem)
  deriving DecidableEq, Repr

def DecodeError.toFault : DecodeError → Fault
  | .unsupportedVersion v => .input "UNSUPPORTED_FORMAT" s!"unsupported module format version {v}"
  | .invalid path problem => .input "INVALID_MODULE" (path ++ ": " ++ problem.message)

abbrev Decode := EStateM DecodeError Builder

namespace Decode

def fail {α : Type} (path : String) (problem : Problem) : Decode α := throw (.invalid path problem)

def symbol (path name : String) : Decode Symbol :=
  if name.isEmpty then fail path .missingName else modifyGet (·.register name)

def present {α : Type} (path : String) (problem : Problem) : Option α → Decode α
  | some a => pure a
  | none => fail path problem

/-- The word that a text spells. -/
def word {α : Type} (path what text : String) (parse? : String → Option α) : Decode α :=
  present path (.invalid what text) (parse? text)

def demand (path : String) (problem : Problem) (condition : Bool) : Decode Unit :=
  if condition then pure () else fail path problem

mutual

/-- The node that a record describes, made after its children. -/
def node (path : String) : Record → Decode NodeId
  | ⟨kind, span, name, int, float, bool, suffix, op, lhs, rhs, expr, target, args, object, index,
      statements, var, call, condition, body, otherwise, continuing, initializer, decrement,
      type, addressSpace, access, attributes, params, returnType, returnAttributes, members,
      stage, builtin, value, x, y, z, elem, width, columns, rows, count, comparison, dim⟩ => do
    let done (shape : Shape Symbol NodeId) : Decode NodeId :=
      modifyGet (·.push shape (span.getD {}))
    let declared (kind : VariableKind) : Decode NodeId := do
      let s ← symbol path name
      let t ← optional (path ++ ".type") type
      let i ← optional (path ++ ".initializer") initializer
      let attrs ← list (path ++ ".attributes") 0 attributes
      done (.decl (.value ⟨kind, s, t, i, attrs⟩))
    match Kind.parse? kind with
    | none => fail path (.unknownKind kind)
    | some .ident => do done (.expr (.ident (← symbol path name)))
    | some .int => do
      let v ← present path (.missing "int") int
      let s ← word path "integer suffix" suffix IntSuffix.parse?
      done (.expr (.int v s))
    | some .float => do done (.expr (.float (← present path (.missing "float") float)))
    | some .bool => do done (.expr (.bool (← present path (.missing "bool") bool)))
    | some .binary => do
      let o ← word path "binary operator" op BinaryOp.parse?
      let l ← required (path ++ ".lhs") lhs
      let r ← required (path ++ ".rhs") rhs
      done (.expr (.binary o l r))
    | some .unary => do
      let o ← word path "unary operator" op UnaryOp.parse?
      done (.expr (.unary o (← required (path ++ ".expr") expr)))
    | some .call => do
      let t ← required (path ++ ".target") target
      done (.expr (.call t (← list (path ++ ".args") 0 args)))
    | some .index => do
      let o ← required (path ++ ".object") object
      done (.expr (.index o (← required (path ++ ".index") index)))
    | some .member => do
      let o ← required (path ++ ".object") object
      done (.expr (.member o (← symbol path name)))
    | some .block => do done (.stmt (.block (← list (path ++ ".statements") 0 statements)))
    | some .varDecl => do done (.stmt (.varDecl (← required (path ++ ".variable") var)))
    | some .assign => do
      let l ← required (path ++ ".lhs") lhs
      done (.stmt (.assign l (← required (path ++ ".rhs") rhs)))
    | some .increment => do done (.stmt (.increment (← required (path ++ ".lhs") lhs) decrement))
    | some .callStatement => do done (.stmt (.callStatement (← required (path ++ ".call") call)))
    | some .ifElse => do
      let c ← required (path ++ ".condition") condition
      let b ← required (path ++ ".body") body
      done (.stmt (.ifElse c b (← optional (path ++ ".else") otherwise)))
    | some .forLoop => do
      let i ← optional (path ++ ".initializer") initializer
      let c ← optional (path ++ ".condition") condition
      let t ← optional (path ++ ".continuing") continuing
      done (.stmt (.forLoop i c t (← required (path ++ ".body") body)))
    | some .whileLoop => do
      let c ← required (path ++ ".condition") condition
      done (.stmt (.whileLoop c (← required (path ++ ".body") body)))
    | some .loop => do
      let b ← required (path ++ ".body") body
      done (.stmt (.loop b (← optional (path ++ ".continuing") continuing)))
    | some .breakLoop => done (.stmt .breakLoop)
    | some .continueLoop => done (.stmt .continueLoop)
    | some .discard => done (.stmt .discard)
    | some .ret => do done (.stmt (.ret (← optional (path ++ ".expr") expr)))
    | some .var => do
      let s ← word path "address space" addressSpace AddressSpace.parse?
      let a ← word path "access" access Access.parse?
      declared (.var s a)
    | some .letValue => declared .letValue
    | some .constant => declared .constant
    | some .overridable => declared .overridable
    | some .parameter => declared .parameter
    | some .function => do
      let s ← symbol path name
      let ps ← list (path ++ ".params") 0 params
      let ret ← optional (path ++ ".return_type") returnType
      let retAttrs ← list (path ++ ".return_attributes") 0 returnAttributes
      let b ← required (path ++ ".body") body
      let attrs ← list (path ++ ".attributes") 0 attributes
      done (.decl (.function ⟨s, ps, ret, b, attrs, retAttrs⟩))
    | some .struct => do
      let s ← symbol path name
      let ms ← list (path ++ ".members") 0 members
      done (.decl (.struct s ms (← list (path ++ ".attributes") 0 attributes)))
    | some .structMember => do
      let s ← symbol path name
      let t ← required (path ++ ".type") type
      done (.structMember s t (← list (path ++ ".attributes") 0 attributes))
    | some .typeAlias => do
      let s ← symbol path name
      done (.decl (.typeAlias s (← required (path ++ ".type") type)))
    | some .stageAttribute => do
        done (.attr (.stage (← word path "stage" stage PipelineStage.parse?)))
    | some .workgroupAttribute => do
      let x ← required (path ++ ".x") x
      let y ← optional (path ++ ".y") y
      done (.attr (.workgroup x y (← optional (path ++ ".z") z)))
    | some .builtinAttribute => do
      done (.attr (.builtin (← word path "builtin" builtin BuiltinValue.parse?)))
    | some .locationAttribute => do done (.attr (.location (← present path .missingValue value)))
    | some .groupAttribute => do done (.attr (.group (← present path .missingValue value)))
    | some .bindingAttribute => do done (.attr (.binding (← present path .missingValue value)))
    | some .idAttribute => do done (.attr (.id (← present path .missingValue value)))
    | some .boolType => done (.type .bool)
    | some .i32 => done (.type .i32)
    | some .u32 => done (.type .u32)
    | some .f32 => done (.type .f32)
    | some .vector => do
      demand path (.invalidWidth width) (2 ≤ width && width ≤ 4)
      done (.type (.vector (← required (path ++ ".elem") elem) width))
    | some .matrix => do
      demand path (.invalidShape columns rows)
        (2 ≤ columns && columns ≤ 4 && 2 ≤ rows && rows ≤ 4)
      done (.type (.matrix (← required (path ++ ".elem") elem) columns rows))
    | some .array => do
      demand path (.invalidCount count) (0 ≤ count)
      done (.type (.array (← required (path ++ ".elem") elem) count))
    | some .sampler => done (.type (.sampler comparison))
    | some .sampledTexture => do
      let d ← word path "texture dimension" dim TextureDim.parse?
      done (.type (.sampledTexture d (← required (path ++ ".elem") elem)))
    | some .externalTexture => done (.type .externalTexture)
    | some .typeName => do done (.type (.named (← symbol path name)))

def required (path : String) : Option Record → Decode NodeId
  | none => fail path .missingNode
  | some r => node path r

def optional (path : String) : Option Record → Decode NodeId
  | none => pure 0
  | some r => node path r

/-- The records of a list, from the `i`-th place on. -/
def list (path : String) (i : Nat) : List (Option Record) → Decode (List NodeId)
  | [] => pure []
  | r :: rest => do
    let id ← required (path ++ "[" ++ toString i ++ "]") r
    let ids ← list path (i + 1) rest
    return id :: ids

end

/-- The declarations of the module, each added to the globals once it is made. -/
def globals (i : Nat) : List (Option Record) → Decode Unit
  | [] => pure ()
  | r :: rest => do
    let id ← required ("globals[" ++ toString i ++ "]") r
    modify fun b => { b with globals := b.globals ++ [id] }
    globals (i + 1) rest

end Decode

/-- The program of a document. A document without a version counts as one of the current version. -/
def Module.decode (m : Module) : Except DecodeError Program :=
  if m.version ≠ 0 ∧ m.version ≠ formatVersion then .error (.unsupportedVersion m.version)
  else match Decode.globals 0 m.globals {} with
    | .ok () b => .ok b.build
    | .error e _ => .error e

/-- Why a document is not answered with a program. -/
inductive ReadProblem where
  | refused (problem : DecodeError)
  /-- Its resolution never ends, so that there is no answer at all. -/
  | endless
  deriving DecidableEq, Repr

/-- Reads the program of a document, if its resolution ends. -/
def Module.read (m : Module) : Except ReadProblem Program :=
  match m.decode with
  | .error problem => .error (.refused problem)
  | .ok p => if p.endless then .error .endless else .ok p

end ShaderLoom.Document
