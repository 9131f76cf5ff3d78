import Mathlib.Logic.Function.Basic
import Mathlib.Logic.Relation
import ShaderLoom.Meaning.Module
import ShaderLoom.Proofs.Builder

/-! When a module is well typed. The rules say what resolution finds out where it finds no problem:
which declarations names stand for, which types nodes have, and how the tables of what is known grow
while declarations are resolved at their first use. Nothing in the rules bounds how deep they go. -/
namespace ShaderLoom

namespace Arena

variable {a : Arena} {i : NodeId}

theorem shape?_of_block? {ss : List NodeId} (h : a.block? i = some ss) :
    a.shape? i = some (.stmt (.block ss)) := by
  obtain ⟨x, hx, hss⟩ := Option.bind_eq_some_iff.1 h
  cases x with
  | stmt x =>
    cases x with
    | block ts =>
      cases hss
      exact hx
    | _ => cases hss
  | _ => cases hss

/-- Structures and aliases. -/
theorem shape?_of_isTypeDecl (h : (a.shape? i).any Shape.isTypeDecl = true) :
    (∃ s ms as, a.shape? i = some (.decl (.struct s ms as))) ∨ ∃ s ty,
      a.shape? i = some (.decl (.typeAlias s ty)) := by
  obtain ⟨x, hx, hd⟩ := (Option.any_eq_true _ _).1 h
  cases x with
  | decl x =>
    cases x with
    | struct s ms as => exact .inl ⟨s, ms, as, hx⟩
    | typeAlias s ty => exact .inr ⟨s, ty, hx⟩
    | _ => cases hd
  | _ => cases hd

end Arena

/-- What is known of a variable. -/
structure Made where
  decl : NodeId
  type : Option Ty

/-- What is known of a module, as far as resolution asks for it again. -/
structure Table where
  types : NodeId → Option Ty
  names : NodeId → Option NodeId
  structs : NodeId → Option StructFacts
  results : NodeId → Option (Option Ty)
  latest : NodeId → Option VariableId
  vars : VariableId → Option Made
  size : Nat
  senses : NodeId → Option ExprFacts

namespace Table

variable (T : Table)

def setType (i : NodeId) (t : Ty) : Table := { T with types := Function.update T.types i (some t) }

/-- The type of a node, if it has one. -/
def keepType (i : NodeId) : Option Ty → Table
  | some t => T.setType i t
  | none => T

def setName (i d : NodeId) : Table := { T with names := Function.update T.names i (some d) }

def setStruct (d : NodeId) (s : StructFacts) : Table :=
  { T with structs := Function.update T.structs d (some s) }

def setResult (d : NodeId) (t : Option Ty) : Table :=
  { T with results := Function.update T.results d (some t) }

def note (i : NodeId) (e : ExprFacts) : Table :=
  { T with senses := Function.update T.senses i (some e) }

/-- What an expression was found to be, if there is more to say than that it was met. -/
def keepSense (i : NodeId) : Option ExprFacts → Table
  | some e => T.note i e
  | none => T

/-- One more variable, under the next number. -/
def addValue (d : NodeId) (t : Option Ty) : Table :=
  { T with
    latest := Function.update T.latest d (some T.size)
    vars := Function.update T.vars T.size (some ⟨d, t⟩)
    size := T.size + 1 }

/-- The type of a variable. -/
def typeAt (n : VariableId) : Option Ty := (T.vars n).bind (·.type)

/-- What an identifier of a variable is. -/
def identifier? (n : VariableId) : Option ExprFacts :=
  (T.vars n).map fun v => { variableId := some n, type := v.type }

/-- An identifier is found to be a variable. -/
def use (i : NodeId) (n : VariableId) : Table := T.keepSense i (T.identifier? n)

@[simp] theorem latest_addValue (d : NodeId) (t : Option Ty) :
    (T.addValue d t).latest = Function.update T.latest d (some T.size) := rfl

@[simp] theorem latest_note (i : NodeId) (e : ExprFacts) : (T.note i e).latest = T.latest := rfl

@[simp] theorem latest_keepSense (i : NodeId) (o : Option ExprFacts) :
    (T.keepSense i o).latest = T.latest := by
  cases o <;> rfl

@[simp] theorem latest_use (i : NodeId) (n : VariableId) : (T.use i n).latest = T.latest :=
  T.latest_keepSense i _

/-- What `object.name` is for an object of a type. -/
def select (name : String) : Ty → Option ExprFacts
  | .struct d _ =>
    ((T.structs d).bind (·.member? name)).map fun m => { member := some m, type := m.type }
  | .vector e w => (swizzle? name w).map fun is =>
    { swizzle := some is, type := some (if is.length = 1 then e else .vector e is.length) }
  | _ => none

variable {T} in
theorem stmt_select {name : String} {t : Ty} {e : ExprFacts} (h : T.select name t = some e) :
    e.stmt = 0 := by
  unfold select at h
  split at h
  · obtain ⟨m, _, rfl⟩ := Option.map_eq_some_iff.1 h
    rfl
  · obtain ⟨m, _, rfl⟩ := Option.map_eq_some_iff.1 h
    rfl
  · cases h

/-- What an expression is that names and calls nothing, given the types of its operands. An object
whose type is unknown leaves everything about its parts unknown. -/
def compose (a : Arena) : ExprShape Symbol NodeId → List (Option Ty) → Option (Option ExprFacts)
  | .int _ suffix, _ => some (some { type := some (if suffix = .u then .u32 else .i32) })
  | .float _, _ => some (some { type := some .f32 })
  | .bool _, _ => some (some { type := some .bool })
  | .binary op _ _, [l, r] => some (some { type := binaryType op l r })
  | .unary _ _, [t] => some (some { type := t })
  | .index _ _, [none, _] => some none
  | .index _ _, [some t, _] => (Resolve.indexed t).toOption.map fun u => some { type := some u }
  | .member _ _, [none] => some none
  | .member _ s, [some t] => (T.select (a.nameOf s) t).map some
  | _, _ => none

end Table

namespace TypeShape

variable {ν α : Type}

/-- The type that a node stands for by itself. -/
def plain? : TypeShape ν α → Option Ty
  | bool => some .bool
  | i32 => some .i32
  | u32 => some .u32
  | f32 => some .f32
  | sampler c => some (.sampler c)
  | externalTexture => some .externalTexture
  | _ => none

/-- The node of the element type, and the type made of it. -/
def around? : TypeShape ν α → Option (α × (Ty → Ty))
  | vector e w => some (e, (.vector · w))
  | matrix e c r => some (e, (.matrix · c r))
  | array e n => some (e, (.array · n))
  | sampledTexture d e => some (e, .sampledTexture d)
  | _ => none

end TypeShape

/-- The expressions that an expression is made of. The target of a call is not one. -/
def ExprShape.operands {ν α : Type} : ExprShape ν α → List α
  | binary _ l r => [l, r]
  | unary _ e => [e]
  | call _ args => args
  | index o i => [o, i]
  | member o _ => [o]
  | _ => []

/-- The expressions in a statement without statements or declarations in it. -/
def StmtShape.reads? {α : Type} : StmtShape α → Option (List α)
  | assign l r => some [l, r]
  | increment l _ => some [l]
  | callStatement e => some [e]
  | breakLoop => some []
  | continueLoop => some []
  | discard => some []
  | ret v => some [v]
  | _ => none

def Shape.isStructMember {ν α : Type} : Shape ν α → Bool
  | structMember _ _ _ => true
  | _ => false

/-- The declaration that a name stands for inside levels of a module. -/
def visible (M : Frame) (Γ : List Frame) (s : Symbol) : Option NodeId :=
  (Γ.findSome? (Frame.find? · s)).or (M.find? s)

/-- The levels after a declaration at the innermost one, which may not have the name already. -/
def declareIn : List Frame → Symbol → NodeId → Option (List Frame)
  | [], _, _ => some []
  | top :: rest, s, d => if (Frame.find? top s).isSome then none else some (((s, d) :: top) :: rest)

/-- Whatever may be found out about an expression. -/
abbrev Anything : NodeId → ExprFacts → Prop := fun _ _ => True

/-- What is found out about a type node, a structure or alias, or members with their positions. -/
inductive TypeFinding where
  | node (i : NodeId) (t : Option Ty)
  | decl (d : NodeId) (t : Option Ty)
  | members (ms : List (NodeId × Nat)) (found : List MemberFacts)

section

variable (a : Arena) (M : Frame)

/-- Types. A structure is known once it is met, an alias once its type is; neither is met again
while it is among the `pending` ones. -/
inductive Typing : List NodeId → Table → TypeFinding → Table → Prop
  | absent {P T} : Typing P T (.node 0 none) T
  | plain {P T i x t} : a.shape? i = some (.type x) → x.plain? = some t →
    Typing P T (.node i (some t)) (T.setType i t)
  | around {P T T' i x e f t} : a.shape? i = some (.type x) → x.around? = some (e, f) →
    Typing P T (.node e t) T' →
    Typing P T (.node i (t.map f)) (T'.keepType i (t.map f))
  | named {P T T' i s d t} : a.shape? i = some (.type (.named s)) → M.find? s = some d →
    (a.shape? d).any Shape.isTypeDecl = true → Typing P (T.setName i d) (.decl d t) T' →
    Typing P T (.node i t) (T'.keepType i t)
  | known {P T d t} : T.types d = some t → Typing P T (.decl d (some t)) T
  | struct {P T T' d s ms as found} : a.shape? d = some (.decl (.struct s ms as)) →
    T.types d = none → d ∉ P →
    Typing (d :: P)
    ((T.setStruct d { decl := d, name := a.nameOf s }).setType d (.struct d (a.nameOf s)))
      (.members ms.zipIdx found) T' →
    Typing P T (.decl d (some (.struct d (a.nameOf s))))
      (T'.setStruct d { decl := d, name := a.nameOf s, members := found })
  | typeAlias {P T T' d s ty t} : a.shape? d = some (.decl (.typeAlias s ty)) →
    T.types d = none → d ∉ P →
    Typing (d :: P) T (.node ty t) T' → Typing P T (.decl d t) (T'.keepType d t)
  | nil {P T} : Typing P T (.members [] []) T
  | member {P T T₁ T₂ m k s ty as t ms found} : a.shape? m = some (.structMember s ty as) →
    Typing P T (.node ty t) T₁ → Typing P T₁ (.members ms found) T₂ →
    Typing P T (.members ((m, k) :: ms)
      ({ decl := m, name := a.nameOf s, type := t, index := k, builtin := a.builtinOf as } ::
        found)) T₂
  | stray {P T T' m k ms found} : (a.shape? m).any Shape.isStructMember = false →
    Typing P T (.members ms found) T' → Typing P T (.members ((m, k) :: ms) found) T'

/-- Tables that differ in what they say of types only. -/
structure Table.SameBeyondTypes (T T' : Table) : Prop where
  results : T'.results = T.results
  latest : T'.latest = T.latest
  vars : T'.vars = T.vars
  size : T'.size = T.size
  senses : T'.senses = T.senses

theorem Table.SameBeyondTypes.refl (T : Table) : T.SameBeyondTypes T := ⟨rfl, rfl, rfl, rfl, rfl⟩

theorem Table.SameBeyondTypes.trans {T T₁ T₂ : Table} (h : T.SameBeyondTypes T₁)
    (h' : T₁.SameBeyondTypes T₂) : T.SameBeyondTypes T₂ :=
  ⟨h'.results.trans h.results, h'.latest.trans h.latest, h'.vars.trans h.vars, h'.size.trans h.size,
    h'.senses.trans h.senses⟩

theorem Table.SameBeyondTypes.keepType {T T' : Table} (h : T.SameBeyondTypes T') (i : NodeId)
    (t : Option Ty) : T.SameBeyondTypes (T'.keepType i t) := by
  cases t with
  | none => exact h
  | some t => exact ⟨h.results, h.latest, h.vars, h.size, h.senses⟩

variable {a M} in
theorem Typing.beyond {P : List NodeId} {T T' : Table} {f : TypeFinding} (h : Typing a M P T f T') :
    T.SameBeyondTypes T' := by
  induction h with
  | absent => exact .refl _
  | plain => exact ⟨rfl, rfl, rfl, rfl, rfl⟩
  | around _ _ _ ih => exact ih.keepType _ _
  | named _ _ _ _ ih =>
    refine Table.SameBeyondTypes.keepType ?_ _ _
    exact ⟨ih.results, ih.latest, ih.vars, ih.size, ih.senses⟩
  | known => exact .refl _
  | struct _ _ _ _ ih => exact ⟨ih.results, ih.latest, ih.vars, ih.size, ih.senses⟩
  | typeAlias _ _ _ _ ih => exact ih.keepType _ _
  | nil => exact .refl _
  | member _ _ _ ih₁ ih₂ => exact ih₁.trans ih₂
  | stray _ _ ih => exact ih

/-- What a call calls. -/
inductive Callee where
  | constructor (t : Option Ty)
  | builtin (name : String) (rule : BuiltinRule)
  | function (d : NodeId) (t : Option Ty)

/-- What a call of it is, given the types of the arguments. -/
def Callee.sense : Callee → List (Option Ty) → ExprFacts
  | constructor t, _ => { type := t }
  | builtin name rule, ts => { builtin := name, type := rule.result ts }
  | function d t, _ => { target := some d, type := t }

/-- Targets of calls. A name that is neither a function's nor a type's at module scope is a builtin
function's. -/
inductive Calling : Table → NodeId → Callee → Table → Prop
  | typed {T T' g x t} : a.shape? g = some (.type x) → Typing a M [] T (.node g t) T' →
    Calling T g (.constructor t) T'
  | declared {T T' g s d t} : a.shape? g = some (.expr (.ident s)) → M.find? s = some d →
    (a.shape? d).any Shape.isTypeDecl = true → Typing a M [] T (.decl d t) T' →
    Calling T g (.constructor t) T'
  | function {T g s d f t} : a.shape? g = some (.expr (.ident s)) → M.find? s = some d →
    a.function? d = some f →
    T.results d = some t → Calling T g (.function d t) T
  | builtin {T g s rule} : a.shape? g = some (.expr (.ident s)) →
    (∀ d, M.find? s = some d → (a.shape? d).any Shape.isTypeDecl = false ∧ a.function? d = none) →
    builtinRule? (a.nameOf s) = some rule → Calling T g (.builtin (a.nameOf s) rule) T

/-- The type of a variable is the one it names, or else that of its initializer. -/
inductive Valued (v : VariableShape Symbol NodeId) (t₀ : Option Ty) :
    Table → Option Ty → Table → Prop
  | named {T T' t} : v.type ≠ 0 → Typing a M [] T (.node v.type t) T' → Valued v t₀ T t T'
  | inferred {T} : v.type = 0 → v.initializer ≠ 0 → Valued v t₀ T t₀ T

/-- What is found out about an expression or a list of them. -/
inductive ExprFinding where
  | one (e : NodeId) (t : Option Ty)
  | all (es : List NodeId) (ts : List (Option Ty))

/-- The expressions that something is found out about. -/
@[simp] def ExprFinding.nodes : ExprFinding → List NodeId
  | one e _ => [e]
  | all es _ => es

variable (F : NodeId → ExprFacts → Prop)

/-- Expressions inside levels of a module, where `F` allows only some findings. A variable of the
module is resolved at its first use. -/
inductive Sensing (Γ : List Frame) : Table → ExprFinding → Table → Prop
  | absent {T} : Sensing Γ T (.one 0 none) T
  | known {T i s d n} : a.shape? i = some (.expr (.ident s)) → visible M Γ s = some d →
    T.latest d = some n →
    F i ((T.identifier? n).getD {}) → Sensing Γ T (.one i (T.typeAt n)) ((T.note i {}).use i n)
  | entered {T T₁ T₂ i s d v t₀ t} : a.shape? i = some (.expr (.ident s)) → visible M Γ s = some d →
    T.latest d = none → a.asVariable? d = some v →
    Sensing Γ (T.note i {}) (.one v.initializer t₀) T₁ →
    Valued a M v t₀ T₁ t T₂ → F i { variableId := some T₂.size, type := t } →
    Sensing Γ T (.one i t) ((T₂.addValue d t).use i T₂.size)
  | plain {T T₁ i x ts o} : a.shape? i = some (.expr x) →
    Sensing Γ (T.note i {}) (.all x.operands ts) T₁ →
    T₁.compose a x ts = some o → F i (o.getD {}) →
    Sensing Γ T (.one i (o.bind (·.type))) (T₁.keepSense i o)
  | call {T T₁ T₂ i g args ts k} : a.shape? i = some (.expr (.call g args)) →
    Sensing Γ (T.note i {}) (.all args ts) T₁ → Calling a M T₁ g k T₂ → F i (k.sense ts) →
    Sensing Γ T (.one i (k.sense ts).type) (T₂.note i (k.sense ts))
  | nil {T} : Sensing Γ T (.all [] []) T
  | cons {T T₁ T₂ e t es ts} : Sensing Γ T (.one e t) T₁ → Sensing Γ T₁ (.all es ts) T₂ →
    Sensing Γ T (.all (e :: es) (t :: ts)) T₂

/-- The declaration of a local variable or a parameter. -/
inductive Declaring (d : NodeId) (v : VariableShape Symbol NodeId) :
    List Frame → Table → List Frame → Table → Prop
  | intro {Γ Γ' T T₁ T₂ t₀ t} : Sensing a M F Γ T (.one v.initializer t₀) T₁ →
    Valued a M v t₀ T₁ t T₂ →
    declareIn Γ v.name d = some Γ' → Declaring d v Γ T Γ' (T₂.addValue d t)

/-- A statement, a list of statements, or a loop body that opens no level of its own. -/
inductive Part where
  | one (i : NodeId)
  | all (is : List NodeId)
  | body (i : NodeId)

/-- Statements inside levels of a module, and the levels after them. -/
inductive Scoping : List Frame → Table → Part → List Frame → Table → Prop
  | absent {Γ T} : Scoping Γ T (.one 0) Γ T
  | simple {Γ T T' i s es ts} : a.shape? i = some (.stmt s) → s.reads? = some es →
    Sensing a M F Γ T (.all es ts) T' →
    Scoping Γ T (.one i) Γ T'
  | varDecl {Γ Γ' T T' i d v} : a.shape? i = some (.stmt (.varDecl d)) → a.asVariable? d = some v →
    Declaring a M F d v Γ T Γ' T' → Scoping Γ T (.one i) Γ' T'
  | stray {Γ T i d} : a.shape? i = some (.stmt (.varDecl d)) → a.asVariable? d = none →
    Scoping Γ T (.one i) Γ T
  | block {Γ Γ' T T' i ss} : a.shape? i = some (.stmt (.block ss)) →
    Scoping ([] :: Γ) T (.all ss) Γ' T' →
    Scoping Γ T (.one i) (Γ'.drop 1) T'
  | ifElse {Γ Γ₂ Γ₃ T T₁ T₂ T₃ i c b e t} : a.shape? i = some (.stmt (.ifElse c b e)) →
    Sensing a M F Γ T (.one c t) T₁ → Scoping Γ T₁ (.one b) Γ₂ T₂ → Scoping Γ₂ T₂ (.one e) Γ₃ T₃ →
    Scoping Γ T (.one i) Γ₃ T₃
  | forLoop {Γ Γ₁ Γ₃ Γ₄ T T₁ T₂ T₃ T₄ i init c cont b t} :
    a.shape? i = some (.stmt (.forLoop init c cont b)) →
    Scoping ([] :: Γ) T (.one init) Γ₁ T₁ → Sensing a M F Γ₁ T₁ (.one c t) T₂ →
    Scoping Γ₁ T₂ (.one b) Γ₃ T₃ →
    Scoping Γ₃ T₃ (.one cont) Γ₄ T₄ → Scoping Γ T (.one i) (Γ₄.drop 1) T₄
  | whileLoop {Γ Γ₂ T T₁ T₂ i c b t} : a.shape? i = some (.stmt (.whileLoop c b)) →
    Sensing a M F Γ T (.one c t) T₁ →
    Scoping Γ T₁ (.one b) Γ₂ T₂ → Scoping Γ T (.one i) Γ₂ T₂
  | loop {Γ Γ₁ Γ₂ T T₁ T₂ i b cont} : a.shape? i = some (.stmt (.loop b cont)) →
    Scoping ([] :: Γ) T (.body b) Γ₁ T₁ → Scoping Γ₁ T₁ (.one cont) Γ₂ T₂ →
    Scoping Γ T (.one i) (Γ₂.drop 1) T₂
  | opened {Γ Γ' T T' b ss} : a.block? b = some ss → Scoping Γ T (.all ss) Γ' T' →
    Scoping Γ T (.body b) Γ' T'
  | lacking {Γ T b} : a.block? b = none → Scoping Γ T (.body b) Γ T
  | nil {Γ T} : Scoping Γ T (.all []) Γ T
  | cons {Γ Γ₁ Γ₂ T T₁ T₂ s ss} : Scoping Γ T (.one s) Γ₁ T₁ → Scoping Γ₁ T₁ (.all ss) Γ₂ T₂ →
    Scoping Γ T (.all (s :: ss)) Γ₂ T₂

/-- A declaration of the module, other than a function. -/
inductive Introducing (d : NodeId) : Table → Table → Prop
  | type {T T' t} : (a.shape? d).any Shape.isTypeDecl = true → Typing a M [] T (.decl d t) T' →
    Introducing d T T'
  | known {T v n} : a.asVariable? d = some v → T.latest d = some n → Introducing d T T
  | value {T T₁ T₂ v t₀ t} : a.asVariable? d = some v → T.latest d = none →
    Sensing a M F [] T (.one v.initializer t₀) T₁ → Valued a M v t₀ T₁ t T₂ →
    Introducing d T (T₂.addValue d t)
  | other {T} : (a.shape? d).any Shape.isTypeDecl = false → a.asVariable? d = none →
    Introducing d T T

/-- What callers see of a function. -/
inductive Heading (d : NodeId) : Table → Table → Prop
  | typed {T T' f t} : a.function? d = some f → f.returnType ≠ 0 →
    Typing a M [] (T.setResult d (some .void)) (.node f.returnType t) T' →
    Heading d T (T'.setResult d t)
  | void {T f} : a.function? d = some f → f.returnType = 0 →
    Heading d T (T.setResult d (some .void))
  | other {T} : a.function? d = none → Heading d T T

/-- Parameters, one after another. -/
inductive Parameters : List NodeId → List Frame → Table → List Frame → Table → Prop
  | nil {Γ T} : Parameters [] Γ T Γ T
  | cons {Γ Γ₁ Γ₂ T T₁ T₂ d v ds} : a.asVariable? d = some v → v.kind = .parameter →
    Declaring a M F d v Γ T Γ₁ T₁ →
    Parameters ds Γ₁ T₁ Γ₂ T₂ → Parameters (d :: ds) Γ T Γ₂ T₂

/-- The inside of a function. -/
inductive Containing (d : NodeId) : Table → Table → Prop
  | function {Γ Γ' T T₁ T₂ f} : a.function? d = some f → Parameters a M F f.params [[]] T Γ T₁ →
    Scoping a M F Γ T₁ (.one f.body) Γ' T₂ → Containing d T T₂
  | other {T} : a.function? d = none → Containing d T T

end

/-- One step after another, along a list. -/
inductive Along {σ : Type} (step : NodeId → σ → σ → Prop) : List NodeId → σ → σ → Prop
  | nil {T} : Along step [] T T
  | cons {T T₁ T₂ d ds} : step d T T₁ → Along step ds T₁ T₂ → Along step (d :: ds) T T₂

/-- Nothing is known yet. -/
def Table.empty : Table :=
  ⟨fun _ => none, fun _ => none, fun _ => none, fun _ => none, fun _ => none, fun _ => none, 0,
  fun _ => none⟩

/-- A module whose declarations have different names is well typed if its types and values are, then
its functions' heads, then their bodies. -/
structure WellTyped (a : Arena) (F : NodeId → ExprFacts → Prop) (gs : List NodeId) (M : Frame)
    (T : Table) : Prop where
  names : gs.foldl (Resolve.collect a) ([], []) = (M, [])
  phases : ∃ T₁ T₂, Along (Introducing a M F) gs .empty T₁ ∧ Along (Heading a M) gs T₁ T₂ ∧
    Along (Containing a M F) gs T₂ T

theorem Valued.beyond {a : Arena} {M : Frame} {v : VariableShape Symbol NodeId} {t₀ t : Option Ty}
    {T T' : Table} (h : Valued a M v t₀ T t T') : T.SameBeyondTypes T' := by
  cases h with
  | named _ h => exact h.beyond
  | inferred _ _ => exact .refl _

theorem Calling.beyond {a : Arena} {M : Frame} {g : NodeId} {k : Callee} {T T' : Table}
    (h : Calling a M T g k T') : T.SameBeyondTypes T' := by
  cases h with
  | typed _ h => exact h.beyond
  | declared _ _ _ h => exact h.beyond
  | function _ _ _ _ => exact .refl _
  | builtin _ _ _ => exact .refl _

variable {a : Arena} {M : Frame} {F : NodeId → ExprFacts → Prop} {Γ Γ' : List Frame} {T T' : Table}

theorem Sensing.latest_mono {f : ExprFinding} (h : Sensing a M F Γ T f T') {d : NodeId}
    (hd : (T.latest d).isSome) : (T'.latest d).isSome := by
  induction h with
  | absent => exact hd
  | known => simpa using hd
  | @entered T T₁ T₂ i s d' v t₀ t _ _ _ _ _ hval _ ih =>
    rw [Table.latest_use, Table.latest_addValue, Function.update_apply]
    split
    · rfl
    · rw [(Valued.beyond hval).latest]
      exact ih hd
  | plain _ _ _ _ ih => simpa using ih hd
  | call _ _ hk _ ih =>
    rw [Table.latest_note, (Calling.beyond hk).latest]
    exact ih hd
  | nil => exact hd
  | cons _ _ ih₁ ih₂ => exact ih₂ (ih₁ hd)

/-- Whatever the levels declare is known. -/
def LocalsKnown (Γ : List Frame) (T : Table) : Prop := ∀ L ∈ Γ, ∀ x ∈ L, (T.latest x.2).isSome

theorem mem_of_find? {L : Frame} {s : Symbol} {d : NodeId} (h : L.find? s = some d) :
    (s, d) ∈ L := by
  obtain ⟨x, hx, rfl⟩ := Option.map_eq_some_iff.1 h
  have hname : x.1 = s := by simpa using List.find?_some hx
  rw [← hname]
  exact List.mem_of_find?_eq_some hx

/-- Taking in the names of declarations takes in no others. -/
theorem Resolve.mem_collect {a : Arena} {gs : List NodeId} {x : Frame × Diagnostics} {s : Symbol}
    {d : NodeId} (h : (s, d) ∈ (gs.foldl (collect a) x).1) : (s, d) ∈ x.1 ∨ d ∈ gs := by
  induction gs generalizing x with
  | nil => exact .inl h
  | cons g gs ih =>
    rcases ih h with h | h
    · unfold collect at h
      dsimp only at h
      split at h
      · exact .inl h
      · split at h
        · exact .inl h
        · rcases List.mem_append.1 h with h | h
          · exact .inl h
          · cases List.mem_singleton.1 h
            exact .inr List.mem_cons_self
    · exact .inr (List.mem_cons_of_mem _ h)

/-- The names of a module stand for its declarations. -/
theorem Resolve.mem_of_collect {a : Arena} {gs : List NodeId} {s : Symbol} {d : NodeId}
    (h : (gs.foldl (collect a) ([], [])).1.find? s = some d) : d ∈ gs :=
  (Resolve.mem_collect (mem_of_find? h)).resolve_left List.not_mem_nil

/-- Names that are taken in without a problem are new, one after the other. -/
theorem Resolve.collect_cons {a : Arena} {d : NodeId} {gs : List NodeId} {N M : Frame}
    (h : (d :: gs).foldl (collect a) (N, []) = (M, [])) :
    ∃ s, (a.shape? d).bind Shape.declName? = some s ∧
      N.find? s = none ∧ gs.foldl (collect a) (N ++ [(s, d)], []) = (M, []) := by
  have hgrow : ∀ (gs : List NodeId) (x : Frame × Diagnostics),
      x.2 ≠ [] → (gs.foldl (collect a) x).2 ≠ [] := by
    intro gs
    induction gs with
    | nil => exact fun _ h => h
    | cons g gs ih =>
      intro x hx
      refine ih _ ?_
      unfold collect
      dsimp only
      split
      · simp
      · split
        · simp
        · exact hx
  rw [List.foldl_cons] at h
  have hclean : (collect a (N, []) d).2 = [] := by
    by_contra hne
    exact hgrow gs _ hne (congrArg Prod.snd h)
  cases hd : (a.shape? d).bind Shape.declName? with
  | none => simp [collect, hd] at hclean
  | some s =>
    cases hs : N.find? s with
    | some x => simp [collect, hd, hs] at hclean
    | none =>
      have hstep : collect a (N, []) d = (N ++ [(s, d)], []) := by simp [collect, hd, hs]
      exact ⟨s, rfl, hs, hstep ▸ h⟩

/-- Names that are taken in without a problem are found again. -/
theorem Resolve.find?_of_collect {a : Arena} {gs : List NodeId} {N M : Frame}
    (h : gs.foldl (collect a) (N, []) = (M, [])) :
    (∀ s d, N.find? s = some d → M.find? s = some d) ∧
      ∀ d ∈ gs, ∃ s, (a.shape? d).bind Shape.declName? = some s ∧ M.find? s = some d := by
  induction gs generalizing N with
  | nil =>
    cases h
    exact ⟨fun _ _ h => h, fun d hd => absurd hd List.not_mem_nil⟩
  | cons g gs ih =>
    obtain ⟨s, hs, hnew, h⟩ := collect_cons h
    obtain ⟨hkeep, hfound⟩ := ih h
    have hg : (N ++ [(s, g)] : Frame).find? s = some g := by
      have hnew : List.find? (·.1 == s) N = none := by simpa [Frame.find?] using hnew
      simp [Frame.find?, List.find?_append, hnew]
    refine ⟨fun t d hd => hkeep t d ?_, fun d hd => ?_⟩
    · obtain ⟨x, hx, rfl⟩ := Option.map_eq_some_iff.1 hd
      simp [Frame.find?, List.find?_append, hx]
    · rcases List.mem_cons.1 hd with rfl | hd
      · exact ⟨s, hs, hkeep s _ hg⟩
      · exact hfound d hd

/-- What is visible but not known is the module's. -/
theorem LocalsKnown.find? (h : LocalsKnown Γ T) {s : Symbol} {d : NodeId}
    (hd : visible M Γ s = some d) (hnone : T.latest d = none) : M.find? s = some d := by
  unfold visible at hd
  cases hfind : Γ.findSome? (Frame.find? · s) with
  | none => simpa [hfind] using hd
  | some d' =>
    rw [hfind, Option.some_or] at hd
    cases hd
    obtain ⟨L, hL, hfind⟩ := List.exists_of_findSome?_eq_some hfind
    have hknown := h L hL _ (mem_of_find? hfind)
    rw [hnone] at hknown
    cases hknown

/-- What a declaration adds to the levels is known, and nothing is forgotten. -/
theorem LocalsKnown.declare {s : Symbol} {d : NodeId} {t : Option Ty} (h : LocalsKnown Γ T)
    (hT : ∀ x, (T.latest x).isSome → (T'.latest x).isSome) (hΓ : declareIn Γ s d = some Γ') :
    LocalsKnown Γ' (T'.addValue d t) := by
  have hmono : ∀ x, (T.latest x).isSome → ((T'.addValue d t).latest x).isSome := by
    intro x hx
    rw [Table.latest_addValue, Function.update_apply]
    split
    · rfl
    · exact hT x hx
  cases Γ with
  | nil =>
    cases hΓ
    exact fun L hL => absurd hL List.not_mem_nil
  | cons top rest =>
    rw [declareIn] at hΓ
    split at hΓ
    · cases hΓ
    · cases hΓ
      intro L hL x hx
      rcases List.mem_cons.1 hL with rfl | hL
      · rcases List.mem_cons.1 hx with rfl | hx
        · simp
        · exact hmono _ (h _ List.mem_cons_self _ hx)
      · exact hmono _ (h _ (List.mem_cons_of_mem _ hL) _ hx)

theorem LocalsKnown.mono (h : LocalsKnown Γ T)
    (hT : ∀ x, (T.latest x).isSome → (T'.latest x).isSome) : LocalsKnown Γ T' :=
  fun L hL x hx => hT _ (h L hL x hx)

theorem LocalsKnown.declaring {d : NodeId} {v : VariableShape Symbol NodeId} (h : LocalsKnown Γ T)
    (hd : Declaring a M F d v Γ T Γ' T') : LocalsKnown Γ' T' := by
  obtain ⟨hinit, hval, hdeclare⟩ := hd
  refine h.declare (fun x hx => ?_) hdeclare
  rw [(Valued.beyond hval).latest]
  exact hinit.latest_mono hx

theorem LocalsKnown.parameters {ds : List NodeId} (hp : Parameters a M F ds Γ T Γ' T')
    (h : LocalsKnown Γ T) : LocalsKnown Γ' T' := by
  induction hp with
  | nil => exact h
  | cons _ _ hd _ ih => exact ih (h.declaring hd)

theorem LocalsKnown.scoping {part : Part} (hs : Scoping a M F Γ T part Γ' T')
    (h : LocalsKnown Γ T) : LocalsKnown Γ' T' := by
  have hpush : ∀ {Γ T}, LocalsKnown Γ T → LocalsKnown ([] :: Γ) T := by
    intro Γ T h L hL x hx
    rcases List.mem_cons.1 hL with rfl | hL
    · cases hx
    · exact h L hL x hx
  have hpop : ∀ {Γ T}, LocalsKnown Γ T → LocalsKnown (Γ.drop 1) T :=
    fun h L hL => h L (List.mem_of_mem_drop hL)
  induction hs with
  | absent => exact h
  | simple _ _ hes => exact h.mono fun x hx => hes.latest_mono hx
  | varDecl _ _ hd => exact h.declaring hd
  | stray => exact h
  | block _ _ ih => exact hpop (ih (hpush h))
  | ifElse _ hcond _ _ ih₁ ih₂ => exact ih₂ (ih₁ (h.mono fun x hx => hcond.latest_mono hx))
  | forLoop _ _ hcond _ _ ih₁ ih₂ ih₃ =>
    exact hpop (ih₃ (ih₂ ((ih₁ (hpush h)).mono fun x hx => hcond.latest_mono hx)))
  | whileLoop _ hcond _ ih => exact ih (h.mono fun x hx => hcond.latest_mono hx)
  | loop _ _ _ ih₁ ih₂ => exact hpop (ih₂ (ih₁ (hpush h)))
  | opened _ _ ih => exact ih h
  | lacking => exact h
  | nil => exact h
  | cons _ _ ih₁ ih₂ => exact ih₂ (ih₁ h)

/-- What resolving an expression leads to: its operands, and the initializer of a variable of the
module whose name it is. -/
def Leads (a : Arena) (M : Frame) (e x : NodeId) : Prop :=
  (∃ y, a.shape? e = some (.expr y) ∧ x ∈ y.operands) ∨
    ∃ s d v, a.shape? e = some (.expr (.ident s)) ∧ M.find? s = some d ∧ a.asVariable? d = some v ∧
      x = v.initializer

/-- Nothing that resolving the expression leads to leads back to it. -/
abbrev Grounded (a : Arena) (M : Frame) : NodeId → Prop := Acc fun x e => Leads a M e x

/-- The initializers of the variables that are known are grounded. -/
def GroundedIn (a : Arena) (M : Frame) (T : Table) : Prop :=
  ∀ d v, (T.latest d).isSome → a.asVariable? d = some v → Grounded a M v.initializer

theorem grounded_zero (a : Arena) (M : Frame) : Grounded a M 0 :=
  .intro _ fun x hx => by
    rcases hx with ⟨y, hy, _⟩ | ⟨s, d, v, hs, _⟩
    · cases hy
    · cases hs

theorem not_lead_back {e : NodeId} (h : Grounded a M e) : ¬ Relation.TransGen (Leads a M) e e := by
  induction h with
  | intro e _ ih =>
    intro he
    obtain ⟨x, hx, hrest⟩ := Relation.TransGen.head'_iff.1 he
    rcases Relation.reflTransGen_iff_eq_or_transGen.1 hrest with rfl | hrest
    · exact ih _ hx (.single hx)
    · exact ih x hx (hrest.tail hx)

/-- An identifier is grounded if the variable of the module that it names is. -/
theorem grounded_ident {i : NodeId} {s : Symbol} (hs : a.shape? i = some (.expr (.ident s)))
    (h : ∀ d v, M.find? s = some d → a.asVariable? d = some v → Grounded a M v.initializer) :
    Grounded a M i := by
  refine .intro _ fun x hx => ?_
  rcases hx with ⟨y, hy, hmem⟩ | ⟨s', d, v, hs', hd, hv, rfl⟩
  · rw [hs] at hy
    cases hy
    cases hmem
  · rw [hs] at hs'
    cases hs'
    exact h d v hd hv

theorem grounded_of_find? {i d : NodeId} {s : Symbol} (hs : a.shape? i = some (.expr (.ident s)))
    (hd : M.find? s = some d) (h : ∀ v, a.asVariable? d = some v → Grounded a M v.initializer) :
    Grounded a M i := by
  refine grounded_ident hs fun d' v hd' hv => ?_
  cases hd.symm.trans hd'
  exact h v hv

/-- Any other expression is grounded if its operands are. -/
theorem grounded_of_operands {i : NodeId} {x : ExprShape Symbol NodeId}
    (hx : a.shape? i = some (.expr x)) (hnot : ∀ s, x ≠ .ident s)
    (h : ∀ e ∈ x.operands, Grounded a M e) : Grounded a M i := by
  refine .intro _ fun z hz => ?_
  rcases hz with ⟨y, hy, hmem⟩ | ⟨s, _, _, hs, _⟩
  · rw [hx] at hy
    cases hy
    exact h z hmem
  · rw [hx] at hs
    cases hs
    exact absurd rfl (hnot s)

theorem grounded_of_no_expr {i : NodeId} (h : ∀ x, a.shape? i ≠ some (.expr x)) :
    Grounded a M i := by
  refine .intro _ fun z hz => ?_
  rcases hz with ⟨x, hx, _⟩ | ⟨s, _, _, hs, _⟩
  · exact absurd hx (h x)
  · exact absurd hs (h _)

theorem GroundedIn.of_latest (hT : GroundedIn a M T) (h : T'.latest = T.latest) :
    GroundedIn a M T' :=
  fun d v hd hv => hT d v (h ▸ hd) hv

/-- A variable may join those that are known once it is grounded. -/
theorem GroundedIn.addValue {d : NodeId} {t : Option Ty} (hT : GroundedIn a M T)
    (hd : ∀ v, a.asVariable? d = some v → Grounded a M v.initializer) :
    GroundedIn a M (T.addValue d t) := by
  intro x v hx hv
  by_cases hxd : x = d
  · subst hxd
    exact hd v hv
  · rw [Table.latest_addValue, Function.update_of_ne hxd] at hx
    exact hT x v hx hv

/-- What was resolved at module scope is grounded. -/
theorem Sensing.grounded {f : ExprFinding} (h : Sensing a M F [] T f T')
    (hT : GroundedIn a M T) : GroundedIn a M T' ∧ ∀ e ∈ f.nodes, Grounded a M e := by
  have hident : ∀ {i s d}, a.shape? i = some (.expr (.ident s)) → M.find? s = some d →
      (∀ v, a.asVariable? d = some v → Grounded a M v.initializer) → ∀ e ∈ [i], Grounded a M e := by
    intro i s d hs hd h e he
    rw [List.mem_singleton.1 he]
    exact grounded_of_find? hs hd h
  have hnode : ∀ {i x}, a.shape? i = some (.expr x) → (∀ s, x ≠ .ident s) →
      (∀ e ∈ x.operands, Grounded a M e) →
      ∀ e ∈ [i], Grounded a M e := by
    intro i x hx hnot h e he
    rw [List.mem_singleton.1 he]
    exact grounded_of_operands hx hnot h
  induction h with
  | absent => exact ⟨hT, by simpa [ExprFinding.nodes] using grounded_zero a M⟩
  | @known T i s d n hs hd hn _ =>
    exact ⟨hT.of_latest (Table.latest_use ..), hident hs hd fun v hv => hT d v (by simp [hn]) hv⟩
  | @entered T T₁ T₂ i s d v t₀ t hs hd hnone hv _ hval _ ih =>
    obtain ⟨hT₁, hinit⟩ := ih hT
    replace hinit := hinit _ (List.mem_singleton.2 rfl)
    have hdecl : ∀ w, a.asVariable? d = some w → Grounded a M w.initializer := by
      intro w hw
      cases hv.symm.trans hw
      exact hinit
    have hT₂ : GroundedIn a M T₂ := hT₁.of_latest (Valued.beyond hval).latest
    exact ⟨(hT₂.addValue hdecl).of_latest (Table.latest_use ..), hident hs hd hdecl⟩
  | @plain T T₁ i x ts o hx _ hcompose _ ih =>
    obtain ⟨hT₁, hall⟩ := ih hT
    refine ⟨hT₁.of_latest (Table.latest_keepSense ..), hnode hx ?_ hall⟩
    rintro s rfl
    cases hcompose
  | @call T T₁ T₂ i g args ts k hx _ hk _ ih =>
    obtain ⟨hT₁, hall⟩ := ih hT
    refine ⟨(hT₁.of_latest (Calling.beyond hk).latest).of_latest (Table.latest_note ..),
      hnode hx ?_ hall⟩
    rintro s ⟨⟩
  | nil => exact ⟨hT, by simp [ExprFinding.nodes]⟩
  | cons _ _ ih₁ ih₂ =>
    obtain ⟨hT₁, he⟩ := ih₁ hT
    obtain ⟨hT₂, hes⟩ := ih₂ hT₁
    exact ⟨hT₂, List.forall_mem_cons.2 ⟨he _ (List.mem_singleton.2 rfl), hes⟩⟩

end ShaderLoom
