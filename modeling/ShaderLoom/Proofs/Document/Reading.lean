import Mathlib.Data.List.Forall2
import ShaderLoom.Document.Decode
import ShaderLoom.Proofs.Build

/-! What reading a record does. The words of a record are read first; they say which of its fields
are parts of the node, and then these are read one after another and the node is made from them. -/
namespace ShaderLoom.Document

/-- A field that holds a node, with the place that problems in it are reported at. -/
structure Field where
  path : String
  required : Bool
  record : Option Record

/-- The fields of a list, from the `i`-th place on. -/
def Field.many (path : String) (i : Nat) : List (Option Record) → List Field
  | [] => []
  | r :: rest => ⟨path ++ "[" ++ toString i ++ "]", true, r⟩ :: Field.many path (i + 1) rest

theorem Field.mem_many {path : String} {i : Nat} {rs : List (Option Record)} {f : Field}
    (h : f ∈ Field.many path i rs) : f.required = true ∧ f.record ∈ rs := by
  induction rs generalizing i with
  | nil => simp [many] at h
  | cons r rs ih =>
    rcases List.mem_cons.1 h with rfl | h
    · simp
    · exact (ih h).imp_right (List.mem_cons_of_mem r)

namespace Decode

/-- Reads a field. -/
def field (f : Field) : Decode NodeId :=
  if f.required then required f.path f.record else optional f.path f.record

theorem list_eq (path : String) (i : Nat) (rs : List (Option Record)) :
    list path i rs = (Field.many path i rs).mapM field := by
  induction rs generalizing i with
  | nil =>
    rw [list, Field.many, List.mapM_nil]
  | cons r rs ih =>
    rw [list, Field.many, List.mapM_cons]
    simp only [ih]
    rfl

/-- The word that a text spells, or the problem with it. -/
def spell {α : Type} (what text : String) (parse? : String → Option α) : Except Problem α :=
  match parse? text with
  | some a => .ok a
  | none => .error (.invalid what text)

def given {α : Type} (problem : Problem) : Option α → Except Problem α
  | some a => .ok a
  | none => .error problem

/-- The shape of the node of a kind that a record describes, over the names and fields of the
record. -/
def shapeOf (path : String) (r : Record) (kind : Kind) : Except Problem (Shape String Field) :=
  let one (name : String) (c : Option Record) : Field := ⟨path ++ name, true, c⟩
  let maybe (name : String) (c : Option Record) : Field := ⟨path ++ name, false, c⟩
  let many (name : String) (cs : List (Option Record)) : List Field :=
    Field.many (path ++ name) 0 cs
  let declared (kind : VariableKind) : Shape String Field :=
    .decl (.value ⟨kind, r.name, maybe ".type" r.type, maybe ".initializer" r.initializer,
      many ".attributes" r.attributes⟩)
  match kind with
  | .ident => .ok (.expr (.ident r.name))
  | .int => do
    let v ← given (.missing "int") r.int
    return .expr (.int v (← spell "integer suffix" r.suffix IntSuffix.parse?))
  | .float => do return .expr (.float (← given (.missing "float") r.float))
  | .bool => do return .expr (.bool (← given (.missing "bool") r.bool))
  | .binary => do
    let o ← spell "binary operator" r.op BinaryOp.parse?
    return .expr (.binary o (one ".lhs" r.lhs) (one ".rhs" r.rhs))
  | .unary => do
    let o ← spell "unary operator" r.op UnaryOp.parse?
    return .expr (.unary o (one ".expr" r.expr))
  | .call => .ok (.expr (.call (one ".target" r.target) (many ".args" r.args)))
  | .index => .ok (.expr (.index (one ".object" r.object) (one ".index" r.index)))
  | .member => .ok (.expr (.member (one ".object" r.object) r.name))
  | .block => .ok (.stmt (.block (many ".statements" r.statements)))
  | .varDecl => .ok (.stmt (.varDecl (one ".variable" r.var)))
  | .assign => .ok (.stmt (.assign (one ".lhs" r.lhs) (one ".rhs" r.rhs)))
  | .increment => .ok (.stmt (.increment (one ".lhs" r.lhs) r.decrement))
  | .callStatement => .ok (.stmt (.callStatement (one ".call" r.call)))
  | .ifElse =>
    .ok (.stmt (.ifElse (one ".condition" r.condition) (one ".body" r.body)
      (maybe ".else" r.otherwise)))
  | .forLoop =>
    .ok (.stmt (.forLoop (maybe ".initializer" r.initializer) (maybe ".condition" r.condition)
      (maybe ".continuing" r.continuing) (one ".body" r.body)))
  | .whileLoop => .ok (.stmt (.whileLoop (one ".condition" r.condition) (one ".body" r.body)))
  | .loop => .ok (.stmt (.loop (one ".body" r.body) (maybe ".continuing" r.continuing)))
  | .breakLoop => .ok (.stmt .breakLoop)
  | .continueLoop => .ok (.stmt .continueLoop)
  | .discard => .ok (.stmt .discard)
  | .ret => .ok (.stmt (.ret (maybe ".expr" r.expr)))
  | .var => do
    let s ← spell "address space" r.addressSpace AddressSpace.parse?
    let a ← spell "access" r.access Access.parse?
    return declared (.var s a)
  | .letValue => .ok (declared .letValue)
  | .constant => .ok (declared .constant)
  | .overridable => .ok (declared .overridable)
  | .parameter => .ok (declared .parameter)
  | .function =>
    .ok (.decl (.function ⟨r.name, many ".params" r.params, maybe ".return_type" r.returnType,
      one ".body" r.body, many ".attributes" r.attributes,
      many ".return_attributes" r.returnAttributes⟩))
  | .struct =>
    .ok (.decl (.struct r.name (many ".members" r.members) (many ".attributes" r.attributes)))
  | .structMember =>
    .ok (.structMember r.name (one ".type" r.type) (many ".attributes" r.attributes))
  | .typeAlias => .ok (.decl (.typeAlias r.name (one ".type" r.type)))
  | .stageAttribute => do return .attr (.stage (← spell "stage" r.stage PipelineStage.parse?))
  | .workgroupAttribute =>
    .ok (.attr (.workgroup (one ".x" r.x) (maybe ".y" r.y) (maybe ".z" r.z)))
  | .builtinAttribute => do
    return .attr (.builtin (← spell "builtin" r.builtin BuiltinValue.parse?))
  | .locationAttribute => do return .attr (.location (← given .missingValue r.value))
  | .groupAttribute => do return .attr (.group (← given .missingValue r.value))
  | .bindingAttribute => do return .attr (.binding (← given .missingValue r.value))
  | .idAttribute => do return .attr (.id (← given .missingValue r.value))
  | .boolType => .ok (.type .bool)
  | .i32 => .ok (.type .i32)
  | .u32 => .ok (.type .u32)
  | .f32 => .ok (.type .f32)
  | .vector =>
    if 2 ≤ r.width && r.width ≤ 4 then .ok (.type (.vector (one ".elem" r.elem) r.width))
    else .error (.invalidWidth r.width)
  | .matrix =>
    if 2 ≤ r.columns && r.columns ≤ 4 && 2 ≤ r.rows && r.rows ≤ 4 then
      .ok (.type (.matrix (one ".elem" r.elem) r.columns r.rows))
    else .error (.invalidShape r.columns r.rows)
  | .array =>
    if decide (0 ≤ r.count) then .ok (.type (.array (one ".elem" r.elem) r.count))
    else .error (.invalidCount r.count)
  | .sampler => .ok (.type (.sampler r.comparison))
  | .sampledTexture => do
    let d ← spell "texture dimension" r.dim TextureDim.parse?
    return .type (.sampledTexture d (one ".elem" r.elem))
  | .externalTexture => .ok (.type .externalTexture)
  | .typeName => .ok (.type (.named r.name))

/-- The shape that a record describes, if it is of some kind. -/
def shape (path : String) (r : Record) : Except Problem (Shape String Field) :=
  match Kind.parse? r.kind with
  | none => .error (.unknownKind r.kind)
  | some kind => shapeOf path r kind

/-- Reads the parts of a shape. A function's attributes come last. -/
def parts (path : String) : Shape String Field → Decode (Shape Symbol NodeId)
  | .decl (.function f) => do
    let s ← symbol path f.name
    let ps ← f.params.mapM field
    let ret ← field f.returnType
    let retAttrs ← f.returnAttributes.mapM field
    let b ← field f.body
    let attrs ← f.attributes.mapM field
    return .decl (.function ⟨s, ps, ret, b, attrs, retAttrs⟩)
  | s => s.traverse (symbol path) field fun _ fs => fs.mapM field

/-- Makes the node of a shape. -/
def make (path : String) (span : Option Span) : Except Problem (Shape String Field) → Decode NodeId
  | .error problem => fail path problem
  | .ok s => do
    let t ← parts path s
    modifyGet (·.push t (span.getD {}))

theorem make_spell {α : Type} (path : String) (span : Option Span) (what text : String)
    (parse? : String → Option α) (f : α → Except Problem (Shape String Field)) :
    make path span (spell what text parse? >>= f) =
      word path what text parse? >>= fun a => make path span (f a) := by
  unfold spell word
  cases parse? text <;> rfl

theorem make_given {α : Type} (path : String) (span : Option Span) (problem : Problem)
    (o : Option α) (f : α → Except Problem (Shape String Field)) :
    make path span (given problem o >>= f) =
      present path problem o >>= fun a => make path span (f a) := by
  cases o <;> rfl

theorem make_if (path : String) (span : Option Span) (problem : Problem) (c : Bool)
    (s : Shape String Field) : make path span (if c = true then .ok s else .error problem) =
      demand path problem c >>= fun _ => make path span (.ok s) := by
  cases c <;> rfl

theorem make_ok (path : String) (span : Option Span) (s : Shape String Field) :
    make path span (.ok s) = parts path s >>= fun t => modifyGet (·.push t (span.getD {})) := rfl

/-- Reading a record is reading its words and then its parts. -/
theorem node_eq (path : String) (r : Record) : node path r = make path r.span (shape path r) := by
  cases r with
  | mk kind span name int float bool suffix op lhs rhs expr target args object index
    statements var call
      condition body otherwise continuing initializer decrement type addressSpace access
      attributes params
      returnType returnAttributes members stage builtin value x y z elem width columns rows count
      comparison dim =>
    rw [node]
    simp only [shape]
    cases h : Kind.parse? kind with
    | none => rfl
    | some k =>
      cases k <;>
        simp only [shapeOf, make_spell, make_given, make_if, make_ok, pure, Except.pure, parts,
          Shape.traverse, list_eq, bind_assoc] <;>
        rfl

end Decode

/-- Everything that a record holds. -/
def Record.parts (r : Record) : List (Option Record) :=
  [r.lhs, r.rhs, r.expr, r.target, r.object, r.index, r.var, r.call, r.condition,
    r.body, r.otherwise, r.continuing, r.initializer, r.type, r.returnType, r.x, r.y, r.z,
    r.elem] ++ r.args ++ r.statements ++
    r.attributes ++ r.params ++ r.returnAttributes ++ r.members

/-- What passes from the records that a record holds to the record holds of every record. -/
theorem Record.induct {P : Record → Prop} (h : ∀ r : Record, (∀ c, some c ∈ r.parts → P c) → P r)
    (r : Record) : P r := by
  refine @Record.rec P (fun o => ∀ c, some c = o → P c) (fun cs => ∀ c, some c ∈ cs → P c)
    ?_ ?_ ?_ ?_ ?_ r
  · intros
    rename_i lhs rhs expr target args object index statements var call condition body
      otherwise continuing
      initializer type attributes params returnType returnAttributes members x y z elem
    refine h _ fun c hc => ?_
    simp only [parts, List.mem_append, List.mem_cons, List.not_mem_nil, or_false, or_assoc] at hc
    rcases hc with hc | hc | hc | hc | hc | hc | hc | hc | hc | hc | hc | hc | hc | hc
      | hc | hc | hc |
      hc | hc | hc | hc | hc | hc | hc | hc
    all_goals first
      | exact lhs c hc | exact rhs c hc | exact expr c hc | exact target c hc | exact object c hc
      | exact index c hc | exact var c hc | exact call c hc | exact condition c hc | exact body c hc
      | exact otherwise c hc | exact continuing c hc | exact initializer c hc | exact type c hc
      | exact returnType c hc | exact x c hc | exact y c hc | exact z c hc | exact elem c hc
      | exact args c hc | exact statements c hc | exact attributes c hc | exact params c hc
      | exact returnAttributes c hc | exact members c hc
  · intro c hc
    cases hc
  · intro r hr c hc
    cases hc
    exact hr
  · intro c hc
    cases hc
  · intro o cs ho hcs c hc
    rcases List.mem_cons.1 hc with hc | hc
    · exact ho c hc
    · exact hcs c hc

namespace Decode

theorem spell_ok {α : Type} {what text : String} {parse? : String → Option α} {a : α} :
    spell what text parse? = .ok a ↔ parse? text = some a := by
  unfold spell
  split <;> simp_all

theorem given_ok {α : Type} {problem : Problem} {o : Option α} {a : α} :
    given problem o = .ok a ↔ o = some a := by
  cases o <;> simp [given]

/-- What is known of the shape of a record. -/
structure Shaped (r : Record) (s : Shape String Field) : Prop where
  spelled : s.Spelled
  accessible : s.Accessible
  required : ∀ f ∈ s.required, f.required = true
  parts : ∀ f ∈ s.slots, f.record ∈ r.parts

theorem shaped {path : String} {r : Record} {s : Shape String Field} (h : shape path r = .ok s) :
    Shaped r s := by
  have hreq : ∀ (p : String) (cs : List (Option Record)) f, f ∈ Field.many p 0 cs →
      f.required = true :=
    fun p cs f hf => (Field.mem_many hf).1
  have hrec : ∀ (p : String) (cs : List (Option Record)) f, f ∈ Field.many p 0 cs → f.record ∈ cs :=
    fun p cs f hf => (Field.mem_many hf).2
  unfold shape at h
  cases hk : Kind.parse? r.kind with
  | none => simp [hk] at h
  | some k =>
    simp only [hk] at h
    cases k <;>
      simp only [shapeOf, bind_eq_ok, spell_ok, given_ok, Except.ok.injEq, pure, Except.pure] at h
    case binary | unary | stageAttribute | builtinAttribute | sampledTexture =>
      obtain ⟨a, ha, rfl⟩ := h
      refine ⟨List.mem_of_find?_eq_some ha, trivial, ?_, ?_⟩ <;>
        simp only [Shape.required, Shape.slots, Record.parts, List.mem_append, List.mem_cons] <;>
          grind
    case var =>
      obtain ⟨a, ha, b, hb, rfl⟩ := h
      refine ⟨List.mem_of_find?_eq_some ha, List.mem_of_find?_eq_some hb, ?_, ?_⟩ <;>
        simp only [Shape.required, Shape.slots, Record.parts, List.mem_append, List.mem_cons] <;>
          grind
    case int =>
      obtain ⟨a, ha, b, hb, rfl⟩ := h
      exact ⟨trivial, trivial, by simp [Shape.required, Shape.slots], by simp [Shape.slots]⟩
    case float | bool | locationAttribute | groupAttribute | bindingAttribute | idAttribute =>
      obtain ⟨a, ha, rfl⟩ := h
      exact ⟨trivial, trivial, by simp [Shape.required, Shape.slots], by simp [Shape.slots]⟩
    case vector | matrix | array =>
      split at h
      · next hc =>
        cases h
        refine ⟨by simpa [Shape.Spelled, and_assoc] using hc, trivial, ?_, ?_⟩ <;>
          simp only [Shape.required, Shape.slots, Record.parts, List.mem_append, List.mem_cons] <;>
            grind
      · cases h
    all_goals
      subst h
      refine ⟨trivial, trivial, ?_, ?_⟩ <;>
        simp only [Shape.required, Shape.slots, Record.parts, List.mem_append, List.mem_cons] <;>
          grind

section Fieldwise

variable {γ : Type} {K : Shape.Copying (Builder × γ) String Symbol Field NodeId}
    {E : DecodeError → Prop}
  {path : String}

/-- What is known of lists of fields is known field by field, and fields bring nothing along. -/
structure Fieldwise (K : Shape.Copying (Builder × γ) String Symbol Field NodeId) : Prop where
  list : ∀ w, K.list w = List.Forall₂ (K.child w)
  res : ∀ f, K.res f = []

theorem turns_fields (hK : Fieldwise K) {fs : List Field}
    (h : ∀ f ∈ fs, K.Turns E (field f) [] (fun j => [j]) fun w j => K.child w f j) :
    K.Turns E (fs.mapM field) [] id fun w js => K.list w fs js := by
  induction fs with
  | nil =>
    intro w F hw
    have hnil : K.list w [] [] := by
      rw [hK.list]
      exact .nil
    exact Runs.pure w.2 ⟨hw, K.le_refl w, hnil⟩
  | cons f fs ih =>
    intro w F hw
    rw [List.mapM_cons]
    refine (h f (by simp)).bind _ F hw (fun _ => Nat.le_refl _) fun j w₁ h₁ hle₁ hj => ?_
    refine (ih fun g hg => h g (by simp [hg])).bind _ (j :: F) h₁ (fun _ => Nat.le_refl _)
      fun js w₂ h₂ hle₂ hjs => ?_
    have hcons : K.list w₂ (f :: fs) (j :: js) := by
      rw [hK.list] at hjs ⊢
      exact .cons (K.child_mono hle₂ hj) hjs
    refine Runs.pure w₂.2 ⟨K.weaken h₂ fun x => ?_, K.le_trans hle₁ hle₂, hcons⟩
    simp only [id, List.count_append, List.count_cons]
    omega

/-- Reading the parts of a shape, which a function does in an order of its own. -/
theorem turns_parts (hK : Fieldwise K) {s : Shape String Field}
    (hname : ∀ x ∈ s.names, K.Turns E (symbol path x) [] (fun _ => []) fun w y => K.name w x y)
    (hfield : ∀ f ∈ s.slots, K.Turns E (field f) [] (fun j => [j]) fun w j => K.child w f j) :
    K.Turns E (parts path s) [] Shape.slots fun w t => K.Shapes w s t := by
  have hres : ∀ fs : List Field, fs.flatMap K.res = [] := by simp [hK.res]
  have hlist : ∀ fs ∈ s.lists, K.Turns E (fs.mapM field) [] id fun w js => K.list w fs js :=
    fun fs hfs => turns_fields hK fun f hf =>
      hfield f (Shape.required_subset _ f (Shape.mem_required_of_lists hfs f hf))
  unfold parts
  split
  · next f =>
    intro w F hw
    refine (hname f.name (by simp [Shape.names])).bind _ F hw (fun _ => Nat.le_refl _)
      fun x w₁ h₁ hle₁ hx => ?_
    refine (hlist f.params (by simp [Shape.lists])).bind _ F h₁ (fun _ => Nat.le_refl _)
      fun ps w₂ h₂ hle₂ hps => ?_
    refine (hfield f.returnType (by simp [Shape.slots])).bind _ (ps ++ F) h₂
      (fun _ => Nat.le_refl _)
      fun r w₃ h₃ hle₃ hr => ?_
    refine (hlist f.returnAttributes (by simp [Shape.lists])).bind _ (r :: ps ++ F) h₃
      (fun _ => Nat.le_refl _) fun ras w₄ h₄ hle₄ hras => ?_
    refine (hfield f.body (by simp [Shape.slots])).bind _ (ras ++ r :: ps ++ F) h₄
      (fun _ => by simp [List.append_assoc]) fun b w₅ h₅ hle₅ hb => ?_
    refine (hlist f.attributes (by simp [Shape.lists])).bind _ (b :: ras ++ r :: ps ++ F) h₅
      (fun _ => Nat.le_refl _) fun as w₆ h₆ hle₆ has => ?_
    have hle₅ := K.le_trans hle₅ hle₆
    have hle₄ := K.le_trans hle₄ hle₅
    have hle₃ := K.le_trans hle₃ hle₄
    have hle₂ := K.le_trans hle₂ hle₃
    refine Runs.pure w₆.2 ⟨K.weaken h₆ fun x => ?_, K.le_trans hle₁ hle₂,
      .function (K.name_mono hle₂ hx) (K.list_mono hle₃ hps) (K.child_mono hle₄ hr)
      (K.child_mono hle₆ hb) has
        (K.list_mono hle₅ hras)⟩
    simp only [Shape.slots, id, List.count_append, List.count_cons, List.count_nil]
    omega
  · have hlists : ∀ k : ListKind, ∀ fs ∈ s.lists, K.Turns E (fs.mapM field) (fs.flatMap K.res) id
        fun w ys => K.list w fs ys := by
      intro k fs hfs
      rw [hres]
      exact hlist fs hfs
    have hchild : ∀ f ∈ s.slots, K.Turns E (field f) (K.res f) (fun j => [j]) fun w j =>
        K.child w f j :=
      fun f hf => (hK.res f).symm ▸ hfield f hf
    have htraverse := Shape.Copying.traverse hname hchild hlists
    rwa [hres] at htraverse

end Fieldwise

end Decode
end ShaderLoom.Document
