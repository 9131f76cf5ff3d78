import ShaderLoom.Proofs.Document.RoundTrip

/-! The grammar of module documents: which words and parts a record of each kind has to have, apart
from how it is read, and what of a record counts. Beside it stands what this says of the shape that
a record describes. -/
namespace ShaderLoom

/-- The words that a search through declared ones finds. -/
theorem find?_text_iff {α : Type} {text : α → String} {declared : List α} {s : String} :
    (∃ a, declared.find? (text · == s) = some a) ↔ s ∈ declared.map text := by
  rw [← Option.isSome_iff_exists]
  simp

theorem IntSuffix.exists_parse? {s : String} :
    (∃ a, IntSuffix.parse? s = some a) ↔ s ∈ ["", "i", "u"] := by
  unfold IntSuffix.parse?
  split <;> simp_all

theorem text_of_find? {α : Type} {text : α → String} {declared : List α} {x : String} {w : α}
    (h : declared.find? (text · == x) = some w) : text w = x := by
  simpa using List.find?_some h

theorem IntSuffix.text_of_parse? {x : String} {w : IntSuffix} (h : IntSuffix.parse? x = some w) :
    w.text = x := by
  unfold IntSuffix.parse? at h
  split at h <;> cases h <;> rfl

namespace Document

namespace Record

/-- The nodes that a record of a kind has to have: those of its required fields, and all that it
lists. -/
def demanded (r : Record) : Kind → List (Option Record)
  | .binary | .assign => [r.lhs, r.rhs]
  | .unary => [r.expr]
  | .call => r.target :: r.args
  | .index => [r.object, r.index]
  | .member => [r.object]
  | .block => r.statements
  | .varDecl => [r.var]
  | .increment => [r.lhs]
  | .callStatement => [r.call]
  | .ifElse | .whileLoop => [r.condition, r.body]
  | .forLoop | .loop => [r.body]
  | .var | .letValue | .constant | .overridable | .parameter => r.attributes
  | .function => r.attributes ++ r.params ++ r.returnAttributes ++ [r.body]
  | .struct => r.attributes ++ r.members
  | .structMember => r.attributes ++ [r.type]
  | .typeAlias => [r.type]
  | .workgroupAttribute => [r.x]
  | .vector | .matrix | .array | .sampledTexture => [r.elem]
  | _ => []

/-- The nodes that a record of a kind may do without. -/
def optional (r : Record) : Kind → List (Option Record)
  | .ifElse => [r.otherwise]
  | .forLoop => [r.initializer, r.condition, r.continuing]
  | .loop => [r.continuing]
  | .ret => [r.expr]
  | .var | .letValue | .constant | .overridable | .parameter => [r.type, r.initializer]
  | .function => [r.returnType]
  | .workgroupAttribute => [r.y, r.z]
  | _ => []

/-- The words, values and sizes that a record of a kind has to have. -/
def Spelled (r : Record) : Kind → Prop
  | .ident | .member | .letValue | .constant | .overridable | .parameter | .function | .struct
    | .structMember
  | .typeAlias | .typeName => r.name ≠ ""
  | .var =>
    r.addressSpace ∈ AddressSpace.declared.map (·.text) ∧ r.access ∈ Access.declared.map (·.text) ∧
      r.name ≠ ""
  | .int => r.int ≠ none ∧ r.suffix ∈ ["", "i", "u"]
  | .float => r.float ≠ none
  | .bool => r.bool ≠ none
  | .binary => r.op ∈ BinaryOp.declared.map (·.text)
  | .unary => r.op ∈ UnaryOp.declared.map (·.text)
  | .stageAttribute => r.stage ∈ (PipelineStage.declared.drop 1).map (·.text)
  | .builtinAttribute => r.builtin ∈ (BuiltinValue.declared.drop 1).map (·.text)
  | .locationAttribute | .groupAttribute | .bindingAttribute | .idAttribute => r.value ≠ none
  | .vector => 2 ≤ r.width ∧ r.width ≤ 4
  | .matrix => 2 ≤ r.columns ∧ r.columns ≤ 4 ∧ 2 ≤ r.rows ∧ r.rows ≤ 4
  | .array => 0 ≤ r.count
  | .sampledTexture => r.dim ∈ TextureDim.declared.map (·.text)
  | _ => True

/-- A record of a known kind that has what its kind asks for, all of it well-formed in turn. -/
inductive WellFormed : Record → Prop
  | intro {r : Record} (k : Kind) (kind : r.kind = k.text) (spelled : r.Spelled k)
    (present : none ∉ r.demanded k)
    (parts : ∀ c, some c ∈ r.demanded k ++ r.optional k → c.WellFormed) : r.WellFormed

/-- The record with only the fields that its kind uses, and without a place that is none. -/
def strip (r : Record) : Record :=
  let base : Record := { kind := r.kind, span := r.span.filter Span.valid }
  let declared : Record :=
    { base with name := r.name, type := r.type, initializer := r.initializer,
                attributes := r.attributes }
  match Kind.parse? r.kind with
  | some .ident | some .typeName => { base with name := r.name }
  | some .int => { base with int := r.int, suffix := r.suffix }
  | some .float => { base with float := r.float }
  | some .bool => { base with bool := r.bool }
  | some .binary => { base with op := r.op, lhs := r.lhs, rhs := r.rhs }
  | some .unary => { base with op := r.op, expr := r.expr }
  | some .call => { base with target := r.target, args := r.args }
  | some .index => { base with object := r.object, index := r.index }
  | some .member => { base with object := r.object, name := r.name }
  | some .block => { base with statements := r.statements }
  | some .varDecl => { base with var := r.var }
  | some .assign => { base with lhs := r.lhs, rhs := r.rhs }
  | some .increment => { base with lhs := r.lhs, decrement := r.decrement }
  | some .callStatement => { base with call := r.call }
  | some .ifElse => { base with condition := r.condition, body := r.body, otherwise := r.otherwise }
  | some .forLoop =>
    { base with
      initializer := r.initializer, condition := r.condition, continuing :=
        r.continuing, body := r.body }
  | some .whileLoop => { base with condition := r.condition, body := r.body }
  | some .loop => { base with body := r.body, continuing := r.continuing }
  | some .ret => { base with expr := r.expr }
  | some .var => { declared with addressSpace := r.addressSpace, access := r.access }
  | some .letValue | some .constant | some .overridable | some .parameter => declared
  | some .function =>
    { base with
      name := r.name, params := r.params, returnType := r.returnType
      returnAttributes := r.returnAttributes, body := r.body, attributes := r.attributes }
  | some .struct => { base with name := r.name, members := r.members, attributes := r.attributes }
  | some .structMember => { base with name := r.name, type := r.type, attributes := r.attributes }
  | some .typeAlias => { base with name := r.name, type := r.type }
  | some .stageAttribute => { base with stage := r.stage }
  | some .workgroupAttribute => { base with x := r.x, y := r.y, z := r.z }
  | some .builtinAttribute => { base with builtin := r.builtin }
  | some .locationAttribute | some .groupAttribute | some .bindingAttribute | some .idAttribute =>
    { base with value := r.value }
  | some .vector => { base with elem := r.elem, width := r.width }
  | some .matrix => { base with elem := r.elem, columns := r.columns, rows := r.rows }
  | some .array => { base with elem := r.elem, count := r.count }
  | some .sampler => { base with comparison := r.comparison }
  | some .sampledTexture => { base with dim := r.dim, elem := r.elem }
  | _ => base

mutual

/-- What counts of a record and of all that it holds. -/
def kept : Record → Record
  | ⟨kind, span, name, int, float, bool, suffix, op, lhs, rhs, expr, target, args, object, index,
      statements, var, call, condition, body, otherwise, continuing, initializer, decrement,
      type, addressSpace, access, attributes, params, returnType, returnAttributes, members,
      stage, builtin, value, x, y, z, elem, width, columns, rows, count, comparison, dim⟩ =>
    strip ⟨kind, span, name, int, float, bool, suffix, op, keptField lhs, keptField rhs,
      keptField expr, keptField target, keptList args, keptField object, keptField index,
      keptList statements, keptField var,
      keptField call, keptField condition, keptField body, keptField otherwise,
      keptField continuing, keptField initializer, decrement, keptField type, addressSpace, access,
      keptList attributes, keptList params, keptField returnType, keptList returnAttributes,
      keptList members, stage, builtin,
      value, keptField x, keptField y, keptField z, keptField elem, width, columns, rows,
      count, comparison, dim⟩

def keptField : Option Record → Option Record
  | none => none
  | some r => some r.kept

def keptList : List (Option Record) → List (Option Record)
  | [] => []
  | r :: rs => keptField r :: keptList rs

end

mutual

/-- How many records there are in a record, itself among them. -/
def nodes : Record → Nat
  | ⟨_, _, _, _, _, _, _, _, lhs, rhs, expr, target, args, object, index, statements, var,
    call, condition,
      body, otherwise, continuing, initializer, _, type, _, _, attributes, params, returnType,
      returnAttributes, members, _, _, _, x, y, z, elem, _, _, _, _, _, _⟩ =>
    1 + nodesOf lhs + nodesOf rhs + nodesOf expr + nodesOf target + nodesOf object + nodesOf index +
      nodesOf var + nodesOf call + nodesOf condition + nodesOf body + nodesOf otherwise +
      nodesOf continuing +
      nodesOf initializer + nodesOf type + nodesOf returnType + nodesOf x + nodesOf y + nodesOf z +
      nodesOf elem + nodesIn args + nodesIn statements + nodesIn attributes + nodesIn params +
      nodesIn returnAttributes + nodesIn members

def nodesOf : Option Record → Nat
  | none => 0
  | some r => r.nodes

def nodesIn : List (Option Record) → Nat
  | [] => 0
  | r :: rs => nodesOf r + nodesIn rs

end

end Record

namespace Module

/-- A document of the current version, or of none, whose declarations are all there and
well-formed. -/
structure WellFormed (m : Module) : Prop where
  version : m.version = 0 ∨ m.version = formatVersion
  present : none ∉ m.globals
  globals : ∀ r, some r ∈ m.globals → r.WellFormed

/-- What counts of a document. -/
def kept (m : Module) : Module := ⟨formatVersion, Record.keptList m.globals⟩

/-- How many nodes a document lists. -/
def nodes (m : Module) : Nat := Record.nodesIn m.globals

end Module

@[simp] theorem Field.record_many (path : String) (i : Nat) (rs : List (Option Record)) :
    (Field.many path i rs).map Field.record = rs := by
  induction rs generalizing i with
  | nil => rfl
  | cons r rs ih => rw [many, List.map_cons, ih]

@[simp] theorem Field.filter_required_many (path : String) (i : Nat) (rs : List (Option Record)) :
    (Field.many path i rs).filter (·.required) = Field.many path i rs :=
  List.filter_eq_self.2 fun _ hf => (Field.mem_many hf).1

@[simp] theorem Field.filter_optional_many (path : String) (i : Nat) (rs : List (Option Record)) :
    (Field.many path i rs).filter (!·.required) = [] :=
  List.filter_eq_nil_iff.2 fun _ hf => by simp [(Field.mem_many hf).1]

variable {path : String} {r : Record} {k : Kind} {s : Shape String Field}

/-- The fields that a shape is made of are those that its kind demands and allows. -/
theorem parts_shapeOf (h : Decode.shapeOf path r k = .ok s) :
    (s.slots.filter (·.required)).map Field.record = r.demanded k ∧
      (s.slots.filter (!·.required)).map Field.record = r.optional k := by
  cases k <;>
    simp only [Decode.shapeOf, bind_eq_ok, Except.ok.injEq, pure, Except.pure] at h
  case var | int =>
    obtain ⟨_, _, _, _, rfl⟩ := h
    simp [Shape.slots, Record.demanded, Record.optional]
  case binary | unary | stageAttribute | builtinAttribute | sampledTexture | float | bool
    | locationAttribute
      | groupAttribute | bindingAttribute | idAttribute =>
    obtain ⟨_, _, rfl⟩ := h
    simp [Shape.slots, Record.demanded, Record.optional]
  case vector | matrix | array =>
    split at h
    · cases h
      simp [Shape.slots, Record.demanded, Record.optional]
    · cases h
  all_goals
    subst h
    simp [Shape.slots, Record.demanded, Record.optional]

/-- A record whose shape can be read without an empty name is spelled as its kind asks. -/
theorem spelled_of_shapeOf (h : Decode.shapeOf path r k = .ok s) (hs : ∀ x ∈ s.names, x ≠ "") :
    r.Spelled k := by
  cases k <;>
    simp only [Decode.shapeOf, bind_eq_ok, Decode.spell_ok, Decode.given_ok, Except.ok.injEq, pure,
      Except.pure] at h
  case var =>
    obtain ⟨_, hspace, _, haccess, rfl⟩ := h
    exact ⟨find?_text_iff.1 ⟨_, hspace⟩,
      find?_text_iff.1 ⟨_, haccess⟩, by simpa [Shape.names] using hs⟩
  case int =>
    obtain ⟨_, hint, _, hsuffix, rfl⟩ := h
    exact ⟨by simp [hint], IntSuffix.exists_parse?.1 ⟨_, hsuffix⟩⟩
  case binary | unary | stageAttribute | builtinAttribute | sampledTexture =>
    obtain ⟨_, hword, rfl⟩ := h
    exact find?_text_iff.1 ⟨_, hword⟩
  case float | bool | locationAttribute | groupAttribute | bindingAttribute | idAttribute =>
    obtain ⟨_, hvalue, rfl⟩ := h
    simp [Record.Spelled, hvalue]
  case vector | matrix | array =>
    split at h
    · next hsize => simpa [Record.Spelled, and_assoc] using hsize
    · cases h
  case ident | member | letValue | constant | overridable | parameter | function | struct
    | structMember | typeAlias
      | typeName =>
    subst h
    simpa [Record.Spelled, Shape.names] using hs
  all_goals exact trivial

/-- A record that is spelled as its kind asks has a shape without an empty name. -/
theorem exists_shapeOf (path : String) (h : r.Spelled k) :
    ∃ s, Decode.shapeOf path r k = .ok s ∧ ∀ x ∈ s.names, x ≠ "" := by
  cases k
  case var =>
    obtain ⟨hspace, haccess, hname⟩ := h
    obtain ⟨space, hspace⟩ := find?_text_iff.2 hspace
    obtain ⟨access, haccess⟩ := find?_text_iff.2 haccess
    refine ⟨_, bind_eq_ok.2 ⟨space, Decode.spell_ok.2 hspace,
      bind_eq_ok.2 ⟨access, Decode.spell_ok.2 haccess, rfl⟩⟩, ?_⟩
    simpa [Shape.names] using hname
  case int =>
    obtain ⟨hint, hsuffix⟩ := h
    obtain ⟨v, hint⟩ := Option.ne_none_iff_exists'.1 hint
    obtain ⟨suffix, hsuffix⟩ := IntSuffix.exists_parse?.2 hsuffix
    refine ⟨_, bind_eq_ok.2 ⟨v, Decode.given_ok.2 hint,
      bind_eq_ok.2 ⟨suffix, Decode.spell_ok.2 hsuffix, rfl⟩⟩, ?_⟩
    simp [Shape.names]
  case binary | unary | stageAttribute | builtinAttribute | sampledTexture =>
    obtain ⟨word, hword⟩ := find?_text_iff.2 h
    refine ⟨_, bind_eq_ok.2 ⟨word, Decode.spell_ok.2 hword, rfl⟩, by simp [Shape.names]⟩
  case float | bool | locationAttribute | groupAttribute | bindingAttribute | idAttribute =>
    obtain ⟨v, hv⟩ := Option.ne_none_iff_exists'.1 h
    refine ⟨_, bind_eq_ok.2 ⟨v, Decode.given_ok.2 hv, rfl⟩, by simp [Shape.names]⟩
  case vector | matrix | array =>
    exact ⟨_, if_pos (by simpa [Record.Spelled, and_assoc] using h), by simp [Shape.names]⟩
  case ident | member | letValue | constant | overridable | parameter | function | struct
    | structMember | typeAlias
      | typeName => exact ⟨_, rfl, by simpa [Record.Spelled, Shape.names] using h⟩
  all_goals exact ⟨_, rfl, by simp [Shape.names]⟩

/-- A field that has a well-formed record, or none where none is needed. -/
def Field.Sound (f : Field) : Prop :=
  (f.required = true → f.record ≠ none) ∧ ∀ c, f.record = some c → c.WellFormed

theorem shape_ok_iff :
    Decode.shape path r = .ok s ↔ ∃ k, r.kind = k.text ∧ Decode.shapeOf path r k = .ok s := by
  unfold Decode.shape
  constructor
  · intro h
    split at h
    · cases h
    · next k hk => exact ⟨k, (by simpa using List.find?_some hk : k.text = r.kind).symm, h⟩
  · rintro ⟨k, hk, h⟩
    rw [hk, Kind.parse?_text k k.mem_all]
    exact h

theorem sound_iff (h : Decode.shapeOf path r k = .ok s) : (∀ f ∈ s.slots, f.Sound) ↔
    none ∉ r.demanded k ∧ ∀ c, some c ∈ r.demanded k ++ r.optional k → c.WellFormed := by
  obtain ⟨hdemanded, hoptional⟩ := parts_shapeOf h
  rw [← hdemanded, ← hoptional]
  simp only [List.mem_append, List.mem_map, List.mem_filter, Bool.not_eq_true']
  constructor
  · intro hall
    refine ⟨?_, ?_⟩
    · rintro ⟨f, ⟨hf, hreq⟩, hnone⟩
      exact (hall f hf).1 hreq hnone
    · rintro c (⟨f, ⟨hf, _⟩, hc⟩ | ⟨f, ⟨hf, _⟩, hc⟩) <;> exact (hall f hf).2 c hc
  · rintro ⟨hpresent, hparts⟩ f hf
    refine ⟨fun hreq hnone => hpresent ⟨f, ⟨hf, hreq⟩, hnone⟩, fun c hc => hparts c ?_⟩
    cases hreq : f.required with
    | true => exact .inl ⟨f, ⟨hf, hreq⟩, hc⟩
    | false => exact .inr ⟨f, ⟨hf, hreq⟩, hc⟩

/-- The grammar in terms of what is read: a record is well-formed if it describes a shape, with no
name missing, and sound fields. -/
theorem wellFormed_iff (path : String) : r.WellFormed ↔
    ∃ s, Decode.shape path r = .ok s ∧ (∀ x ∈ s.names, x ≠ "") ∧ ∀ f ∈ s.slots, f.Sound := by
  constructor
  · rintro ⟨k, hkind, hspelled, hpresent, hparts⟩
    obtain ⟨s, hs, hnames⟩ := exists_shapeOf path hspelled
    exact ⟨s, shape_ok_iff.2 ⟨k, hkind, hs⟩, hnames, (sound_iff hs).2 ⟨hpresent, hparts⟩⟩
  · rintro ⟨s, hs, hnames, hsound⟩
    obtain ⟨k, hkind, hs⟩ := shape_ok_iff.1 hs
    obtain ⟨hpresent, hparts⟩ := (sound_iff hs).1 hsound
    exact ⟨k, hkind, spelled_of_shapeOf hs hnames, hpresent, hparts⟩

theorem Record.keptList_eq (rs : List (Option Record)) : keptList rs = rs.map keptField := by
  induction rs with
  | nil => rfl
  | cons r rs ih => rw [keptList, List.map_cons, ih]

theorem Record.nodesIn_append (rs rs' : List (Option Record)) :
    nodesIn (rs ++ rs') = nodesIn rs + nodesIn rs' := by
  induction rs with
  | nil => simp [nodesIn]
  | cons r rs ih => rw [List.cons_append, nodesIn, nodesIn, ih, Nat.add_assoc]

theorem Record.nodesIn_perm {rs rs' : List (Option Record)} (h : rs.Perm rs') :
    nodesIn rs = nodesIn rs' := by
  induction h with
  | nil => rfl
  | cons r _ ih => rw [nodesIn, nodesIn, ih]
  | swap r r' rs => simp only [nodesIn, Nat.add_left_comm]
  | trans _ _ ih ih' => exact ih.trans ih'

/-- What counts of a record are the record and what counts of the fields that its kind uses. -/
theorem Record.nodes_strip (h : r.kind = k.text) :
    r.kept.nodes = 1 + nodesIn ((r.demanded k ++ r.optional k).map keptField) := by
  have hparse := h ▸ Kind.parse?_text k k.mem_all
  cases r
  simp only at hparse
  cases k <;>
    simp only [kept, strip, hparse, nodes, demanded, optional, nodesOf, nodesIn,
      nodesIn_append, keptList_eq, List.map_append, List.map_cons, List.map_nil] <;>
    omega

theorem nodes_kept (h : Decode.shape path r = .ok s) :
    r.kept.nodes = 1 + Record.nodesIn ((s.slots.map Field.record).map Record.keptField) := by
  obtain ⟨k, hkind, hs⟩ := shape_ok_iff.1 h
  obtain ⟨hdemanded, hoptional⟩ := parts_shapeOf hs
  rw [Record.nodes_strip hkind, ← hdemanded, ← hoptional, ← List.map_append]
  exact congrArg (1 + ·) (Record.nodesIn_perm (((List.filter_append_perm _ _).map _).map _))

variable {a : Arena} {sub : NodeId → Option Record} {t : Shape Symbol NodeId}

/-- A place that is read and written again is kept if it is one. -/
theorem span_kept (o : Option Span) :
    (if ((if (o.getD {}).valid then o.getD {} else {}) : Span).valid then
      some (if (o.getD {}).valid then o.getD {} else {}) else none) = o.filter Span.valid := by
  have hempty : ({} : Span).valid = false := rfl
  cases o with
  | none => simp [hempty]
  | some p => cases hp : p.valid <;> simp [hp, hempty, Option.filter]

/-- A node whose parts are what counts of the fields of a record is what counts of the record. -/
theorem ofNode_kept (h : Decode.shape path r = .ok s)
    (hrel : Shape.Rel (fun x y => a.nameOf y = x)
      (fun (f : Field) c => sub c = Record.keptField f.record)
      (fun fs cs => cs.map sub = Record.keptList (fs.map Field.record)) s t) :
    ofNode a sub ⟨t, if (r.span.getD {}).valid then r.span.getD {} else {}⟩ = r.kept := by
  obtain ⟨k, hkind, hs⟩ := shape_ok_iff.1 h
  have hparse := hkind ▸ Kind.parse?_text k k.mem_all
  clear h
  cases r
  simp only at hparse hkind
  subst hkind
  cases k <;>
    simp only [Decode.shapeOf, bind_eq_ok, Decode.spell_ok, Decode.given_ok, Except.ok.injEq, pure,
      Except.pure] at hs
  case var =>
    obtain ⟨_, hspace, _, haccess, rfl⟩ := hs
    cases hrel
    simp only [ofNode, Record.kept, Record.strip, span_kept, *, Field.record_many,
      text_of_find? hspace, text_of_find? haccess]
    rfl
  case int =>
    obtain ⟨_, hvalue, _, hword, rfl⟩ := hs
    cases hrel
    simp only [ofNode, Record.kept, Record.strip, hparse, span_kept, hvalue,
      IntSuffix.text_of_parse? hword]
    rfl
  case binary | unary | stageAttribute | builtinAttribute | sampledTexture =>
    obtain ⟨_, hword, rfl⟩ := hs
    cases hrel
    simp only [ofNode, Record.kept, Record.strip, span_kept, *, text_of_find? hword]
    rfl
  case float | bool | locationAttribute | groupAttribute | bindingAttribute | idAttribute =>
    obtain ⟨_, hvalue, rfl⟩ := hs
    cases hrel
    simp only [ofNode, Record.kept, Record.strip, hparse, span_kept, hvalue]
    rfl
  case vector | matrix | array =>
    split at hs
    · cases hs
      cases hrel
      simp only [ofNode, Record.kept, Record.strip, span_kept, *]
      rfl
    · cases hs
  all_goals
    subst hs
    cases hrel
    simp only [ofNode, Record.kept, Record.strip, span_kept, *, Field.record_many]
    rfl

end Document
end ShaderLoom
