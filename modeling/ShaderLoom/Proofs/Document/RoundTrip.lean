import ShaderLoom.Proofs.Document.Print
import ShaderLoom.Proofs.Document.Reading

/-! Documents of programs can be read again, and the program that is read looks like the one that
was written. -/
namespace ShaderLoom

theorem UnaryOp.parse?_text : ∀ op ∈ declared, parse? op.text = some op := by decide

theorem IntSuffix.parse?_text (s : IntSuffix) : parse? s.text = some s := by cases s <;> rfl

theorem AddressSpace.parse?_text : ∀ s ∈ declared, parse? s.text = some s := by decide

theorem Access.parse?_text : ∀ a ∈ declared, parse? a.text = some a := by decide

theorem BuiltinValue.parse?_text : ∀ b ∈ declared.drop 1, parse? b.text = some b := by decide

theorem PipelineStage.parse?_text : ∀ s ∈ declared.drop 1, parse? s.text = some s := by decide

theorem TextureDim.parse?_text : ∀ d ∈ declared, parse? d.text = some d := by decide

namespace Document

open Arena

theorem Kind.parse?_text : ∀ k ∈ Kind.all, Kind.parse? k.text = some k := by decide

variable {a : Arena} {sub : NodeId → Option Record}

/-- How the shape of a node and the shape of its record go together. -/
abbrev Written (a : Arena) (sub : NodeId → Option Record) (required : List NodeId) :
    Shape Symbol NodeId → Shape String Field → Prop :=
  Shape.Rel (fun s x => x = a.nameOf s)
    (fun c f => f.record = sub c ∧ (f.required = true → c ∈ required))
    (List.Forall₂ fun c f => f.record = sub c ∧ (f.required = true → c ∈ required))

theorem forall₂_many {required : List NodeId} (path : String) (i : Nat) (cs : List NodeId)
    (h : ∀ c ∈ cs, c ∈ required) :
    List.Forall₂ (fun c (f : Field) => f.record = sub c ∧ (f.required = true → c ∈ required)) cs
      (Field.many path i (cs.map sub)) := by
  induction cs generalizing i with
  | nil => exact .nil
  | cons c cs ih =>
    exact .cons ⟨rfl, fun _ => h c (by simp)⟩ (ih (i + 1) fun d hd => h d (by simp [hd]))

theorem shape_of_kind {path : String} {r : Record} {k : Kind} (h : r.kind = k.text) :
    Decode.shape path r = Decode.shapeOf path r k := by
  unfold Decode.shape
  rw [h, Kind.parse?_text k k.mem_all]

theorem bind_spell {α β : Type} {what text : String} {parse? : String → Option α} {x : α}
    {f : α → Except Problem β} (h : parse? text = some x) :
    (Decode.spell what text parse? >>= f) = f x := by
  simp [Decode.spell, h, Bind.bind, Except.bind]

variable (a sub) in
/-- The record of a node has the shape of the node. -/
theorem shape_ofNode (path : String) {n : Node} (hn : n.shape.Spelled) (hacc : n.shape.Accessible) :
    ∃ s, Decode.shape path (ofNode a sub n) = .ok s ∧ Written a sub n.shape.required n.shape s := by
  obtain ⟨s, span⟩ := n
  simp only at hn hacc ⊢
  -- Of the children only those that may be absent are not required.
  have hlist : ∀ name (cs : List NodeId), (∀ c ∈ cs, c ∈ s.required) → List.Forall₂
      (fun c (f : Field) => f.record = sub c ∧ (f.required = true → c ∈ s.required)) cs
      (Field.many (path ++ name) 0 (cs.map sub)) := fun name cs h => forall₂_many _ 0 cs h
  rcases s with t | e | s | d | ⟨x, t, as⟩ | x | gs
  · cases t with
    | bool => exact ⟨_, shape_of_kind (k := .boolType) rfl, .bool⟩
    | i32 => exact ⟨_, shape_of_kind (k := .i32) rfl, .i32⟩
    | u32 => exact ⟨_, shape_of_kind (k := .u32) rfl, .u32⟩
    | f32 => exact ⟨_, shape_of_kind (k := .f32) rfl, .f32⟩
    | sampler c => exact ⟨_, shape_of_kind (k := .sampler) rfl, .sampler⟩
    | externalTexture => exact ⟨_, shape_of_kind (k := .externalTexture) rfl, .externalTexture⟩
    | named x => exact ⟨_, shape_of_kind (k := .typeName) rfl, .named rfl⟩
    | vector e w =>
      refine ⟨_, (shape_of_kind (k := .vector) rfl).trans (if_pos ?_), .vector ⟨rfl, ?_⟩⟩
      · simpa [ofNode, Shape.Spelled] using hn
      · simp [Shape.required, Shape.slots]
    | matrix e c r =>
      refine ⟨_, (shape_of_kind (k := .matrix) rfl).trans (if_pos ?_), .matrix ⟨rfl, ?_⟩⟩
      · simpa [ofNode, Shape.Spelled, and_assoc] using hn
      · simp [Shape.required, Shape.slots]
    | array e n =>
      refine ⟨_, (shape_of_kind (k := .array) rfl).trans (if_pos ?_), .array ⟨rfl, ?_⟩⟩
      · simpa [ofNode, Shape.Spelled] using hn
      · simp [Shape.required, Shape.slots]
    | sampledTexture d e =>
      refine ⟨_, (shape_of_kind (k := .sampledTexture) rfl).trans
        (bind_spell (TextureDim.parse?_text d hn)), .sampledTexture ⟨rfl, ?_⟩⟩
      simp [Shape.required, Shape.slots]
  · cases e with
    | ident x => exact ⟨_, shape_of_kind (k := .ident) rfl, .ident rfl⟩
    | int v s =>
      exact ⟨_, (shape_of_kind (k := .int) rfl).trans (bind_spell s.parse?_text), .int⟩
    | float v => exact ⟨_, shape_of_kind (k := .float) rfl, .float⟩
    | bool v => exact ⟨_, shape_of_kind (k := .bool) rfl, .boolean⟩
    | binary op l r =>
      refine ⟨_, (shape_of_kind (k := .binary) rfl).trans (bind_spell (BinaryOp.parse?_text hn)),
        .binary ⟨rfl, ?_⟩ ⟨rfl, ?_⟩⟩ <;> simp [Shape.required, Shape.slots]
    | unary op e =>
      refine ⟨_, (shape_of_kind (k := .unary) rfl).trans (bind_spell (UnaryOp.parse?_text op hn)),
        .unary ⟨rfl, ?_⟩⟩
      simp [Shape.required, Shape.slots]
    | call t args =>
      refine ⟨_, shape_of_kind (k := .call) rfl, .call ⟨rfl, ?_⟩ (hlist _ args ?_)⟩ <;>
        simp +contextual [Shape.required, Shape.slots]
    | index o i =>
      refine ⟨_, shape_of_kind (k := .index) rfl, .index ⟨rfl, ?_⟩ ⟨rfl, ?_⟩⟩ <;>
        simp [Shape.required, Shape.slots]
    | member o x =>
      refine ⟨_, shape_of_kind (k := .member) rfl, .member ⟨rfl, ?_⟩ rfl⟩
      simp [Shape.required, Shape.slots]
  · cases s with
    | block ss =>
      refine ⟨_, shape_of_kind (k := .block) rfl, .block (hlist _ ss ?_)⟩
      simp [Shape.required, Shape.slots]
    | varDecl v =>
      refine ⟨_, shape_of_kind (k := .varDecl) rfl, .varDecl ⟨rfl, ?_⟩⟩
      simp [Shape.required, Shape.slots]
    | assign l r =>
      refine ⟨_, shape_of_kind (k := .assign) rfl, .assign ⟨rfl, ?_⟩ ⟨rfl, ?_⟩⟩ <;>
        simp [Shape.required, Shape.slots]
    | increment l d =>
      refine ⟨_, shape_of_kind (k := .increment) rfl, .increment ⟨rfl, ?_⟩⟩
      simp [Shape.required, Shape.slots]
    | callStatement c =>
      refine ⟨_, shape_of_kind (k := .callStatement) rfl, .callStatement ⟨rfl, ?_⟩⟩
      simp [Shape.required, Shape.slots]
    | ifElse c b e =>
      refine ⟨_, shape_of_kind (k := .ifElse) rfl, .ifElse ⟨rfl, ?_⟩ ⟨rfl, ?_⟩ ⟨rfl, ?_⟩⟩ <;>
        simp [Shape.required]
    | forLoop i c t b =>
      refine ⟨_, shape_of_kind (k := .forLoop) rfl,
        .forLoop ⟨rfl, ?_⟩ ⟨rfl, ?_⟩ ⟨rfl, ?_⟩ ⟨rfl, ?_⟩⟩ <;> simp [Shape.required]
    | whileLoop c b =>
      refine ⟨_, shape_of_kind (k := .whileLoop) rfl, .whileLoop ⟨rfl, ?_⟩ ⟨rfl, ?_⟩⟩ <;>
        simp [Shape.required, Shape.slots]
    | loop b t =>
      refine ⟨_, shape_of_kind (k := .loop) rfl, .loop ⟨rfl, ?_⟩ ⟨rfl, ?_⟩⟩ <;>
        simp [Shape.required]
    | breakLoop => exact ⟨_, shape_of_kind (k := .breakLoop) rfl, .breakLoop⟩
    | continueLoop => exact ⟨_, shape_of_kind (k := .continueLoop) rfl, .continueLoop⟩
    | discard => exact ⟨_, shape_of_kind (k := .discard) rfl, .discard⟩
    | ret v =>
      refine ⟨_, shape_of_kind (k := .ret) rfl, .ret ⟨rfl, ?_⟩⟩
      simp
  · cases d with
    | value v =>
      obtain ⟨kind, x, t, i, as⟩ := v
      have hrel : ∀ k,
          Written a sub as (.decl (.value ⟨k, x, t, i, as⟩)) (.decl (.value ⟨k, a.nameOf x,
          ⟨path ++ ".type", false, sub t⟩, ⟨path ++ ".initializer", false, sub i⟩,
          Field.many (path ++ ".attributes") 0 (as.map sub)⟩)) :=
        fun k => .value rfl ⟨rfl, by simp⟩ ⟨rfl, by simp⟩ (hlist _ as (by simp [Shape.required]))
      cases kind with
      | var space access =>
        have hs := AddressSpace.parse?_text space hn
        have ha := Access.parse?_text access hacc
        exact ⟨_, (shape_of_kind (k := .var) rfl).trans ((bind_spell hs).trans (bind_spell ha)),
          hrel _⟩
      | letValue => exact ⟨_, shape_of_kind (k := .letValue) rfl, hrel _⟩
      | constant => exact ⟨_, shape_of_kind (k := .constant) rfl, hrel _⟩
      | overridable => exact ⟨_, shape_of_kind (k := .overridable) rfl, hrel _⟩
      | parameter => exact ⟨_, shape_of_kind (k := .parameter) rfl, hrel _⟩
    | function f =>
      obtain ⟨x, ps, r, b, as, ras⟩ := f
      refine ⟨_, shape_of_kind (k := .function) rfl,
        .function rfl (hlist _ ps ?_) ⟨rfl, ?_⟩ ⟨rfl, ?_⟩
        (hlist _ as ?_) (hlist _ ras ?_)⟩ <;> simp +contextual [Shape.required]
    | struct x ms as =>
      refine ⟨_, shape_of_kind (k := .struct) rfl, .struct rfl (hlist _ ms ?_) (hlist _ as ?_)⟩ <;>
        simp +contextual [Shape.required, Shape.slots]
    | typeAlias x t =>
      refine ⟨_, shape_of_kind (k := .typeAlias) rfl, .typeAlias rfl ⟨rfl, ?_⟩⟩
      simp [Shape.required, Shape.slots]
  · refine ⟨_, shape_of_kind (k := .structMember) rfl,
      .structMember rfl ⟨rfl, ?_⟩ (hlist _ as ?_)⟩ <;>
      simp +contextual [Shape.required, Shape.slots]
  · cases x with
    | stage s =>
      exact ⟨_, (shape_of_kind (k := .stageAttribute) rfl).trans
        (bind_spell (PipelineStage.parse?_text s hn)), .stage⟩
    | builtin b =>
      exact ⟨_, (shape_of_kind (k := .builtinAttribute) rfl).trans
        (bind_spell (BuiltinValue.parse?_text b hn)), .builtin⟩
    | location v => exact ⟨_, shape_of_kind (k := .locationAttribute) rfl, .location⟩
    | group v => exact ⟨_, shape_of_kind (k := .groupAttribute) rfl, .group⟩
    | binding v => exact ⟨_, shape_of_kind (k := .bindingAttribute) rfl, .binding⟩
    | id v => exact ⟨_, shape_of_kind (k := .idAttribute) rfl, .id⟩
    | workgroup x y z =>
      refine ⟨_, shape_of_kind (k := .workgroupAttribute) rfl,
        .workgroup ⟨rfl, ?_⟩ ⟨rfl, ?_⟩ ⟨rfl, ?_⟩⟩ <;>
        simp [Shape.required]
  · exact hn.elim

/-- The record of a node with all that is below it. -/
def whole (a : Arena) (i : NodeId) : Option Record := record a (a.size + 1) i

theorem record_of_lt (ha : a.Ordered) {n m i : Nat} (hn : i < n) (hm : i < m) :
    record a n i = record a m i := by
  induction n generalizing m i with
  | zero => exact absurd hn (Nat.not_lt_zero i)
  | succ n ih =>
    cases m with
    | zero => exact absurd hm (Nat.not_lt_zero i)
    | succ m =>
      cases h : a.node? i with
      | none => simp [record, h]
      | some x =>
        simp only [record, h, Option.map_some, Option.some.injEq]
        have hrel := Shape.Rel.refl (N := fun s t => a.nameOf s = a.nameOf t) (C := Eq)
          (L := List.Forall₂ Eq) (fun _ => rfl) (fun _ => rfl)
          (fun xs => List.forall₂_eq_eq_eq ▸ rfl) x.shape
        refine ofNode_eq ⟨rfl, fun _ => rfl⟩ hrel ?_
        rintro c hc _ _ rfl
        have := ha i x h c hc
        exact ih (by grind) (by grind)

theorem whole_eq (ha : a.Ordered) {i : NodeId} {n : Node} (h : a.node? i = some n) :
    whole a i = some (ofNode a (whole a) n) := by
  have hi := (range_of_node? h).2
  have hnext : whole a i = record a (a.size + 2) i :=
    record_of_lt ha (Nat.lt_succ_of_le hi) (Nat.lt_succ_of_le (Nat.le_succ_of_le hi))
  rw [hnext, record, h]
  rfl

/-- A node that may be a part of another one, or none. -/
def PartOf (a : Arena) (i : NodeId) : Prop :=
  i = 0 ∨ ∃ n, a.node? i = some n ∧ n.shape.Spelled ∧ n.shape.Accessible

/-- An arena whose nodes can be written to a document. -/
structure Writable (a : Arena) : Prop where
  ordered : a.Ordered
  named : "" ∉ a.symbols.names.toList
  parts : ∀ {i n}, a.node? i = some n → ∀ c ∈ n.shape.slots, PartOf a c
  present : ∀ {i n}, a.node? i = some n → ∀ c ∈ n.shape.required, c ≠ 0

theorem whole_eq_none (ha : a.Ordered) {i : NodeId} (hi : PartOf a i) :
    whole a i = none ↔ i = 0 := by
  refine ⟨fun h => ?_, fun h => by rw [h]; rfl⟩
  rcases hi with h0 | ⟨n, hn, _⟩
  · exact h0
  · rw [whole_eq ha hn] at h
    cases h

theorem exists_of_forall₂ {α β : Type} {R : α → β → Prop} {xs : List α} {ys : List β}
    (h : List.Forall₂ R xs ys) : ∀ y ∈ ys, ∃ x ∈ xs, R x y := by
  induction h with
  | nil => simp
  | cons hxy _ ih =>
    intro z hz
    rcases List.mem_cons.1 hz with rfl | hz
    · exact ⟨_, by simp, hxy⟩
    · obtain ⟨x, hx, hR⟩ := ih z hz
      exact ⟨x, by simp [hx], hR⟩

theorem forall₂_comp {α β γ : Type} {R : α → β → Prop} {S : β → γ → Prop} {T : α → γ → Prop}
    {xs : List α} {ys : List β} {zs : List γ} (h : List.Forall₂ R xs ys) (h' : List.Forall₂ S ys zs)
    (hT : ∀ x ∈ xs, ∀ y z, R x y → S y z → T x z) : List.Forall₂ T xs zs := by
  induction h generalizing zs with
  | nil =>
    cases h'
    exact .nil
  | cons hxy _ ih =>
    cases h' with
    | cons hyz hrest =>
      exact .cons (hT _ (by simp) _ _ hxy hyz) (ih hrest fun x hx => hT x (by simp [hx]))

/-- A builder that is read into, and which nodes of an arena its nodes stand for. -/
abbrev Reader := Builder × (NodeId → NodeId → Prop)

def Stands (w : Reader) (i j : NodeId) : Prop := (i = 0 ∧ j = 0) ∨ w.2 i j

/-- Nodes that stand for others look like them. -/
structure Faithful (M : Builder.Mode) (a : Arena) (w : Reader) (l : List NodeId) : Prop where
  good : M.Good w.1 (l.filter (· ≠ 0))
  known : w.1.Known
  accessible : w.1.Accessible
  noted : ∀ i j, w.2 i j → ∃ n m, a.node? i = some n ∧ w.1.node? j = some m ∧ n.span.Same m.span ∧
    Shape.Rel (fun s t => w.1.symbols.Names t (a.nameOf s)) (Stands w) (List.Forall₂ (Stands w))
      n.shape m.shape

/-- A later state of the same reading. -/
structure Onward (w w' : Reader) : Prop where
  target : w.1.Extends w'.1
  globals : w'.1.globals = w.1.globals
  notes : ∀ i j, w.2 i j → w'.2 i j

variable {M : Builder.Mode} {w w' w'' : Reader} {l l' F : List NodeId}

theorem Onward.trans (h : Onward w w') (h' : Onward w' w'') : Onward w w'' :=
  ⟨h.target.trans h'.target, h'.globals.trans h.globals,
    fun i j hij => h'.notes i j (h.notes i j hij)⟩

theorem Stands.onward (h : Onward w w') {i j : NodeId} (hs : Stands w i j) : Stands w' i j :=
  hs.imp_right (h.notes i j)

/-- What a field became. -/
def Became (a : Arena) (w : Reader) (f : Field) (j : NodeId) : Prop :=
  (f.required = true → j ≠ 0) ∧ ∀ c, PartOf a c → f.record = whole a c → Stands w c j

theorem Faithful.weaken (h : Faithful M a w l) (hl : ∀ x, l'.count x ≤ l.count x) :
    Faithful M a w l' := by
  refine ⟨h.good.weaken fun x => ?_, h.known, h.accessible, h.noted⟩
  by_cases hx : x = 0
  · rw [hx, List.count_eq_zero.2 (by simp)]
    exact Nat.zero_le _
  · rw [List.count_filter (by simpa using hx), List.count_filter (by simpa using hx)]
    exact hl x

/-- How reading goes through the fields of a record. -/
def reading (M : Builder.Mode) (a : Arena) : Shape.Copying Reader String Symbol Field NodeId where
  inv := Faithful M a
  le := Onward
  name w x s := w.1.symbols.Names s x
  child := Became a
  list w := List.Forall₂ (Became a w)
  res _ := []
  le_refl _ := ⟨.refl _, rfl, fun _ _ h => h⟩
  le_trans := Onward.trans
  weaken := Faithful.weaken
  name_mono h hn := hn.extend h.target.names
  child_mono h := And.imp_right fun hc c hle hr => (hc c hle hr).onward h
  list_mono h := List.Forall₂.imp fun _ _ => And.imp_right fun hc c hle hr => (hc c hle hr).onward h

section Steps

variable {E : DecodeError → Prop} {path : String}

/-- Notes stay right. -/
theorem Faithful.later (h : Faithful M a w l) (ho : Onward w w') {i j : NodeId} (hij : w.2 i j) :
    ∃ n m, a.node? i = some n ∧ w'.1.node? j = some m ∧ n.span.Same m.span ∧
      Shape.Rel (fun s t => w'.1.symbols.Names t (a.nameOf s)) (Stands w')
      (List.Forall₂ (Stands w'))
        n.shape m.shape := by
  obtain ⟨n, m, hn, hm, hspan, hrel⟩ := h.noted i j hij
  exact ⟨n, m, hn, ho.target.node? hm, hspan, hrel.mono (fun _ _ hx => hx.extend ho.target.names)
    (fun _ _ => Stands.onward ho) fun _ _ => List.Forall₂.imp fun _ _ => Stands.onward ho⟩

theorem turns_symbol {x : String} (h : x ≠ "" ∨ E (.invalid path .missingName)) :
    (reading M a).Turns E (Decode.symbol path x) [] (fun _ => []) fun w s =>
      w.1.symbols.Names s x := by
  intro w F hw
  unfold Decode.symbol
  split
  · next he => exact Runs.throw (h.resolve_left (by simpa using he))
  · next he =>
    obtain ⟨_, _, hs, hgood, hgrow⟩ :=
      Builder.Mode.Makes.symbol (n := x) (by simpa using he) w.1 _ hw.good
    cases hs
    have ho : Onward w ((w.1.register x).2, w.2) := ⟨hgrow.toExtends, rfl, fun _ _ h => h⟩
    have hknown : (w.1.register x).2.Known := hw.known.renamed rfl hgrow.names
    refine Runs.modifyGet w.2 ⟨⟨hgood, hknown, hw.accessible, fun i j hij => hw.later ho hij⟩, ho,
      ?_⟩
    exact SymbolTable.names_of_register _ _

/-- An absent field makes no node. -/
theorem turns_field (ha : a.Ordered) {f : Field}
    (hnone : f.record = none → f.required = true → E (.invalid f.path .missingNode))
    (hsome : ∀ r, f.record = some r → ∀ path, (reading M a).Turns E (Decode.node path r) []
      (fun j => [j]) fun w j => j ≠ 0 ∧ ∀ c, PartOf a c → whole a c = some r → w.2 c j) :
    (reading M a).Turns E (Decode.field f) [] (fun j => [j]) fun w j => Became a w f j := by
  intro w F hw
  cases hr : f.record with
  | some r =>
    have hnode : Decode.field f = Decode.node f.path r := by
      unfold Decode.field
      rw [hr, Decode.required, Decode.optional, ite_self]
    rw [hnode]
    refine (hsome r hr f.path w F hw).mono fun j w' ⟨hi, hle, hj, hc⟩ => ⟨hi, hle, fun _ => hj, ?_⟩
    intro c hle' hrec
    exact .inr (hc c hle' (by rw [← hrec, hr]))
  | none =>
    unfold Decode.field
    split
    · next hreq =>
      rw [hr, Decode.required]
      exact Runs.throw (hnone hr hreq)
    · next hreq =>
      rw [hr, Decode.optional]
      refine Runs.pure w.2 ⟨⟨by simpa using hw.good, hw.known, hw.accessible, hw.noted⟩,
        (reading M a).le_refl w, fun h => absurd h hreq, ?_⟩
      intro c hle hrec
      exact .inl ⟨(whole_eq_none ha hle).1 (by rw [← hrec, hr]), rfl⟩

theorem fieldwise : Decode.Fieldwise (reading M a) := ⟨fun _ => rfl, fun _ => rfl⟩

/-- A record that can be read: one of a node, unless every failure is allowed. -/
def Readable (a : Arena) (E : DecodeError → Prop) (r : Record) : Prop :=
  (∀ e, E e) ∨ ∃ i, PartOf a i ∧ whole a i = some r

/-- The node with a record, and the shape that is read from it. -/
theorem written (ha : Writable a) {i : NodeId} {r : Record} (hi : PartOf a i)
    (h : whole a i = some r) (path : String) :
    ∃ n s, a.node? i = some n ∧ r = ofNode a (whole a) n ∧
      Decode.shape path r = .ok s ∧ Written a (whole a) n.shape.required n.shape s := by
  rcases hi with rfl | ⟨n, hn, hspelled, haccess⟩
  · cases h
  · rw [whole_eq ha.ordered hn] at h
    cases h
    obtain ⟨s, hs, hw⟩ := shape_ofNode a (whole a) path hspelled haccess
    exact ⟨n, s, hn, rfl, hs, hw⟩

theorem span_ofNode (n : Node) :
    (ofNode a sub n).span = if n.span.valid then some n.span else none := by
  obtain ⟨s, span⟩ := n
  rcases s with t | e | s | d | ⟨x, t, as⟩ | x | gs
  · cases t <;> rfl
  · cases e <;> rfl
  · cases s <;> rfl
  · rcases d with ⟨k, x, t, i, as⟩ | f | _ | _
    · cases k <;> rfl
    all_goals rfl
  · rfl
  · cases x <;> rfl
  · rfl

/-- The place of a node is read from its record as it was. -/
theorem span_same (n : Node) :
    n.span.Same (if ((ofNode a sub n).span.getD {}).valid then
      (ofNode a sub n).span.getD {} else {}) := by
  rw [span_ofNode]
  by_cases h : n.span.valid = true
  · simp [h, Span.Same]
  · simpa [h] using Span.same_ofValid n.span

/-- Reading a record makes a node that stands for every node with that record. -/
theorem turns_node (ha : Writable a) (r : Record) : Readable a E r → ∀ path,
    (reading M a).Turns E (Decode.node path r) [] (fun j => [j])
      fun w j => j ≠ 0 ∧ ∀ c, PartOf a c → whole a c = some r → w.2 c j := by
  induction r using Record.induct with
  | h r ih =>
    intro hr path
    rw [Decode.node_eq]
    cases hs : Decode.shape path r with
    | error e =>
      intro w F _
      rcases hr with hE | ⟨i, hi, hw⟩
      · exact Runs.throw (hE _)
      · obtain ⟨_, _, _, _, hs', _⟩ := written ha hi hw path
        rw [hs] at hs'
        cases hs'
    | ok s =>
      have hshaped := Decode.shaped hs
      have hname : ∀ x ∈ s.names, x ≠ "" ∨ E (.invalid path .missingName) := by
        intro x hx
        rcases hr with hE | ⟨i, hi, hw⟩
        · exact .inr (hE _)
        · obtain ⟨_, _, _, _, hs', hrel⟩ := written ha hi hw path
          cases hs.symm.trans hs'
          obtain ⟨y, _, rfl⟩ := hrel.mem_names x hx
          exact .inl (SymbolTable.nameFor_ne_empty ha.named y)
      have hfield : ∀ f ∈ s.slots, (reading M a).Turns E (Decode.field f) [] (fun j => [j])
          fun w j => Became a w f j := by
        intro f hf
        refine turns_field ha.ordered (fun hnone hreq => ?_) fun r' hr' => ih r' ?_ ?_
        · rcases hr with hE | ⟨i, hi, hw⟩
          · exact hE _
          · obtain ⟨n, _, hn, _, hs', hrel⟩ := written ha hi hw path
            cases hs.symm.trans hs'
            obtain ⟨c, hc, hrec, hmem⟩ := hrel.mem_slots (fun xs ys => exists_of_forall₂) f hf
            have h0 := (whole_eq_none ha.ordered (ha.parts hn c hc)).1 (by rw [← hrec, hnone])
            exact absurd h0 (ha.present hn c (hmem hreq))
        · exact hr' ▸ hshaped.parts f hf
        · rcases hr with hE | ⟨i, hi, hw⟩
          · exact .inl hE
          · obtain ⟨n, _, hn, _, hs', hrel⟩ := written ha hi hw path
            cases hs.symm.trans hs'
            obtain ⟨c, hc, hrec, _⟩ := hrel.mem_slots (fun xs ys => exists_of_forall₂) f hf
            exact .inr ⟨c, ha.parts hn c hc, by rw [← hrec, hr']⟩
      intro w F hw
      refine (Decode.turns_parts fieldwise (fun x hx => turns_symbol (hname x hx)) hfield).bind _ F
        hw (fun _ => Nat.le_refl _) fun t w₁ h₁ hle₁ hrel => ?_
      let w₂ : Reader := ((w₁.1.push t (r.span.getD {})).2,
        fun c k => w₁.2 c k ∨ (k = w₁.1.size + 1 ∧ PartOf a c ∧ whole a c = some r))
      have hle₂ : Onward w₁ w₂ := ⟨Builder.Mode.extends_push _ _ _, rfl, fun _ _ h => .inl h⟩
      have hrequired : ∀ c ∈ t.required, c ≠ 0 := by
        refine Shape.Rel.required hrel (P := fun f => f.required = true) (fun f j h => h.1) ?_
          hshaped.required
        intro fs js hall hreq j hj
        obtain ⟨f, hf, hb⟩ := exists_of_forall₂ hall j hj
        exact hb.1 (hreq f hf)
      refine Runs.modifyGet w₂.2 ⟨⟨?_, ?_, ?_, ?_⟩, hle₁.trans hle₂, Nat.succ_ne_zero _, ?_⟩
      · have hgood := h₁.good
        rw [List.filter_append] at hgood
        refine hgood.push (F := F.filter (· ≠ 0)) _ ((Shape.Rel.spelled hrel).1 hshaped.spelled)
          hrequired
          (fun x hx => ?_) (by simp)
        refine Nat.le_of_eq ?_
        rw [List.count_append, List.count_filter (l := t.slots) (by simpa using hx)]
      · refine Builder.Mode.known_push h₁.known fun x hx => ?_
        obtain ⟨name, _, hn⟩ := Shape.Rel.mem_names hrel x hx
        exact ⟨name, hn⟩
      · intro k n hn
        rw [Builder.Mode.node?_push] at hn
        split at hn
        · cases hn
          exact (Shape.Rel.accessible hrel).1 hshaped.accessible
        · exact h₁.accessible k n hn
      · rintro i j (hij | ⟨rfl, hi, hw⟩)
        · exact h₁.later hle₂ hij
        · obtain ⟨n, s', hn, rfl, hs', hwritten⟩ := written ha hi hw path
          cases hs.symm.trans hs'
          have hnode := Builder.Mode.node?_push w₁.1 t ((ofNode a (whole a) n).span.getD {})
            (w₁.1.size + 1)
          rw [if_pos rfl, h₁.good.span] at hnode
          refine ⟨n, _, hn, hnode, span_same n, ?_⟩
          refine (hwritten.within.comp hrel).mono ?_ ?_ ?_
          · rintro x z ⟨_, rfl, hz⟩
            exact hz
          · rintro c z ⟨f, ⟨hc, hrec, _⟩, hf⟩
            exact (hf.2 c (ha.parts hn c hc) hrec).onward hle₂
          · rintro cs zs ⟨fs, ⟨hcs, hall⟩, hfs⟩
            refine forall₂_comp hall hfs fun c hc f z ⟨hrec, _⟩ hf => ?_
            exact (hf.2 c (ha.parts hn c (hcs c hc)) hrec).onward hle₂
      · exact fun c hc hw => .inr ⟨rfl, hc, hw⟩

/-- Reading the declarations of a document, each of which becomes a global. -/
theorem runs_globals (ha : Writable a) {rs : List (Option Record)}
    (hrs : ∀ o ∈ rs, (∀ e, E e) ∨ ∃ c, PartOf a c ∧ c ≠ 0 ∧ o = whole a c) (i : Nat)
    (hw : Faithful M a w []) :
    Runs (Decode.globals i rs) w E fun _ w' => Faithful M a w' [] ∧ w.1.Extends w'.1 ∧
      (∀ i j, w.2 i j → w'.2 i j) ∧ ∃ js, w'.1.globals = w.1.globals ++ js ∧
        List.Forall₂ (fun o j => ∀ c, PartOf a c → c ≠ 0 → o = whole a c → w'.2 c j) rs js := by
  induction rs generalizing i w with
  | nil => exact Runs.pure w.2 ⟨hw, .refl _, fun _ _ h => h, [], by simp, .nil⟩
  | cons o rs ih =>
    rw [Decode.globals]
    cases o with
    | none =>
      rw [Decode.required]
      refine Runs.bind (Runs.throw ?_)
      rcases hrs none (by simp) with hE | ⟨c, hc, h0, hnone⟩
      · exact hE _
      · exact absurd ((whole_eq_none ha.ordered hc).1 hnone.symm) h0
    | some r =>
      have hr : Readable a E r :=
        (hrs (some r) (by simp)).imp_right fun ⟨c, hc, _, hwhole⟩ => ⟨c, hc, hwhole.symm⟩
      rw [Decode.required]
      refine (turns_node ha r hr _).bind _ [] hw (fun _ => Nat.le_refl _) fun j w₁ h₁ hle₁ hj => ?_
      have hle₂ : w₁.1.Extends { w₁.1 with globals := w₁.1.globals ++ [j] } :=
        ⟨⟨#[], by simp⟩, ⟨#[], by simp⟩, rfl, rfl⟩
      have hgood := h₁.good
      rw [List.append_nil, List.filter_cons_of_pos (by simpa using hj.1)] at hgood
      refine Runs.bind (Runs.modify w₁.2 ?_)
      refine (ih (w := ({ w₁.1 with globals := w₁.1.globals ++ [j] }, w₁.2))
        (fun o ho => hrs o (by simp [ho])) (i + 1)
        ⟨hgood.addGlobal, h₁.known.renamed rfl ⟨#[], by simp⟩, h₁.accessible, h₁.noted⟩).mono ?_
      rintro _ w₂ ⟨h₂, hext, hnotes, js, hjs, hall⟩
      refine ⟨h₂, hle₁.target.trans (hle₂.trans hext),
        fun i j hij => hnotes i j (hle₁.notes i j hij), j :: js, ?_, .cons ?_ hall⟩
      · rw [hjs, hle₁.globals]
        simp
      · exact fun c hc _ hwhole => hnotes c j (hj.2 c hc hwhole.symm)

end Steps

theorem writable_empty : Writable {} := by
  have hnone : ∀ i, ({} : Arena).node? i = none := by
    intro i
    cases i <;> simp
  refine ⟨fun i n hn => ?_, by simp, fun {i n} hn => ?_, fun {i n} hn => ?_⟩ <;> simp [hnone] at hn

theorem known_empty : ({} : Builder).Known := by
  intro i n hn
  cases i <;> simp at hn

theorem accessible_empty : ({} : Builder).Accessible := by
  intro i n hn
  cases i <;> simp at hn

/-- The program of a document is built of nodes that can be written again, none of them held
twice. -/
theorem decode_good {m : Module} {p : Program} (h : m.decode = .ok p) :
    ∃ b : Builder, (Builder.Mode.mk ⟨True, True, True⟩ True).Good b [] ∧ b.Known ∧ b.Accessible ∧
      b.diagnostics = [] ∧ p = b.build := by
  have hempty : Faithful (Builder.Mode.mk ⟨True, True, True⟩ True)
      {} (({}, fun _ _ => False) : Reader) [] :=
    ⟨.empty rfl rfl (by simp) rfl, known_empty, accessible_empty, fun _ _ h => h.elim⟩
  unfold Module.decode at h
  split at h
  · cases h
  · split at h
    · next b hb =>
      cases h
      have hreadable : ∀ o ∈ m.globals, (∀ e : DecodeError, True) ∨
          ∃ c, PartOf {} c ∧ c ≠ 0 ∧ o = whole {} c := fun _ _ => .inl fun _ => trivial
      obtain ⟨_, hf, hext, _⟩ :=
        (runs_globals (E := fun _ => True) writable_empty hreadable 0 hempty).ok hb
      exact ⟨b, hf.good, hf.known, hf.accessible, hext.diagnostics, rfl⟩
    · cases h

end Document

namespace Program

open Arena Document

variable {p : Program}

theorem Fit.part (hp : p.Fit) (ha : p.Accessible) {i : NodeId} (h : i < p.root) :
    PartOf p.toArena i := by
  by_cases h0 : i = 0
  · exact .inl h0
  · have hi : 0 < i ∧ i ≤ p.size := ⟨Nat.pos_of_ne_zero h0, hp.root ▸ Nat.le_of_lt h⟩
    obtain ⟨n, hn⟩ := Option.isSome_iff_exists.1 (node?_isSome_iff.2 hi)
    exact .inr ⟨n, hn, hp.spelled hn (Nat.ne_of_lt h), ha i n hn⟩

theorem Fit.writable (hp : p.Fit) (ha : p.Accessible) : Writable p.toArena where
  ordered := hp.ordered
  named := hp.named
  parts {i n} hn c hc := by
    have hi := (range_of_node? hn).2
    rw [← hp.root] at hi
    exact hp.part ha (Nat.lt_of_lt_of_le (hp.below hn c hc) hi)
  present := hp.present

/-- The document of a fit program with declared words can be read, and gives a program that reads
the same. -/
theorem Fit.decode (hp : p.Fit) (ha : p.Accessible) :
    ∃ q, (ofProgram p).decode = .ok q ∧ q.Fit ∧ p.Reads q := by
  have hempty : Faithful (Builder.Mode.mk ⟨False, False, False⟩ False) p.toArena
      (({}, fun _ _ => False) : Reader) [] :=
    ⟨.empty rfl rfl (by simp) rfl, known_empty, accessible_empty, fun _ _ h => h.elim⟩
  have hglobals : ∀ o ∈ (ofProgram p).globals, (∀ e : DecodeError, False) ∨
      ∃ c, PartOf p.toArena c ∧ c ≠ 0 ∧ o = whole p.toArena c := by
    intro o ho
    obtain ⟨g, hg, rfl⟩ := List.mem_map.1 ho
    exact .inr ⟨g, hp.part ha (hp.globals g hg).2, Nat.ne_of_gt (hp.globals g hg).1, rfl⟩
  obtain ⟨_, b, R, hb, hf, _, _, js, hjs, hall⟩ :=
    (runs_globals (E := fun _ => False) (hp.writable ha) hglobals 0 hempty).succeeds
  have hq : b.build.Fit := hf.good.toFit.build
  have hdecode : (ofProgram p).decode = .ok b.build := by
    unfold Module.decode
    rw [if_neg (by simp [ofProgram])]
    simp only at hb
    rw [hb]
  refine ⟨b.build, hdecode, hq, hp.reads hq (R := Stands (b, R)) ?_ ?_⟩
  · intro i j hij
    refine hij.imp_right fun hR => ?_
    obtain ⟨n, m, hn, hm, hspan, hrel⟩ := hf.noted i j hR
    refine ⟨n, m, hn, ?_, hspan, hrel.mono (fun s t h => h.nameFor.symm) (fun _ _ h => h)
      fun _ _ h => h⟩
    rw [Builder.node?_build, if_neg (Nat.ne_of_lt (Nat.lt_succ_of_le (range_of_node? hm).2))]
    exact hm
  · rw [Builder.globals_build, hjs]
    have hall' := List.forall₂_map_left_iff.1 hall
    refine List.Forall₂.imp (fun g j h => ?_) ((List.forall₂_and_left _ _).2 ⟨hp.globals, hall'⟩)
    exact .inr (h.2 g (hp.part ha h.1.2) (Nat.ne_of_gt h.1.1) rfl)

end Program

end ShaderLoom
