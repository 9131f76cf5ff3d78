import ShaderLoom.Proofs.Shape
import ShaderLoom.Syntax.Builder

/-! What the steps of a builder keep. A builder is fit if each of its nodes is spelled as a document
can spell it and was made after its children. Beside that, a step uses up the nodes that it puts
into a new one and gives that one in return, so that under the strict mode no node is ever held
twice. -/
namespace ShaderLoom

namespace VariableKind

/-- The words of the kind are declared ones, access modes aside. -/
def Spelled : VariableKind → Prop
  | .var space _ => space ∈ AddressSpace.declared
  | _ => True

/-- The access mode of the kind is a declared one. -/
def Accessible : VariableKind → Prop
  | .var _ access => access ∈ Access.declared
  | _ => True

end VariableKind

namespace Shape

variable {ν α : Type}

/-- The words of the shape are declared ones, access modes aside, and its sizes are in range. A
module is never a part. -/
def Spelled : Shape ν α → Prop
  | type (.vector _ w) => 2 ≤ w ∧ w ≤ 4
  | type (.matrix _ c r) => 2 ≤ c ∧ c ≤ 4 ∧ 2 ≤ r ∧ r ≤ 4
  | type (.array _ n) => 0 ≤ n
  | type (.sampledTexture d _) => d ∈ TextureDim.declared
  | expr (.binary op _ _) => op ∈ BinaryOp.declared
  | expr (.unary op _) => op ∈ UnaryOp.declared
  | decl (.value v) => v.kind.Spelled
  | attr (.stage s) => s ∈ PipelineStage.declared.drop 1
  | attr (.builtin b) => b ∈ BuiltinValue.declared.drop 1
  | module _ => False
  | _ => True

/-- The access mode of a variable is a declared one. -/
def Accessible : Shape ν α → Prop
  | decl (.value v) => v.kind.Accessible
  | _ => True

/-- The children that cannot be absent. -/
def required : Shape ν α → List α
  | stmt (.ifElse c b _) => [c, b]
  | stmt (.forLoop _ _ _ b) => [b]
  | stmt (.loop b _) => [b]
  | stmt (.ret _) => []
  | decl (.value v) => v.attributes
  | decl (.function f) => f.attributes ++ f.params ++ f.returnAttributes ++ [f.body]
  | attr (.workgroup x _ _) => [x]
  | s => s.slots

theorem required_subset (s : Shape ν α) : ∀ c ∈ s.required, c ∈ s.slots := by
  intro c hc
  unfold required at hc
  split at hc <;> simp only [slots, List.mem_append, List.mem_cons] at hc ⊢ <;> grind

/-- No element of a list can be absent. -/
theorem mem_required_of_lists {s : Shape ν α} {xs : List α} (h : xs ∈ s.lists) :
    ∀ c ∈ xs, c ∈ s.required := by
  intro c hc
  unfold lists at h
  split at h <;> simp only [List.mem_cons, List.not_mem_nil, or_false] at h <;>
    simp only [required, slots] <;> grind

variable {μ β : Type} {N : ν → μ → Prop} {C : α → β → Prop} {L : List α → List β → Prop}
  {s : Shape ν α} {t : Shape μ β}

theorem Rel.spelled (h : Rel N C L s t) : s.Spelled ↔ t.Spelled := by
  cases h <;> rfl

theorem Rel.accessible (h : Rel N C L s t) : s.Accessible ↔ t.Accessible := by
  cases h <;> rfl

/-- A property that passes from children to related ones passes from required ones to required
ones. -/
theorem Rel.required (h : Rel N C L s t) {P : α → Prop} {Q : β → Prop}
    (hC : ∀ x y, C x y → P x → Q y) (hL : ∀ xs ys, L xs ys → (∀ x ∈ xs, P x) → ∀ y ∈ ys, Q y)
    (hs : ∀ c ∈ s.required, P c) : ∀ c ∈ t.required, Q c := by
  cases h <;> simp only [Shape.required, slots, List.mem_append, List.mem_cons] at hs ⊢ <;> grind

end Shape

namespace Arena

theorem range_of_node? {a : Arena} {id : NodeId} {n : Node} (h : a.node? id = some n) :
    0 < id ∧ id ≤ a.size :=
  node?_isSome_iff.1 (by simp [h])

/-- Numbers of 32 bits are enough for the nodes of an arena that has fewer. -/
theorem lt_idLimit_of_node? {a : Arena} {id : NodeId} {n : Node} (hsize : a.size < idLimit)
    (h : a.node? id = some n) : id < idLimit := Nat.lt_of_le_of_lt (range_of_node? h).2 hsize

section Shapes

variable {a : Arena} {i : NodeId}

theorem ne_zero_of_shape {x : Shape Symbol NodeId} (h : a.shape? i = some x) : i ≠ 0 := by
  rintro rfl
  cases h

theorem shape?_of_asVariable? {v : VariableShape Symbol NodeId} (h : a.asVariable? i = some v) :
    a.shape? i = some (.decl (.value v)) := by
  obtain ⟨x, hx, hv⟩ := Option.bind_eq_some_iff.1 h
  cases x with
  | decl x =>
    cases x with
    | value w =>
      cases hv
      exact hx
    | _ => cases hv
  | _ => cases hv

theorem shape_of_asVariable? {v : VariableShape Symbol NodeId} (h : a.asVariable? i = some v)
    {n : Node} (hn : a.node? i = some n) : n.shape = .decl (.value v) := by
  have hs := shape?_of_asVariable? h
  rwa [shape?, hn, Option.map_some, Option.some.injEq] at hs

theorem shape?_of_function? {f : FunctionShape Symbol NodeId} (h : a.function? i = some f) :
    a.shape? i = some (.decl (.function f)) := by
  obtain ⟨x, hx, hf⟩ := Option.bind_eq_some_iff.1 h
  cases x with
  | decl x =>
    cases x with
    | function g =>
      cases hf
      exact hx
    | _ => cases hf
  | _ => cases hf

end Shapes

/-- A node that is a block. -/
def isBlock (a : Arena) (id : NodeId) : Prop := (a.block? id).isSome

/-- A node that is a conditional statement. -/
def isIf (a : Arena) (id : NodeId) : Prop := ∃ c b e, a.shape? id = some (.stmt (.ifElse c b e))

/-- A node that may stand in the header of a loop. -/
def isSimple (a : Arena) (id : NodeId) : Prop :=
  ∃ s : StmtShape NodeId, a.shape? id = some (.stmt s) ∧
    match s with
    | .varDecl _ | .assign _ _ | .increment _ _ | .callStatement _ => True
    | _ => False

/-- The statements that a shape holds are of the kinds that belong there: blocks for bodies, a block
or another conditional after `else`, and simple statements in headers of loops. -/
def Documented (a : Arena) : Shape Symbol NodeId → Prop
  | .stmt (.ifElse _ b e) => a.isBlock b ∧ (e = 0 ∨ a.isBlock e ∨ a.isIf e)
  | .stmt (.forLoop i _ t b) => (i = 0 ∨ a.isSimple i) ∧ (t = 0 ∨ a.isSimple t) ∧ a.isBlock b
  | .stmt (.whileLoop _ b) => a.isBlock b
  | .stmt (.loop b t) => a.isBlock b ∧ (t = 0 ∨ a.isBlock t)
  | .decl (.function f) => a.isBlock f.body
  | _ => True

section Mono

variable {a b : Arena} (h : ∀ {k s}, a.shape? k = some s → b.shape? k = some s)
include h

theorem isBlock.mono {k : NodeId} (hk : a.isBlock k) : b.isBlock k := by
  obtain ⟨ss, hs⟩ := Option.isSome_iff_exists.1 hk
  obtain ⟨s, hs, hb⟩ := Option.bind_eq_some_iff.1 hs
  simp [isBlock, block?, h hs, hb]

theorem isIf.mono {k : NodeId} (hk : a.isIf k) : b.isIf k := by
  obtain ⟨c, d, e, hs⟩ := hk
  exact ⟨c, d, e, h hs⟩

theorem isSimple.mono {k : NodeId} (hk : a.isSimple k) : b.isSimple k := by
  obtain ⟨s, hs, hm⟩ := hk
  exact ⟨s, h hs, hm⟩

theorem Documented.mono {s : Shape Symbol NodeId} (hs : a.Documented s) : b.Documented s := by
  unfold Documented at hs ⊢
  split at hs
  · exact ⟨hs.1.mono h, hs.2.imp_right (Or.imp (.mono h) (.mono h))⟩
  · exact ⟨hs.1.imp_right (.mono h), hs.2.1.imp_right (.mono h), hs.2.2.mono h⟩
  · exact hs.mono h
  · exact ⟨hs.1.mono h, hs.2.imp_right (.mono h)⟩
  · exact hs.mono h
  · trivial

end Mono

end Arena

namespace Builder

/-- The first builder with more nodes and names. -/
structure Extends (b b' : Builder) : Prop where
  nodes : ∃ more, b'.nodes = b.nodes ++ more
  names : ∃ more, b'.symbols.names = b.symbols.names ++ more
  span : b'.span = b.span
  diagnostics : b'.diagnostics = b.diagnostics

namespace Extends

variable {b b' b'' : Builder}

theorem refl (b : Builder) : b.Extends b :=
  ⟨⟨#[], by simp⟩, ⟨#[], by simp⟩, rfl, rfl⟩

theorem trans (h : b.Extends b') (h' : b'.Extends b'') : b.Extends b'' := by
  obtain ⟨m, hm⟩ := h.nodes
  obtain ⟨m', hm'⟩ := h'.nodes
  obtain ⟨n, hn⟩ := h.names
  obtain ⟨n', hn'⟩ := h'.names
  refine ⟨⟨m ++ m', ?_⟩, ⟨n ++ n', ?_⟩, h'.span.trans h.span, h'.diagnostics.trans h.diagnostics⟩
  · rw [hm', hm, Array.append_assoc]
  · rw [hn', hn, Array.append_assoc]

theorem size_le (h : b.Extends b') : b.size ≤ b'.size := by
  obtain ⟨m, hm⟩ := h.nodes
  simp [Arena.size, hm]

theorem node? (h : b.Extends b') {k : NodeId} {n : Node} (hk : b.node? k = some n) :
    b'.node? k = some n := by
  obtain ⟨m, hm⟩ := h.nodes
  cases k with
  | zero => simp at hk
  | succ k =>
    rw [Arena.node?_succ] at hk ⊢
    obtain ⟨hlt, _⟩ := Array.getElem?_eq_some_iff.1 hk
    rw [hm, Array.getElem?_append_left hlt, hk]

/-- The nodes of the smaller builder are those of the larger one up to its size. -/
theorem node?_eq (h : b.Extends b') {k : NodeId} (hk : k ≤ b.size) : b'.node? k = b.node? k := by
  by_cases h0 : 0 < k
  · obtain ⟨n, hn⟩ := Option.isSome_iff_exists.1 (Arena.node?_isSome_iff.2 ⟨h0, hk⟩)
    rw [hn, h.node? hn]
  · rw [Nat.eq_zero_of_not_pos h0]
    rfl

theorem shape? (h : b.Extends b') {k : NodeId} {s : Shape Symbol NodeId}
    (hk : b.shape? k = some s) : b'.shape? k = some s := by
  obtain ⟨n, hn, rfl⟩ := Option.map_eq_some_iff.1 hk
  simp [Arena.shape?, h.node? hn]

theorem isBlock (h : b.Extends b') {k : NodeId} (hk : b.isBlock k) : b'.isBlock k :=
  hk.mono h.shape?

theorem isIf (h : b.Extends b') {k : NodeId} (hk : b.isIf k) : b'.isIf k := hk.mono h.shape?

theorem isSimple (h : b.Extends b') {k : NodeId} (hk : b.isSimple k) : b'.isSimple k :=
  hk.mono h.shape?

theorem documented (h : b.Extends b') {s : Shape Symbol NodeId} (hs : b.Documented s) :
    b'.Documented s := hs.mono h.shape?

end Extends

/-- Every node can be written to a document and was made after its children. -/
structure Fit (b : Builder) : Prop where
  spelled : ∀ {k n}, b.node? k = some n → n.shape.Spelled
  present : ∀ {k n}, b.node? k = some n → ∀ c ∈ n.shape.required, c ≠ 0
  below : ∀ {k n}, b.node? k = some n → ∀ c ∈ n.shape.slots, c < k
  named : "" ∉ b.symbols.names.toList
  globals : ∀ g ∈ b.globals, 0 < g ∧ g ≤ b.size
  span : b.span = {}

/-- How often a node is held, by other nodes and as a global. -/
def held (b : Builder) (x : NodeId) : Nat :=
  (b.nodes.toList.flatMap fun n => n.shape.slots).count x + b.globals.count x

/-- What may be asked of the steps beyond fitness: that no node is held twice, that new nodes are of
the documented form and no external textures, and that their access modes are declared ones. -/
structure Demands where
  counted : Prop
  tidy : Prop
  worded : Prop

/-- The demands on a builder, and whether nothing more may be declared in it. -/
structure Mode extends Demands where
  closed : Prop

namespace Mode

variable (M : Mode)

/-- A fit builder, and nodes of it that are free to be held. -/
structure Good (b : Builder) (l : List NodeId) : Prop extends Fit b where
  free : ∀ x ∈ l, 0 < x ∧ x ≤ b.size
  once : M.counted → ∀ x, x ≠ 0 → b.held x + l.count x ≤ 1

/-- A shape that a step may add. -/
structure Allows (b : Builder) (s : Shape Symbol NodeId) : Prop where
  documented : M.tidy → b.Documented s
  internal : M.tidy → s ≠ .type .externalTexture
  accessible : M.worded → s.Accessible

/-- More nodes and names, all of them allowed. -/
structure Grows (b b' : Builder) : Prop extends Extends b b' where
  allowed : ∀ {k n}, b.size < k → b'.node? k = some n → M.Allows b' n.shape
  globals : M.closed → b'.globals = b.globals

variable {M} {b b' b'' : Builder} {l l' : List NodeId}

theorem Good.weaken (h : M.Good b l) (hl : ∀ x, l'.count x ≤ l.count x) : M.Good b l' where
  toFit := h.toFit
  free x hx := h.free x (List.count_pos_iff.1 (Nat.lt_of_lt_of_le (List.count_pos_iff.2 hx) (hl x)))
  once hc x hx := Nat.le_trans (Nat.add_le_add_left (hl x) _) (h.once hc x hx)

/-- A builder without nodes, whatever names it has. -/
theorem Good.empty (hn : b.nodes = #[]) (hg : b.globals = []) (hs : "" ∉ b.symbols.names.toList)
    (hspan : b.span = {}) : M.Good b [] := by
  have hnone : ∀ k, b.node? k = none := by
    intro k
    cases k with
    | zero => rfl
    | succ k => simp [hn]
  refine ⟨⟨?_, ?_, ?_, hs, by simp [hg], hspan⟩, by simp, ?_⟩
  · exact fun h => absurd h (by simp [hnone])
  · exact fun h => absurd h (by simp [hnone])
  · exact fun h => absurd h (by simp [hnone])
  · simp [held, hn, hg]

/-- Names may be added as long as none is empty. -/
theorem Good.renamed (h : M.Good b l) {t : SymbolTable} (ht : "" ∉ t.names.toList) :
    M.Good { b with symbols := t } l :=
  ⟨⟨h.spelled, h.present, h.below, ht, h.globals, h.span⟩, h.free, h.once⟩

/-- Where nodes are not counted, a free one may be used again. -/
theorem Good.again (h : M.Good b l) (hc : ¬ M.counted) (hl : ∀ x ∈ l', 0 < x ∧ x ≤ b.size) :
    M.Good b l' where
  toFit := h.toFit
  free := hl
  once h := absurd h hc

theorem Allows.extends {s : Shape Symbol NodeId} (h : M.Allows b s) (hb : b.Extends b') :
    M.Allows b' s :=
  { h with documented := fun ht => hb.documented (h.documented ht) }

/-- Without new nodes nothing has to be allowed. -/
theorem Grows.of_nodes (h : b.Extends b') (hn : b'.nodes = b.nodes)
    (hg : M.closed → b'.globals = b.globals) : M.Grows b b' where
  toExtends := h
  allowed hk hn' := by
    have hs : b'.size = b.size := by simp [Arena.size, hn]
    exact absurd hk (Nat.not_lt.2 (hs ▸ (Arena.range_of_node? hn').2))
  globals := hg

theorem Grows.refl (b : Builder) : M.Grows b b := .of_nodes (.refl b) rfl fun _ => rfl

theorem Grows.trans (h : M.Grows b b') (h' : M.Grows b' b'') : M.Grows b b'' where
  toExtends := h.toExtends.trans h'.toExtends
  allowed {k n} hk hn := by
    by_cases hle : k ≤ b'.size
    · rw [h'.node?_eq hle] at hn
      exact (h.allowed hk hn).extends h'.toExtends
    · exact h'.allowed (by omega) hn
  globals hc := (h'.globals hc).trans (h.globals hc)

end Mode
end Builder
end ShaderLoom
