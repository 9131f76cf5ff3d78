import ShaderLoom.Proofs.Builder

/-! The steps of a builder, one by one: which nodes each uses up and which it gives. -/
namespace ShaderLoom

namespace SymbolTable

/-- The symbol stands for the name in the table. -/
def Names (t : SymbolTable) (s : Symbol) (name : String) : Prop :=
  s ≠ 0 ∧ t.names[s - 1]? = some name

variable {t t' : SymbolTable} {s : Symbol} {name : String}

theorem Names.nameFor (h : t.Names s name) : t.nameFor s = name := by
  simp [SymbolTable.nameFor, h.1, h.2]

theorem Names.extend (h : t.Names s name) (he : ∃ more, t'.names = t.names ++ more) :
    t'.Names s name := by
  obtain ⟨more, hm⟩ := he
  obtain ⟨hlt, _⟩ := Array.getElem?_eq_some_iff.1 h.2
  exact ⟨h.1, by rw [hm, Array.getElem?_append_left hlt, h.2]⟩

theorem names_get (h : name ∈ t.names.toList) : t.Names (t.get name) name := by
  unfold get
  cases hi : t.names.toList.findIdx? (· == name) with
  | none =>
    have := List.findIdx?_eq_none_iff.1 hi name h
    simp at this
  | some i =>
    obtain ⟨hlt, heq, _⟩ := List.findIdx?_eq_some_iff_getElem.1 hi
    refine ⟨Nat.succ_ne_zero i, ?_⟩
    simpa [← Array.getElem?_toList, List.getElem?_eq_getElem hlt] using heq

theorem names_of_register (t : SymbolTable) (name : String) :
    (t.register name).2.Names (t.register name).1 name := by
  unfold register
  split
  · next h => exact names_get h
  · exact ⟨Nat.succ_ne_zero _, by simp [size]⟩

/-- No symbol has the empty name unless the table holds it. -/
theorem nameFor_ne_empty (h : "" ∉ t.names.toList) (s : Symbol) : t.nameFor s ≠ "" := by
  unfold nameFor
  split
  · decide
  · cases hn : t.names[s - 1]? with
    | none =>
      intro he
      have := congrArg String.length he
      simp at this
    | some x =>
      rintro rfl
      exact h (Array.mem_toList_iff.2 (Array.mem_of_getElem? hn))

/-- The `k`-th candidate for a fresh name. -/
def candidate (hint : String) (k : Nat) : String :=
  if k = 0 then hint else hint ++ "_" ++ toString k

theorem freshName_succ (t : SymbolTable) (hint : String) (n k : Nat) :
    t.freshName hint (n + 1) k =
      if candidate hint k ∈ t.names.toList then t.freshName hint n (k + 1) else candidate hint k :=
  rfl

theorem candidate_ne_empty {hint : String} (h : hint ≠ "") (k : Nat) : candidate hint k ≠ "" := by
  unfold candidate
  split
  · exact h
  · intro he
    have := congrArg String.length he
    simp at this

theorem freshName_ne_empty (t : SymbolTable) {hint : String} (h : hint ≠ "") (n k : Nat) :
    t.freshName hint n k ≠ "" := by
  induction n generalizing k with
  | zero => exact candidate_ne_empty h k
  | succ n ih =>
    rw [freshName_succ]
    split
    · exact ih (k + 1)
    · exact candidate_ne_empty h k

theorem freshName_hint_ne_empty (t : SymbolTable) (hint : String) :
    t.freshName (if hint.isEmpty then defaultName else hint) t.size 0 ≠ "" := by
  apply freshName_ne_empty
  split
  · decide
  · intro he
    simp_all

/-- Registering a name adds it, at most. -/
theorem register_extends (t : SymbolTable) (name : String) :
    ∃ more, (t.register name).2.names = t.names ++ more := by
  rw [names_register]
  split
  · exact ⟨#[], by simp⟩
  · exact ⟨#[name], by simp⟩

theorem empty_not_mem_register {t : SymbolTable} {name : String} (h : "" ∉ t.names.toList)
    (hn : name ≠ "") : "" ∉ (t.register name).2.names.toList := by
  rw [names_register]
  split
  · exact h
  · simpa [h] using hn.symm

end SymbolTable

namespace Builder

/-- Every name in a node is a symbol of the table. -/
def Known (b : Builder) : Prop :=
  ∀ k n, b.node? k = some n → ∀ s ∈ n.shape.names, ∃ x, b.symbols.Names s x

theorem Known.renamed {b b' : Builder} (h : b.Known) (hn : b'.nodes = b.nodes)
    (he : ∃ more, b'.symbols.names = b.symbols.names ++ more) : b'.Known := by
  intro k n hk s hs
  have hk' : b.node? k = some n := by simpa only [Arena.node?, hn] using hk
  obtain ⟨x, hx⟩ := h k n hk' s hs
  exact ⟨x, hx.extend he⟩

end Builder

namespace Operand

/-- The node that an operand brings along. -/
def uses : Operand → List NodeId
  | .node id => [id]
  | _ => []

/-- An operand that can be built. -/
def Known : Operand → Prop
  | .name text => text ≠ ""
  | .unsupported => False
  | _ => True

end Operand

namespace Builder.Mode

variable {M : Mode} {b : Builder} {l F : List NodeId} {α β : Type}

theorem node?_push (b : Builder) (s : Shape Symbol NodeId) (span : Span) (k : NodeId) :
    (b.push s span).2.node? k =
      if k = b.size + 1 then some ⟨s, if span.valid then span else b.span⟩ else b.node? k := by
  cases k with
  | zero => simp
  | succ k => simp [Arena.node?_succ, push, Arena.size, Array.getElem?_push]

theorem shape?_push (b : Builder) (s : Shape Symbol NodeId) (span : Span) :
    (b.push s span).2.shape? (b.push s span).1 = some s := by
  rw [Arena.shape?, node?_push, if_pos (show (b.push s span).1 = b.size + 1 from rfl),
    Option.map_some]

theorem extends_push (b : Builder) (s : Shape Symbol NodeId) (span : Span) :
    b.Extends (b.push s span).2 where
  nodes := ⟨#[⟨s, if span.valid then span else b.span⟩], by simp [push]⟩
  names := ⟨#[], by simp [push]⟩
  span := rfl
  diagnostics := rfl

theorem known_push (h : b.Known) {s : Shape Symbol NodeId} {span : Span}
    (hs : ∀ x ∈ s.names, ∃ name, b.symbols.Names x name) : (b.push s span).2.Known := by
  intro k n hk x hx
  rw [node?_push] at hk
  split at hk
  · cases hk
    exact hs x hx
  · exact h k n hk x hx

theorem held_push (b : Builder) (s : Shape Symbol NodeId) (span : Span) (x : NodeId) :
    (b.push s span).2.held x = b.held x + s.slots.count x := by
  simp [held, push]
  omega

theorem mem_nodes {a : Arena} {n : Node} (h : n ∈ a.nodes.toList) : ∃ k, a.node? k = some n := by
  obtain ⟨i, hi, rfl⟩ := List.getElem_of_mem h
  exact ⟨i + 1, by simp⟩

/-- Nothing holds a node that is not there yet. -/
theorem held_eq_zero {x : NodeId} (h : b.Fit) (hx : b.size < x) : b.held x = 0 := by
  have hnodes : (b.nodes.toList.flatMap fun n => n.shape.slots).count x = 0 := by
    refine List.count_eq_zero.2 fun hm => ?_
    obtain ⟨n, hn, hm⟩ := List.mem_flatMap.1 hm
    obtain ⟨k, hk⟩ := mem_nodes hn
    have := h.below hk x hm
    have := (Arena.range_of_node? hk).2
    grind
  have hglobals : b.globals.count x = 0 := by
    refine List.count_eq_zero.2 fun hm => ?_
    have := h.globals x hm
    grind
  rw [held, hglobals, hnodes]

/-- A node that holds free nodes may be added, and is free itself. -/
theorem Good.push (h : M.Good b l) {s : Shape Symbol NodeId} (span : Span) (hs : s.Spelled)
    (hr : ∀ c ∈ s.required, c ≠ 0) (hl : ∀ x, x ≠ 0 → s.slots.count x + F.count x ≤ l.count x)
    (hF : 0 ∉ F) : M.Good (b.push s span).2 ((b.size + 1) :: F) := by
  have hsize : (b.push s span).2.size = b.size + 1 := by simp [Builder.push, Arena.size]
  have hfree : ∀ x, 0 < s.slots.count x + F.count x → x ≠ 0 → 0 < x ∧ x ≤ b.size := by
    intro x hx h0
    exact h.free x (List.count_pos_iff.1 (Nat.lt_of_lt_of_le hx (hl x h0)))
  have hslots : ∀ c ∈ s.slots, c < b.size + 1 := by
    intro c hc
    have := List.count_pos_iff.2 hc
    grind
  have hnode := node?_push b s span
  refine ⟨⟨?_, ?_, ?_, h.named, ?_, h.span⟩, ?_, ?_⟩
  · intro k n hn
    rw [hnode] at hn
    split at hn
    · cases hn
      exact hs
    · exact h.spelled hn
  · intro k n hn
    rw [hnode] at hn
    split at hn
    · cases hn
      exact hr
    · exact h.present hn
  · intro k n hn
    rw [hnode] at hn
    split at hn
    · next hk =>
      cases hn
      rw [hk]
      exact hslots
    · exact h.below hn
  · intro g hg
    have := h.globals g hg
    grind
  · intro x hx
    rcases List.mem_cons.1 hx with rfl | hx
    · grind
    · have := List.count_pos_iff.2 hx
      grind
  · intro hc x h0
    rw [held_push, List.count_cons]
    have := hl x h0
    have := h.once hc x h0
    by_cases hx : x = b.size + 1
    · have hheld : b.held x = 0 := held_eq_zero h.toFit (by grind)
      have hnone : s.slots.count x + F.count x = 0 := by grind
      grind
    · grind

/-- A global is held by the module. -/
theorem Good.addGlobal {id : NodeId} (h : M.Good b (id :: F)) :
    M.Good { b with globals := b.globals ++ [id] } F := by
  refine ⟨⟨h.spelled, h.present, h.below, h.named, ?_, h.span⟩, ?_, ?_⟩
  · intro g hg
    rcases List.mem_append.1 hg with hg | hg
    · exact h.globals g hg
    · exact h.free g (by simp_all)
  · exact fun x hx => h.free x (by simp [hx])
  · intro hc x hx
    have := h.once hc x hx
    simp only [held, List.count_append, List.count_cons, List.count_nil] at this ⊢
    omega

theorem Grows.push (b : Builder) {s : Shape Symbol NodeId} (span : Span)
    (hs : M.Allows (b.push s span).2 s) : M.Grows b (b.push s span).2 where
  toExtends := extends_push b s span
  allowed {k n} hk hn := by
    rw [node?_push] at hn
    split at hn
    · cases hn
      exact hs
    · have := Arena.range_of_node? hn
      grind
  globals _ := rfl

/-- What a step of a builder uses up and what it gives. -/
def Makes (M : Mode) (step : Build α) (uses : List NodeId) (gives : α → List NodeId) : Prop :=
  ∀ b F, M.Good b (uses ++ F) → ∃ a b', step b = .ok a b' ∧ M.Good b' (gives a ++ F) ∧ M.Grows b b'

namespace Makes

variable {uses U : List NodeId} {gives : α → List NodeId} {next : β → List NodeId}

theorem pure (a : α) (h : ∀ x, (gives a).count x ≤ uses.count x) :
    M.Makes (pure a) uses gives := by
  intro b F hb
  refine ⟨a, b, rfl, hb.weaken ?_, .refl b⟩
  intro x
  have := h x
  simp only [List.count_append]
  omega

/-- The answer of the first step is free for the second. -/
theorem bind {step : Build α} {then_ : α → Build β} (h : M.Makes step uses gives)
    (hn : ∀ a, M.Makes (then_ a) (gives a ++ U) next) :
    M.Makes (step >>= then_) (uses ++ U) next := by
  intro b F hb
  obtain ⟨a, b₁, hs, hb₁, hg₁⟩ := h b (U ++ F) (by simpa using hb)
  obtain ⟨c, b₂, ht, hb₂, hg₂⟩ := hn a b₁ F (by simpa using hb₁)
  refine ⟨c, b₂, ?_, hb₂, hg₁.trans hg₂⟩
  simp only [Bind.bind, EStateM.bind, hs, ht]

theorem weaken {step : Build α} {uses' : List NodeId} {gives' : α → List NodeId}
    (h : M.Makes step uses gives) (hu : ∀ x, uses.count x ≤ uses'.count x)
    (hg : ∀ a x, (gives' a).count x ≤ (gives a).count x) : M.Makes step uses' gives' := by
  intro b F hb
  obtain ⟨a, b', hs, hb', hgrow⟩ := h b F (hb.weaken fun x => by
    have := hu x
    simp only [List.count_append]
    omega)
  refine ⟨a, b', hs, hb'.weaken fun x => ?_, hgrow⟩
  have := hg a x
  simp only [List.count_append]
  omega

/-- The second step uses what the first one gives. -/
theorem chain {step : Build α} {then_ : α → Build β} (h : M.Makes step uses gives)
    (hn : ∀ a, M.Makes (then_ a) (gives a) next) : M.Makes (step >>= then_) uses next := by
  rw [← List.append_nil uses]
  refine bind h fun a => ?_
  rw [List.append_nil]
  exact hn a

/-- A step that uses nothing comes first. -/
theorem first {step : Build α} {then_ : α → Build β} (h : M.Makes step [] gives)
    (hn : ∀ a, M.Makes (then_ a) (gives a ++ uses) next) : M.Makes (step >>= then_) uses next :=
  bind (U := uses) h hn

/-- The same step for each of a list. -/
theorem mapM {ι : Type} {step : ι → Build α} {xs : List ι} {u : ι → List NodeId}
    {g : α → List NodeId} (h : ∀ x ∈ xs, M.Makes (step x) (u x) g) :
    M.Makes (xs.mapM step) (xs.flatMap u) fun as => as.flatMap g := by
  induction xs with
  | nil => exact pure [] fun _ => Nat.le_refl _
  | cons x xs ih =>
    rw [List.mapM_cons, List.flatMap_cons]
    refine bind (h x (by simp)) fun a => ?_
    refine (bind (U := g a) (ih fun y hy => h y (by simp [hy])) fun as => ?_).weaken ?_
      fun _ _ => Nat.le_refl _
    · refine pure (a :: as) fun x => ?_
      simp only [List.flatMap_cons, List.count_append]
      omega
    · intro x
      simp only [List.count_append]
      omega

theorem symbol {n : String} (h : n ≠ "") : M.Makes (Build.symbol n) [] fun _ => [] := by
  intro b F hb
  refine ⟨(b.register n).1, (b.register n).2, rfl, ?_, ?_⟩
  · exact hb.renamed (SymbolTable.empty_not_mem_register hb.named h)
  · exact .of_nodes ⟨⟨#[], by simp [register]⟩, b.symbols.register_extends n, rfl, rfl⟩ rfl fun _ =>
      rfl

theorem freshSymbol (hint : String) : M.Makes (Build.freshSymbol hint) [] fun _ => [] := by
  intro b F hb
  obtain ⟨a, b', hs, hg, hgrow⟩ := symbol (b.symbols.freshName_hint_ne_empty hint) b F hb
  exact ⟨a, b', hs, hg, hgrow⟩

theorem addGlobal (hc : ¬ M.closed) (id : NodeId) :
    M.Makes (Build.addGlobal id) [id] fun _ => [] := by
  intro b F hb
  refine ⟨(), { b with globals := b.globals ++ [id] }, rfl, hb.addGlobal, ?_⟩
  exact .of_nodes ⟨⟨#[], by simp⟩, ⟨#[], by simp⟩, rfl, rfl⟩ rfl fun h => absurd h hc

end Makes

/-- What a step uses up to make a new node in a builder. -/
def YieldsAt (M : Mode) (b : Builder) (step : Build NodeId) (uses : List NodeId) : Prop :=
  ∀ F, M.Good b (uses ++ F) → ∃ j b', step b = .ok j b' ∧ M.Good b' (j :: F) ∧
    M.Grows b b' ∧ b.size < j

/-- The same in every builder. -/
def Yields (M : Mode) (step : Build NodeId) (uses : List NodeId) : Prop :=
  ∀ b, M.YieldsAt b step uses

namespace YieldsAt

variable {uses U : List NodeId} {shape : Shape Symbol NodeId} {span : Span}

theorem push (hs : shape.Spelled) (hr : ∀ c ∈ shape.required, c ∈ uses)
    (hu : ∀ x, x ≠ 0 → shape.slots.count x ≤ uses.count x)
    (ha : M.Allows (b.push shape span).2 shape) : M.YieldsAt b (Build.push shape span) uses := by
  intro F hb
  refine ⟨b.size + 1, (b.push shape span).2, rfl, hb.push (F := F) span hs ?_ ?_ ?_,
    .push b span ha, Nat.lt_succ_self _⟩
  · intro c hc
    exact Nat.ne_of_gt (hb.free c (List.mem_append_left F (hr c hc))).1
  · intro x hx
    have := hu x hx
    simp only [List.count_append]
    omega
  · intro h0
    exact Nat.lt_irrefl 0 (hb.free 0 (List.mem_append_right uses h0)).1

/-- The new node of the first step is free for the second. -/
theorem bind {step : Build NodeId} {then_ : NodeId → Build NodeId} (h : M.YieldsAt b step uses)
    (hn : ∀ j b', step b = .ok j b' → M.YieldsAt b' (then_ j) (j :: U)) :
    M.YieldsAt b (step >>= then_) (uses ++ U) := by
  intro F hb
  obtain ⟨j, b₁, hs, hb₁, hg₁, _⟩ := h (U ++ F) (by simpa using hb)
  obtain ⟨k, b₂, ht, hb₂, hg₂, hlt⟩ := hn j b₁ hs F (by simpa using hb₁)
  refine ⟨k, b₂, ?_, hb₂, hg₁.trans hg₂, Nat.lt_of_le_of_lt hg₁.size_le hlt⟩
  simp only [Bind.bind, EStateM.bind, hs, ht]

end YieldsAt

namespace Yields

variable {uses U : List NodeId} {gives : α → List NodeId}
    {shape : Shape Symbol NodeId} {span : Span}

theorem makes {step : Build NodeId} (h : M.Yields step uses) :
    M.Makes step uses fun id => [id] := by
  intro b F hb
  obtain ⟨j, b', hs, hg, hgrow, _⟩ := h b F hb
  exact ⟨j, b', hs, hg, hgrow⟩

/-- The answer of the first step is free for the one that makes the node. -/
theorem bind {step : Build α} {then_ : α → Build NodeId} (h : M.Makes step uses gives)
    (hn : ∀ a, M.Yields (then_ a) (gives a ++ U)) : M.Yields (step >>= then_) (uses ++ U) := by
  intro b F hb
  obtain ⟨a, b₁, hs, hb₁, hg₁⟩ := h b (U ++ F) (by simpa using hb)
  obtain ⟨j, b₂, ht, hb₂, hg₂, hlt⟩ := hn a b₁ F (by simpa using hb₁)
  refine ⟨j, b₂, ?_, hb₂, hg₁.trans hg₂, Nat.lt_of_le_of_lt hg₁.size_le hlt⟩
  simp only [Bind.bind, EStateM.bind, hs, ht]

theorem weaken {step : Build NodeId} {uses' : List NodeId} (h : M.Yields step uses)
    (hu : ∀ x, uses.count x ≤ uses'.count x) : M.Yields step uses' := by
  intro b F hb
  refine h b F (hb.weaken fun x => ?_)
  have := hu x
  simp only [List.count_append]
  omega

theorem chain {step : Build α} {then_ : α → Build NodeId} (h : M.Makes step uses gives)
    (hn : ∀ a, M.Yields (then_ a) (gives a)) : M.Yields (step >>= then_) uses := by
  rw [← List.append_nil uses]
  refine bind h fun a => ?_
  rw [List.append_nil]
  exact hn a

theorem first {step : Build α} {then_ : α → Build NodeId} (h : M.Makes step [] gives)
    (hn : ∀ a, M.Yields (then_ a) (gives a ++ uses)) : M.Yields (step >>= then_) uses :=
  bind (U := uses) h hn

theorem push (hs : shape.Spelled) (hr : ∀ c ∈ shape.required, c ∈ uses)
    (hu : ∀ x, x ≠ 0 → shape.slots.count x ≤ uses.count x) (ha : ∀ b : Builder, M.Allows b shape) :
    M.Yields (Build.push shape span) uses :=
  fun _ => .push hs hr hu (ha _)

/-- Nothing is asked of the children of most shapes. -/
theorem push' (hs : shape.Spelled) (hr : ∀ c ∈ shape.required, c ∈ uses)
    (hu : ∀ x, x ≠ 0 → shape.slots.count x ≤ uses.count x) (hd : ∀ a : Arena, a.Documented shape)
    (he : shape ≠ .type .externalTexture) (ha : M.worded → shape.Accessible) :
    M.Yields (Build.push shape span) uses :=
  push hs hr hu fun b => ⟨fun _ => hd b.toArena, fun _ => he, ha⟩

theorem type {t : TypeShape Symbol NodeId} (hs : (Shape.type t).Spelled)
    (ht : t ≠ .externalTexture) (hu : (Shape.type t).slots = uses) :
    M.Yields (Build.type t) uses :=
  push' hs (by simp [Shape.required, hu]) (by simp [hu]) (fun _ => trivial) (by simpa using ht)
    fun _ => trivial

theorem expr {e : ExprShape Symbol NodeId} (hs : (Shape.expr e).Spelled)
    (hu : (Shape.expr e).slots = uses) : M.Yields (Build.expr e) uses :=
  push' hs (by simp [Shape.required, hu]) (by simp [hu]) (fun _ => trivial) (by simp) fun _ =>
    trivial

theorem attr {a : AttrShape NodeId} (hs : (Shape.attr a : Shape Symbol NodeId).Spelled)
    (hu : (Shape.attr a : Shape Symbol NodeId).slots = []) :
    M.Yields (Build.attr a) [] := by
  refine push' hs (fun c hc => ?_) (by simp [hu]) (fun _ => trivial) (by simp) fun _ => trivial
  rw [← hu]
  exact Shape.required_subset _ c hc

theorem identSym (s : Symbol) : M.Yields (Build.identSym s) [] :=
  expr trivial rfl

end Yields

namespace Makes

theorem operand {o : Operand} (h : o.Known) : M.Makes (Build.operand o) o.uses fun id => [id] := by
  cases o with
  | node id => exact pure id fun _ => Nat.le_refl _
  | name text => exact (Yields.first (symbol h) fun s => .identSym s).makes
  | symbol s => exact (Yields.identSym s).makes
  | unsupported => exact h.elim
  | int _ | i32 _ | u32 _ | float _ | bool _ =>
    refine Yields.makes (.expr ?_ rfl)
    trivial

theorem operands {os : List Operand} (h : ∀ o ∈ os, o.Known) :
    M.Makes (Build.operands os) (os.flatMap Operand.uses) fun ids => ids := by
  refine (mapM fun o ho => operand (h o ho)).weaken (fun _ => Nat.le_refl _) fun ids x => ?_
  simp

end Makes

namespace Yields

variable {uses : List NodeId}

theorem binary {b : BinaryOp} {x y : Operand} (hb : b ∈ BinaryOp.declared) (hx : x.Known)
    (hy : y.Known) : M.Yields (Build.binary b x y) (x.uses ++ y.uses) := by
  refine bind (.operand hx) fun l => ?_
  refine (bind (U := [l]) (.operand hy) fun r => ?_).weaken ?_
  · refine (expr (e := .binary b l r) hb rfl).weaken ?_
    intro x
    simp only [Shape.slots, List.count_append, List.count_cons, List.count_nil]
    omega
  · intro x
    simp only [List.count_append]
    omega

theorem unary {op : UnaryOp} {e : Operand} (ho : op ∈ UnaryOp.declared) (he : e.Known) :
    M.Yields (Build.unary op e) e.uses := by
  exact chain (.operand he) fun l => expr (e := .unary op l) ho rfl

theorem memberSym {o : Operand} (ho : o.Known) (s : Symbol) :
    M.Yields (Build.memberSym o s) o.uses := by
  exact chain (.operand ho) fun i => expr (e := .member i s) trivial rfl

theorem member {o : Operand} (ho : o.Known) {name : String} (hn : name ≠ "") :
    M.Yields (Build.member o name) o.uses := by
  exact chain (.operand ho) fun i => first (.symbol hn) fun s => expr (e := .member i s) trivial rfl

theorem construct {t : NodeId} {a : List Operand} (ha : ∀ o ∈ a, o.Known) :
    M.Yields (Build.construct t a) (t :: a.flatMap Operand.uses) := by
  refine (bind (U := [t]) (.operands ha) fun as => ?_).weaken (by simp [List.count_cons])
  exact (expr (e := .call t as) trivial rfl).weaken (by simp [Shape.slots, List.count_cons])

theorem callSym {a : List Operand} (s : Symbol) (ha : ∀ o ∈ a, o.Known) :
    M.Yields (Build.callSym s a) (a.flatMap Operand.uses) :=
  first (identSym s).makes fun _ => construct ha

theorem call {name : String} {a : List Operand} (hn : name ≠ "") (ha : ∀ o ∈ a, o.Known) :
    M.Yields (Build.call name a) (a.flatMap Operand.uses) :=
  first (.symbol hn) fun s => callSym s ha

theorem block (ss : List NodeId) : M.Yields (Build.block ss) ss :=
  push' trivial (by simp [Shape.required, Shape.slots]) (by simp [Shape.slots])
    (fun _ => trivial) (by simp)
    fun _ => trivial

theorem declare (v : NodeId) : M.Yields (Build.declare v) [v] :=
  push' trivial (by simp [Shape.required, Shape.slots]) (by simp [Shape.slots])
    (fun _ => trivial) (by simp)
    fun _ => trivial

theorem returnValue {v : Operand} (hv : v.Known) : M.Yields (Build.returnValue v) v.uses := by
  refine chain (.operand hv) fun o => ?_
  exact push' trivial (by simp [Shape.required]) (by simp [Shape.slots])
    (fun _ => trivial) (by simp)
    fun _ => trivial

/-- An absent type or initializer uses nothing. -/
theorem variableSym {kind : VariableKind} (hk : kind.Spelled) (ha : M.worded → kind.Accessible)
    (s : Symbol) {type init : NodeId} {attributes : List NodeId} (hr : ∀ c ∈ attributes, c ∈ uses)
    (hu : ∀ x, x ≠ 0 → (attributes ++ [type, init]).count x ≤ uses.count x) :
    M.Yields (Build.variableSym kind s type init attributes) uses :=
  push' hk hr hu (fun _ => trivial) (by simp) ha

/-- A variable with nothing but a type. -/
theorem typed {k : VariableKind} (hk : k.Spelled) (ha : k.Accessible) (s : Symbol) (type : NodeId) :
    M.Yields (Build.variableSym k s type 0 []) [type] :=
  variableSym hk (fun _ => ha) s (by simp) (by simp [List.count_cons]; grind)

/-- A variable with nothing but an initializer. -/
theorem initialized {k : VariableKind} (hk : k.Spelled) (ha : k.Accessible) (s : Symbol)
    (init : NodeId) : M.Yields (Build.variableSym k s 0 init []) [init] :=
  variableSym hk (fun _ => ha) s (by simp) (by simp [List.count_cons]; grind)

theorem structMember {name : String} (hn : name ≠ "") (type : NodeId) :
    M.Yields (Build.structMember name type []) [type] := by
  refine first (.symbol hn) fun s => ?_
  exact push' trivial (by simp [Shape.required, Shape.slots]) (by simp [Shape.slots])
    (fun _ => trivial) (by simp) fun _ => trivial

theorem texture2d : M.Yields Build.texture2d [] := by
  refine chain (type (t := .f32) trivial (by simp) rfl).makes fun e => ?_
  exact type (t := .sampledTexture .d2 e) (by simp [Shape.Spelled, TextureDim.declared]) (by simp)
    rfl

end Yields

theorem isBlock_block {ss : List NodeId} {b b' : Builder} {j : NodeId}
    (h : Build.block ss b = .ok j b') : b'.isBlock j := by
  cases h
  simp [Arena.isBlock, Arena.block?, Arena.shape?, Arena.size, Shape.block?]

/-- A node over a new block. -/
theorem YieldsAt.overBlock {uses : List NodeId} (ss : List NodeId)
    (shape : NodeId → Shape Symbol NodeId) (hs : ∀ body, (shape body).Spelled)
    (hr : ∀ body, ∀ c ∈ (shape body).required, c ∈ body :: uses)
    (hu : ∀ body x, x ≠ 0 → (shape body).slots.count x ≤ (body :: uses).count x)
    (hd : ∀ (a : Builder) body, b.Extends a → a.isBlock body → M.tidy → a.Documented (shape body))
    (he : ∀ body, shape body ≠ .type .externalTexture) (ha : ∀ body, (shape body).Accessible) :
    M.YieldsAt b (Build.block ss >>= fun body => Build.push (shape body)) (ss ++ uses) := by
  refine .bind (Yields.block ss b) fun body b₁ hb₁ => ?_
  have hext : b.Extends b₁ := by
    cases hb₁
    exact extends_push b _ _
  refine .push (hs body) (hr body) (hu body) ⟨fun ht => ?_, fun _ => he body, fun _ => ha body⟩
  exact hd _ body (hext.trans (extends_push b₁ _ _))
    ((extends_push b₁ _ _).isBlock (isBlock_block hb₁)) ht

namespace Yields

variable {uses : List NodeId}

theorem overBlock (ss : List NodeId) {shape : NodeId → Shape Symbol NodeId}
    (hs : ∀ body, (shape body).Spelled) (hr : ∀ body, ∀ c ∈ (shape body).required, c ∈ body :: uses)
    (hu : ∀ body x, x ≠ 0 → (shape body).slots.count x ≤ (body :: uses).count x)
    (hd : ∀ (a : Arena) body, a.isBlock body → a.Documented (shape body))
    (he : ∀ body, shape body ≠ .type .externalTexture) (ha : ∀ body, (shape body).Accessible) :
    M.Yields (Build.block ss >>= fun body => Build.push (shape body)) (ss ++ uses) :=
  fun _ => .overBlock ss shape hs hr hu (fun a body _ h _ => hd a.toArena body h) he ha

/-- A conditional statement without an alternative, over a new block. -/
theorem ifThen (test : NodeId) (statements : List NodeId) :
    M.Yields (Build.block statements >>= fun body => Build.push (.stmt (.ifElse test body 0)))
      (statements ++ [test]) := by
  refine overBlock statements (fun _ => trivial) ?_ ?_ (fun _ _ h => ⟨h, .inl rfl⟩) (by simp)
    fun _ => trivial
  · simp only [Shape.required]
    grind
  · intro body x hx
    simp only [Shape.slots, List.count_cons, List.count_nil]
    grind

end Yields

namespace Makes

variable {uses : List NodeId}

theorem global {make : Build NodeId} (hc : ¬ M.closed) (h : M.Yields make uses) :
    M.Makes (Build.global make) uses fun _ => [] :=
  chain h.makes fun id => chain (addGlobal hc id) fun _ => pure id fun _ => Nat.le_refl _

theorem globalVarSym (hc : ¬ M.closed) {space : AddressSpace} (hs : space ∈ AddressSpace.declared)
    (s : Symbol) (type : NodeId) (attributes : List NodeId) :
    M.Makes (Build.globalVarSym s type space attributes) (type :: attributes) fun _ => [] := by
  have hk : (VariableKind.var space .undefined).Spelled := hs
  have ha : (VariableKind.var space .undefined).Accessible := List.mem_cons_self ..
  refine global hc
    (.variableSym hk (fun _ => ha) s (fun c hc => List.mem_cons_of_mem _ hc) fun x hx => ?_)
  simp only [List.count_append, List.count_cons, List.count_nil]
  grind

theorem structSym (hc : ¬ M.closed) (s : Symbol) (members : List NodeId) :
    M.Makes (Build.structSym s members) members fun _ => [] := by
  refine global hc ?_
  exact .push' trivial (by simp [Shape.required, Shape.slots]) (by simp [Shape.slots])
    (fun _ => trivial) (by simp) fun _ => trivial

theorem functionSym (hc : ¬ M.closed) (s : Symbol) (params : List NodeId) (returnType : NodeId)
    (statements : List NodeId) :
    M.Makes (Build.functionSym s params returnType [] statements [])
      (statements ++ (returnType :: params)) fun _ => [] := by
  refine global hc (.overBlock statements (fun _ => trivial) ?_ ?_ (fun _ _ h => h) (by simp)
    fun _ => trivial)
  · simp only [Shape.required]
    grind
  · intro body x _
    simp only [Shape.slots, List.count_append, List.count_cons, List.count_nil]
    omega

end Makes
end Builder.Mode
end ShaderLoom
