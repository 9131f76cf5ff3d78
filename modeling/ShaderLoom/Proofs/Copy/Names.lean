import ShaderLoom.Proofs.Copy.Register

/-! The names in nodes. A program is spelled out if every symbol in its nodes is in its table and
every node stands at a valid place or at none. Steps keep that as long as the symbols that are
handed to them are in the table; since tables only grow, a symbol that is in the table once stays in
it. -/
namespace ShaderLoom

namespace SymbolTable

/-- The table holds the symbol. -/
def Has (t : SymbolTable) (s : Symbol) : Prop := ∃ x, t.Names s x

/-- The second table holds the names of the first one, and more behind them. -/
def Le (t u : SymbolTable) : Prop := ∃ more, u.names = t.names ++ more

variable {t u v : SymbolTable} {s : Symbol}

theorem Le.refl (t : SymbolTable) : t.Le t := ⟨#[], by simp⟩

theorem Le.trans (h : t.Le u) (h' : u.Le v) : t.Le v := by
  obtain ⟨xs, hx⟩ := h
  obtain ⟨ys, hy⟩ := h'
  exact ⟨xs ++ ys, by rw [hy, hx, Array.append_assoc]⟩

theorem Has.later (h : t.Has s) (hle : t.Le u) : u.Has s := by
  obtain ⟨x, hx⟩ := h
  exact ⟨x, hx.extend hle⟩

theorem has_register (t : SymbolTable) (name : String) :
    (t.register name).2.Has (t.register name).1 :=
  ⟨name, t.names_of_register name⟩

theorem has_fresh (t : SymbolTable) (hint : String) : (t.fresh hint).2.Has (t.fresh hint).1 :=
  t.has_register _

end SymbolTable

/-- A node that stands at a valid place or at none. -/
def Node.Placed (n : Node) : Prop := n.span.valid = true ∨ n.span = {}

namespace Arena

/-- Every symbol in a node is in the table, and every node stands at a valid place or at none. -/
structure SpelledOut (a : Arena) : Prop where
  known : ∀ {k n}, a.node? k = some n → ∀ s ∈ n.shape.names, a.symbols.Has s
  placed : ∀ {k n}, a.node? k = some n → n.Placed

end Arena

/-- States with a table of names, and what is kept of them. -/
structure Naming (σ : Type) where
  table : σ → SymbolTable
  fit : σ → Prop

namespace Naming

variable {σ ε ι α β : Type} {N : Naming σ} {t u : SymbolTable}

/-- If the table holds what `t` holds, the step keeps the state fit and forgets no name, and its
answer satisfies `Q` with the table after it. -/
def Says (N : Naming σ) (step : EStateM ε σ α) (t : SymbolTable) (Q : SymbolTable → α → Prop) :
    Prop :=
  ∀ w : σ × (NodeId → NodeId), N.fit w.1 → t.Le (N.table w.1) →
    Runs step w (fun _ => True) fun a w' =>
    N.fit w'.1 ∧ (N.table w.1).Le (N.table w'.1) ∧ Q (N.table w'.1) a

namespace Says

variable {Q : SymbolTable → α → Prop}

theorem later {step : EStateM ε σ α} (h : N.Says step t Q) (hle : t.Le u) : N.Says step u Q :=
  fun w hw ht => h w hw (hle.trans ht)

theorem pure {a : α} (h : ∀ u, t.Le u → Q u a) : N.Says (pure a : EStateM ε σ α) t Q :=
  fun w hw ht => Runs.pure w.2 ⟨hw, .refl _, h _ ht⟩

theorem throw {e : ε} : N.Says (throw e : EStateM ε σ α) t Q := fun _ _ _ => Runs.throw trivial

theorem bind {step : EStateM ε σ β} {next : β → EStateM ε σ α} {P : SymbolTable → β → Prop}
    (h : N.Says step t P) (hn : ∀ b u, t.Le u → P u b → N.Says (next b) u Q) :
    N.Says (step >>= next) t Q := by
  intro w hw ht
  refine Runs.bind ((h w hw ht).mono fun b w₁ hr => ?_)
  obtain ⟨h₁, hle₁, hb⟩ := hr
  refine (hn b _ (ht.trans hle₁) hb w₁ h₁ (.refl _)).mono fun a w₂ hr => ?_
  obtain ⟨h₂, hle₂, ha⟩ := hr
  exact ⟨h₂, hle₁.trans hle₂, ha⟩

theorem get : N.Says (get : EStateM ε σ σ) t fun u s => N.fit s ∧ N.table s = u :=
  fun _ hw _ => Runs.get ⟨hw, .refl _, hw, rfl⟩

theorem modify {f : σ → σ}
    (h : ∀ s, N.fit s → t.Le (N.table s) → N.fit (f s) ∧ (N.table s).Le (N.table (f s))) :
    N.Says (modify f : EStateM ε σ PUnit) t fun _ _ => True := by
  intro w hw ht
  obtain ⟨hf, hle⟩ := h w.1 hw ht
  exact Runs.modify w.2 ⟨hf, hle, trivial⟩

/-- A loop that never breaks off. -/
theorem forIn {body : ι → PUnit → EStateM ε σ (ForInStep PUnit)} {xs : List ι}
    (h : ∀ x ∈ xs, ∀ u, t.Le u → N.Says (body x ⟨⟩) u fun _ r => r = .yield ⟨⟩) :
    N.Says (forIn xs PUnit.unit body) t fun _ _ => True := by
  intro w hw ht
  refine Runs.forIn (fun _ w' => N.fit w'.1 ∧ (N.table w.1).Le (N.table w'.1)) ⟨hw, .refl _⟩
    (fun x _ w₁ hx h₁ => ?_) fun w' h' => ⟨h'.1, h'.2, trivial⟩
  refine (h x hx _ (ht.trans h₁.2) w₁ h₁.1 (.refl _)).mono fun r w₂ hr => ?_
  obtain ⟨h₂, hle, hy⟩ := hr
  exact ⟨hy, h₂, h₁.2.trans hle⟩

/-- One turn of such a loop. -/
theorem yield {step : EStateM ε σ PUnit} {P : SymbolTable → PUnit → Prop} (h : N.Says step t P) :
    N.Says (do step; Pure.pure (ForInStep.yield PUnit.unit)) t fun _ r => r = .yield ⟨⟩ :=
  h.bind fun _ _ _ _ => .pure fun _ _ => rfl

/-- A step with nothing to do after it. -/
theorem done {step : EStateM ε σ β} {f : β → α} {P : SymbolTable → β → Prop} (h : N.Says step t P) :
    N.Says (do let b ← step; Pure.pure (f b)) t fun _ _ => True :=
  h.bind fun _ _ _ _ => .pure fun _ _ => trivial

theorem mapM {step : ι → EStateM ε σ α} {xs : List ι}
    (h : ∀ x ∈ xs, ∀ u, t.Le u → N.Says (step x) u fun _ _ => True) :
    N.Says (xs.mapM step) t fun _ _ => True := by
  induction xs generalizing t with
  | nil =>
    rw [List.mapM_nil]
    exact .pure fun _ _ => trivial
  | cons x xs ih =>
    rw [List.mapM_cons]
    refine (h x (by simp) t (.refl t)).bind fun _ u hu _ => ?_
    exact (ih fun y hy v hv => h y (by simp [hy]) v (hu.trans hv)).bind fun _ _ _ _ =>
      .pure fun _ _ => trivial

theorem foldlM {step : β → ι → EStateM ε σ β} {xs : List ι} {b : β}
    (h : ∀ b, ∀ x ∈ xs, ∀ u, t.Le u → N.Says (step b x) u fun _ _ => True) :
    N.Says (xs.foldlM step b) t fun _ _ => True := by
  induction xs generalizing t b with
  | nil => exact .pure fun _ _ => trivial
  | cons x xs ih =>
    rw [List.foldlM_cons]
    refine (h b x (by simp) t (.refl t)).bind fun _ u hu _ => ?_
    exact ih fun b y hy v hv => h b y (by simp [hy]) v (hu.trans hv)

end Says
end Naming

namespace Builder

/-- A builder whose nodes are spelled out, and stay so as it has no place of its own. -/
structure SpelledOut (b : Builder) : Prop extends Arena.SpelledOut b.toArena where
  span : b.span = {}

def naming : Naming Builder := ⟨(·.symbols), SpelledOut⟩

/-- More names do no harm. -/
theorem SpelledOut.renamed {b : Builder} (h : b.SpelledOut) {t : SymbolTable}
    (ht : b.symbols.Le t) : SpelledOut { b with symbols := t } where
  known hn s hs := (h.known hn s hs).later ht
  placed hn := h.placed hn
  span := h.span

theorem SpelledOut.push {b : Builder} (h : b.SpelledOut) {s : Shape Symbol NodeId} (span : Span)
    (hs : ∀ x ∈ s.names, b.symbols.Has x) : (b.push s span).2.SpelledOut where
  known {k n} hn x hx := by
    rw [Mode.node?_push] at hn
    split at hn
    · cases hn
      exact hs x hx
    · exact h.known hn x hx
  placed {k n} hn := by
    rw [Mode.node?_push] at hn
    split at hn
    · cases hn
      by_cases hv : span.valid = true
      · exact .inl (by simp [hv])
      · exact .inr (by simp [hv, h.span])
    · exact h.placed hn
  span := h.span

theorem SpelledOut.build {b : Builder} (h : b.SpelledOut) : b.build.toArena.SpelledOut where
  known {k n} hn x hx := by
    rw [node?_build] at hn
    split at hn
    · cases hn
      simp [Shape.names] at hx
    · exact h.known hn x hx
  placed {k n} hn := by
    rw [node?_build] at hn
    split at hn
    · cases hn
      exact .inr h.span
    · exact h.placed hn

end Builder

namespace Operand

/-- The symbol of the operand is in the table. -/
def Spoken (t : SymbolTable) : Operand → Prop
  | .symbol s => t.Has s
  | _ => True

theorem Spoken.later {t u : SymbolTable} {o : Operand} (h : o.Spoken t) (hle : t.Le u) :
    o.Spoken u := by
  cases o with
  | symbol s => exact SymbolTable.Has.later h hle
  | _ => trivial

end Operand

namespace Build

open Builder (naming)

variable {t : SymbolTable} {s : Symbol}

theorem says_push {shape : Shape Symbol NodeId} (span : Span) (h : ∀ x ∈ shape.names, t.Has x) :
    naming.Says (push shape span) t fun _ _ => True :=
  fun w hw ht => Runs.modifyGet w.2 ⟨hw.push span fun x hx => (h x hx).later ht, .refl _, trivial⟩

theorem says_symbol (name : String) : naming.Says (symbol name) t fun u s => u.Has s :=
  fun w hw _ => Runs.modifyGet w.2
    ⟨hw.renamed (SymbolTable.register_extends _ _), SymbolTable.register_extends _ _,
      SymbolTable.has_register _ _⟩

theorem says_freshSymbol (hint : String) : naming.Says (freshSymbol hint) t fun u s => u.Has s :=
  fun w hw _ => Runs.modifyGet w.2
    ⟨hw.renamed (SymbolTable.register_extends _ _), SymbolTable.register_extends _ _,
      SymbolTable.has_fresh _ _⟩

theorem says_addGlobal (id : NodeId) : naming.Says (addGlobal id) t fun _ _ => True :=
  .modify fun _ h _ => ⟨⟨⟨h.known, h.placed⟩, h.span⟩, .refl _⟩

theorem says_type {x : TypeShape Symbol NodeId} (h : ∀ s ∈ (Shape.type x).names, t.Has s) :
    naming.Says (type x) t fun _ _ => True :=
  says_push _ h

theorem says_named (h : t.Has s) : naming.Says (type (.named s)) t fun _ _ => True :=
  says_type (by simpa [Shape.names] using h)

theorem says_attr (a : AttrShape NodeId) : naming.Says (attr a) t fun _ _ => True :=
  says_push _ (by simp [Shape.names])

theorem says_stmt (x : StmtShape NodeId) : naming.Says (stmt x) t fun _ _ => True :=
  says_push _ (by simp [Shape.names])

theorem says_identSym (h : t.Has s) : naming.Says (identSym s) t fun _ _ => True :=
  says_push _ (by simpa [Shape.names] using h)

theorem says_operand {o : Operand} (h : o.Spoken t) :
    naming.Says (operand o) t fun _ _ => True := by
  cases o with
  | node id => exact .pure fun _ _ => trivial
  | name text => exact (says_symbol text).bind fun s u _ hs => says_identSym hs
  | symbol s => exact says_identSym h
  | unsupported => exact .throw
  | _ => exact says_push _ (by simp [Shape.names])

theorem says_operands {os : List Operand} (h : ∀ o ∈ os, o.Spoken t) :
    naming.Says (operands os) t fun _ _ => True :=
  .mapM fun o ho _ hu => says_operand ((h o ho).later hu)

theorem says_binary {x y : Operand} (op : BinaryOp) (hx : x.Spoken t) (hy : y.Spoken t) :
    naming.Says (binary op x y) t fun _ _ => True :=
  (says_operand hx).bind fun _ _ hu _ => (says_operand (hy.later hu)).bind fun _ _ _ _ =>
    says_push _ (by simp [Shape.names])

theorem says_unary {x : Operand} (op : UnaryOp) (hx : x.Spoken t) :
    naming.Says (unary op x) t fun _ _ => True :=
  (says_operand hx).bind fun _ _ _ _ => says_push _ (by simp [Shape.names])

theorem says_callSym {args : List Operand} (h : t.Has s) (ha : ∀ o ∈ args, o.Spoken t) :
    naming.Says (callSym s args) t fun _ _ => True :=
  (says_identSym h).bind fun _ _ hu _ =>
    (says_operands fun o ho => (ha o ho).later hu).bind fun _ _ _ _ =>
    says_push _ (by simp [Shape.names])

theorem says_call {args : List Operand} (name : String) (ha : ∀ o ∈ args, o.Spoken t) :
    naming.Says (call name args) t fun _ _ => True :=
  (says_symbol name).bind fun _ _ hu hs => says_callSym hs fun o ho => (ha o ho).later hu

theorem says_construct {args : List Operand} (id : NodeId) (ha : ∀ o ∈ args, o.Spoken t) :
    naming.Says (construct id args) t fun _ _ => True :=
  (says_operands ha).bind fun _ _ _ _ => says_push _ (by simp [Shape.names])

theorem says_memberSym {x : Operand} (hx : x.Spoken t) (h : t.Has s) :
    naming.Says (memberSym x s) t fun _ _ => True :=
  (says_operand hx).bind fun _ _ hu _ => says_push _ (by simpa [Shape.names] using h.later hu)

theorem says_member {x : Operand} (hx : x.Spoken t) (name : String) :
    naming.Says (member x name) t fun _ _ => True :=
  (says_operand hx).bind fun _ _ _ _ => (says_symbol name).bind fun _ _ _ hs =>
    says_push _ (by simpa [Shape.names] using hs)

theorem says_returnValue {x : Operand} (hx : x.Spoken t) :
    naming.Says (returnValue x) t fun _ _ => True :=
  (says_operand hx).bind fun _ _ _ _ => says_stmt _

theorem says_variableSym (kind : VariableKind) (h : t.Has s) (type init : NodeId)
    (attributes : List NodeId) :
    naming.Says (variableSym kind s type init attributes) t fun _ _ => True :=
  says_push _ (by simpa [Shape.names] using h)

theorem says_global {make : Build NodeId} (h : naming.Says make t fun _ _ => True) :
    naming.Says (global make) t fun _ _ => True :=
  h.bind fun _ _ _ _ => (says_addGlobal _).bind fun _ _ _ _ => .pure fun _ _ => trivial

theorem says_structMember (name : String) (type : NodeId) (attributes : List NodeId) :
    naming.Says (structMember name type attributes) t fun _ _ => True :=
  (says_symbol name).bind fun _ _ _ hs => says_push _ (by simpa [Shape.names] using hs)

theorem says_texture2d : naming.Says texture2d t fun _ _ => True :=
  (says_type (by simp [Shape.names])).bind fun _ _ _ _ => says_type (by simp [Shape.names])

theorem says_structSym (h : t.Has s) (members : List NodeId) :
    naming.Says (structSym s members) t fun _ _ => True :=
  says_global (says_push _ (by simpa [Shape.names] using h))

theorem says_functionSym (h : t.Has s) (params : List NodeId) (type : NodeId)
    (returnAttributes statements attributes : List NodeId) :
    naming.Says (functionSym s params type returnAttributes statements attributes) t fun _ _ =>
      True :=
  says_global ((says_stmt _).bind fun _ _ hu _ =>
    says_push _ (by simpa [Shape.names] using h.later hu))

end Build

namespace Copy

open SymbolTable

/-- What is known of the handlers of a session and of its state: as tables grow, it stays so. -/
structure Voice (κ σ : Type) where
  state : SymbolTable → σ → Prop := fun _ _ => True
  use : SymbolTable → σ → κ → Prop := fun _ _ _ => True
  state_later : ∀ {t u st}, t.Le u → state t st → state u st := by intros; trivial
  use_later : ∀ {t u st h}, t.Le u → use t st h → use u st h := by intros; trivial

/-- The rule answers with symbols of the table, and forgets none. -/
def SymbolRule.Speaks (rule : SymbolRule) (p : Program) : Prop :=
  ∀ s t, p.symbols.Le t → p.symbols.Has s → (rule s t).2.Has (rule s t).1 ∧ t.Le (rule s t).2

variable {κ σ α β : Type} {V : Voice κ σ} {p : Program} {t u : SymbolTable}

/-- A session that copies a program into a target whose names are all in its table. -/
structure Session.SpelledOut (V : Voice κ σ) (p : Program) (s : Session κ σ) : Prop where
  source : s.source = p
  target : s.target.SpelledOut
  names : p.symbols.Le s.target.symbols
  symbols : ∀ x y, s.symbols.lookup x = some y → s.target.symbols.Has y
  rule : ∀ r, s.symbolRule = some r → r.Speaks p
  state : V.state s.target.symbols s.state
  replaced : ∀ i h, s.replacements i = some (.handler h) → V.use s.target.symbols s.state h
  handlers : ∀ x ∈ s.handlers, V.use s.target.symbols s.state x.2

/-- Sessions as states with a table of names. -/
def Voice.naming (V : Voice κ σ) (p : Program) : Naming (Session κ σ) :=
  ⟨(·.target.symbols), Session.SpelledOut V p⟩

theorem Session.SpelledOut.grow {s : Session κ σ} (h : s.SpelledOut V p) {b : Builder}
    (hb : b.SpelledOut) (hle : s.target.symbols.Le b.symbols) :
    Session.SpelledOut V p { s with target := b } where
  source := h.source
  target := hb
  names := h.names.trans hle
  symbols x y hx := (h.symbols x y hx).later hle
  rule := h.rule
  state := V.state_later hle h.state
  replaced i k hk := V.use_later hle (h.replaced i k hk)
  handlers x hx := V.use_later hle (h.handlers x hx)

theorem Session.SpelledOut.start {st : σ} (hst : V.state p.symbols st) :
    (Session.start (κ := κ) p st).SpelledOut V p where
  source := rfl
  target :=
    ⟨⟨fun hn => by simp [Session.start, Arena.node?] at hn, fun hn => by
      simp [Session.start, Arena.node?] at hn⟩, rfl⟩
  names := .refl _
  symbols x y hx := by simp [Session.start] at hx
  rule r hr := by simp [Session.start] at hr
  state := hst
  replaced i k hk := by simp [Session.start] at hk
  handlers x hx := by simp [Session.start] at hx

namespace Edit

theorem says_build {step : Build α} {Q : SymbolTable → α → Prop}
    (h : Builder.naming.Says step t Q) : (V.naming p).Says (build step : Edit κ σ α) t Q := by
  intro w hw ht
  have hrun := h (w.1.target, w.2) hw.target ht
  cases hs : step w.1.target with
  | ok a b =>
    obtain ⟨_, hb, hle, hq⟩ := hrun.ok hs
    exact Runs.of_ok (by simp only [build, hs]) w.2 ⟨hw.grow hb hle, hle, hq⟩
  | error e b => exact Runs.of_error (e := e) (by simp only [build, hs]; rfl) trivial

theorem says_getState : (V.naming p).Says (getState : Edit κ σ σ) t fun u st => V.state u st := by
  refine Naming.Says.get.bind fun _ u _ hs => .pure fun v hv => ?_
  obtain ⟨hs, rfl⟩ := hs
  exact V.state_later hv hs.state

theorem says_source : (V.naming p).Says (source : Edit κ σ Program) t fun _ q => q = p :=
  Naming.Says.get.bind fun _ _ _ hs => .pure fun _ _ => hs.1.source

/-- Another state has to keep what is known of the handlers. -/
theorem says_setState {st : σ} (h : V.state t st)
    (hu : ∀ st' k u, t.Le u → V.state u st' → V.use u st' k → V.use u st k) :
    (V.naming p).Says (setState st : Edit κ σ Unit) t fun _ _ => True :=
  .modify fun _ hs ht => ⟨⟨hs.source, hs.target, hs.names, hs.symbols, hs.rule, V.state_later ht h,
    fun i k hk => hu _ k _ ht hs.state (hs.replaced i k hk), fun x hx =>
      hu _ _ _ ht hs.state (hs.handlers x hx)⟩, .refl _⟩

theorem says_checkSource (id : NodeId) :
    (V.naming p).Says (checkSource id : Edit κ σ Node) t fun _ n =>
    p.node? id = some n := by
  refine Naming.Says.get.bind fun _ u _ hs => ?_
  rw [hs.1.source]
  split
  · next hn =>
    split
    · exact .pure fun _ _ => hn
    · exact .throw
  · exact .throw

theorem says_checkTarget (id : NodeId) :
    (V.naming p).Says (checkTarget id : Edit κ σ Node) t fun _ _ => True := by
  refine Naming.Says.get.bind fun s u _ _ => ?_
  split
  · exact .pure fun _ _ => trivial
  · exact .throw

theorem says_checkElement (id : NodeId) :
    (V.naming p).Says (checkElement id : Edit κ σ Unit) t fun _ _ => True :=
  fun w hw _ => (Regime.runs_checkElement id).mono fun _ w' hr => by
    obtain ⟨rfl, _⟩ := hr
    exact ⟨hw, .refl _, trivial⟩

/-- A node may be replaced by what a handler makes whose symbols are in the table. -/
theorem runs_replaceWith {w : World κ σ} (hw : w.1.SpelledOut V p) (id : NodeId) {k : κ}
    (h : V.use w.1.target.symbols w.1.state k) :
    Runs (replaceWith id k) w (fun _ => True) fun _ w' =>
      w'.1.SpelledOut V p ∧ w'.1.target = w.1.target := by
  refine Regime.runs_replaceWith fun _ _ _ =>
    ⟨⟨hw.source, hw.target, hw.names, hw.symbols, hw.rule, hw.state,
    fun i k' hk => ?_, hw.handlers⟩, rfl⟩
  by_cases hi : i = id
  · subst hi
    cases (update_self _ _ _).symm.trans hk
    exact h
  · exact hw.replaced i k' ((update_of_ne _ _ hi).symm.trans hk)

theorem says_replaceWith (id : NodeId) {k : κ} (h : ∀ u st, t.Le u → V.state u st → V.use u st k) :
    (V.naming p).Says (replaceWith id k : Edit κ σ Unit) t fun _ _ => True := by
  intro w hw ht
  refine (runs_replaceWith hw id (h _ _ ht hw.state)).mono fun _ w' hr => ⟨hr.1, ?_, trivial⟩
  have htable : (V.naming p).table w'.1 = (V.naming p).table w.1 := congrArg (·.symbols) hr.2
  rw [htable]
  exact .refl _

theorem says_replace (id target : NodeId) :
    (V.naming p).Says (replace id target : Edit κ σ Unit) t fun _ _ => True := by
  have hregister : ∀ u, (V.naming p).Says (register id (.fixed target) : Edit κ σ Unit) u fun _ _ =>
      True := by
    intro u w hw _
    refine Regime.runs_register w.2 fun _ =>
      ⟨⟨hw.source, hw.target, hw.names, hw.symbols, hw.rule, hw.state,
      fun i k hk => ?_, hw.handlers⟩, .refl _, trivial⟩
    by_cases hi : i = id
    · subst hi
      cases (update_self _ _ _).symm.trans hk
    · exact hw.replaced i k ((update_of_ne _ _ hi).symm.trans hk)
  refine (says_checkSource id).bind fun _ _ _ _ => ?_
  split
  · exact (says_checkTarget target).bind fun _ u _ _ => hregister u
  · exact hregister _

theorem says_replaceAll (tag : Tag) {k : κ} (h : ∀ u st, t.Le u → V.state u st → V.use u st k) :
    (V.naming p).Says (replaceAll tag k : Edit κ σ Unit) t fun _ _ => True := by
  refine Naming.Says.get.bind fun s u hu _ => ?_
  split
  · exact .throw
  refine .modify fun s hs hv =>
    ⟨⟨hs.source, hs.target, hs.names, hs.symbols, hs.rule, hs.state, hs.replaced, fun x hx => ?_⟩,
      .refl _⟩
  rcases List.mem_append.1 hx with hx | hx
  · exact hs.handlers x hx
  · rw [List.mem_singleton.1 hx]
    exact h _ _ (hu.trans hv) hs.state

theorem says_remove (id : NodeId) :
    (V.naming p).Says (remove id : Edit κ σ Unit) t fun _ _ => True :=
  (says_checkElement id).bind fun _ _ _ _ => .modify fun _ hs _ =>
    ⟨⟨hs.source, hs.target, hs.names, hs.symbols, hs.rule, hs.state, hs.replaced, hs.handlers⟩,
      .refl _⟩

theorem says_insertBefore (anchor target : NodeId) :
    (V.naming p).Says (insertBefore anchor target : Edit κ σ Unit) t fun _ _ => True :=
  (says_checkElement anchor).bind fun _ _ _ _ => (says_checkTarget target).bind fun _ _ _ _ =>
    .modify fun _ hs _ =>
    ⟨⟨hs.source, hs.target, hs.names, hs.symbols, hs.rule, hs.state, hs.replaced, hs.handlers⟩,
      .refl _⟩

theorem says_insertAfter (anchor target : NodeId) :
    (V.naming p).Says (insertAfter anchor target : Edit κ σ Unit) t fun _ _ => True :=
  (says_checkElement anchor).bind fun _ _ _ _ => (says_checkTarget target).bind fun _ _ _ _ =>
    .modify fun _ hs _ =>
    ⟨⟨hs.source, hs.target, hs.names, hs.symbols, hs.rule, hs.state, hs.replaced, hs.handlers⟩,
      .refl _⟩

theorem says_setSymbolRule {rule : SymbolRule} (h : rule.Speaks p) :
    (V.naming p).Says (setSymbolRule rule : Edit κ σ Unit) t fun _ _ => True := by
  refine Naming.Says.get.bind fun s u hu _ => ?_
  split
  · exact .throw
  refine .modify fun s hs _ =>
    ⟨⟨hs.source, hs.target, hs.names, hs.symbols, fun r hr => ?_, hs.state, hs.replaced,
      hs.handlers⟩, .refl _⟩
  cases hr
  exact h

/-- Symbols of the source become symbols of the target's table. -/
theorem says_copySymbol {x : Symbol} (hx : p.symbols.Has x) :
    (V.naming p).Says (copySymbol x : Edit κ σ Symbol) t fun u y => u.Has y := by
  intro w hw ht
  unfold copySymbol
  split
  · next h0 =>
    obtain ⟨_, hn⟩ := hx
    exact absurd h0 hn.1
  refine Runs.bind (Runs.get ?_)
  split
  · next hy => exact Runs.pure w.2 ⟨hw, .refl _, hw.symbols x _ hy⟩
  · next rule hnone hr =>
    obtain ⟨hy, hle⟩ := hw.rule rule hr x _ hw.names hx
    refine Runs.bind (Runs.set w.2 (Runs.pure w.2 ⟨?_, hle, hy⟩))
    have h' := hw.grow (hw.target.renamed hle) hle
    refine ⟨h'.source, h'.target, h'.names, fun z y' hz => ?_, h'.rule, h'.state,
      h'.replaced, h'.handlers⟩
    rw [List.lookup_cons] at hz
    split at hz
    · cases hz
      exact hy
    · exact (hw.symbols z y' hz).later hle
  · exact Runs.pure w.2 ⟨hw, .refl _, hx.later hw.names⟩

section Engine

variable {copy : NodeId → Edit κ σ NodeId}

theorem says_foldElements {yield : β → NodeId → Edit κ σ β} {ids : List NodeId} {b : β}
    (hcopy : ∀ c u, t.Le u → (V.naming p).Says (copy c) u fun _ _ => True)
    (hyield : ∀ b i u, t.Le u → (V.naming p).Says (yield b i) u fun _ _ => True) :
    (V.naming p).Says (foldElements copy yield ids b) t fun _ _ => True := by
  induction ids generalizing t b with
  | nil => exact .pure fun _ _ => trivial
  | cons id rest ih =>
    unfold foldElements
    refine Naming.Says.get.bind fun s u₁ h₁ _ => ?_
    refine (Naming.Says.foldlM fun b i _ u hu => hyield b i u (h₁.trans hu)).bind fun b u₂ h₂ _ =>
      ?_
    have h₁₂ := h₁.trans h₂
    refine Naming.Says.get.bind fun s u₃ h₃ _ => ?_
    have h₁₃ := h₁₂.trans h₃
    have hrest : ∀ b u, u₃.Le u → (V.naming p).Says (do
        let b ← ((← get).after id).foldlM yield b
        foldElements copy yield rest b) u fun _ _ => True := by
      intro b u₄ h₄
      have h₁₄ := h₁₃.trans h₄
      refine Naming.Says.get.bind fun s u₅ h₅ _ => ?_
      have h₁₅ := h₁₄.trans h₅
      refine (Naming.Says.foldlM fun b i _ u hu => hyield b i u (h₁₅.trans hu)).bind
        fun b u₆ h₆ _ => ?_
      have h₁₆ := h₁₅.trans h₆
      exact ih (fun c u hu => hcopy c u (h₁₆.trans hu)) fun b i u hu => hyield b i u (h₁₆.trans hu)
    dsimp only
    split
    · exact (Naming.Says.pure fun _ _ => trivial).bind fun b u₄ h₄ (_ : True) => hrest b u₄ h₄
    · refine (hcopy id u₃ h₁₃).bind fun d u₄ h₄ _ => ?_
      split
      · exact (Naming.Says.pure fun _ _ => trivial).bind fun b u₅ h₅ (_ : True) =>
          hrest b u₅ (h₄.trans h₅)
      · exact (hyield b d u₄ (h₁₃.trans h₄)).bind fun b u₅ h₅ _ => hrest b u₅ (h₄.trans h₅)

theorem says_foldList {yield : β → NodeId → Edit κ σ β} {owner : NodeId} {kind : ListKind}
    {ids : List NodeId} {b : β}
    (hcopy : ∀ c u, t.Le u → (V.naming p).Says (copy c) u fun _ _ => True)
    (hyield : ∀ b i u, t.Le u → (V.naming p).Says (yield b i) u fun _ _ => True) :
    (V.naming p).Says (foldList copy yield owner kind ids b) t fun _ _ => True := by
  unfold foldList
  refine Naming.Says.get.bind fun s u₁ h₁ _ => ?_
  refine (Naming.Says.foldlM fun b i _ u hu => hyield b i u (h₁.trans hu)).bind fun b u₂ h₂ _ => ?_
  have h₁₂ := h₁.trans h₂
  refine (says_foldElements (fun c u hu => hcopy c u (h₁₂.trans hu)) fun b i u hu =>
    hyield b i u (h₁₂.trans hu)).bind
    fun b u₃ h₃ _ => ?_
  refine Naming.Says.get.bind fun s u₄ h₄ _ => ?_
  exact .foldlM fun b i _ u hu => hyield b i u (((h₁₂.trans h₃).trans h₄).trans hu)

theorem says_copyListOf {owner : NodeId} {kind : ListKind} {ids : List NodeId}
    (hcopy : ∀ c u, t.Le u → (V.naming p).Says (copy c) u fun _ _ => True) :
    (V.naming p).Says (copyListOf copy owner kind ids) t fun _ _ => True :=
  says_foldList hcopy fun _ _ _ _ => .pure fun _ _ => trivial

/-- How the names of a shape are copied. -/
def wording (V : Voice κ σ) (p : Program) (t : SymbolTable) :
    Shape.Copying (World κ σ) Symbol Symbol NodeId NodeId where
  inv w _ := w.1.SpelledOut V p ∧ t.Le w.1.target.symbols
  le w w' := w.1.target.symbols.Le w'.1.target.symbols
  name w _ y := w.1.target.symbols.Has y
  child _ _ _ := True
  list _ _ _ := True
  res _ := []
  le_refl _ := .refl _
  le_trans := .trans
  weaken h _ := h
  name_mono h hn := hn.later h
  child_mono _ h := h
  list_mono _ h := h

theorem says_copyParts (hp : p.toArena.SpelledOut) {id : NodeId} {n : Node}
    (hn : p.node? id = some n)
    (hcopy : ∀ c u, t.Le u → (V.naming p).Says (copy c) u fun _ _ => True) :
    (V.naming p).Says (copyParts copy id n) t fun _ _ => True := by
  unfold copyParts
  split
  · exact .throw
  refine Naming.Says.bind (P := fun u s => ∀ x ∈ s.names, u.Has x) ?_ fun s u _ hs =>
    says_build (Build.says_push _ hs)
  have hturns : (wording V p t).Turns (fun _ : Misuse => True)
      (n.shape.traverse copySymbol copy (copyListOf copy id)) _ _ _ :=
    Shape.Copying.traverse (fun x hx w F hw => ?_) (fun c _ w F hw => ?_) fun k xs _ w F hw => ?_
  · intro w hw ht
    refine (hturns w [] ⟨hw, ht⟩).mono fun s w' hr => ?_
    obtain ⟨⟨hf, _⟩, hle, hrel⟩ := hr
    refine ⟨hf, hle, fun y hy => ?_⟩
    obtain ⟨_, _, hx⟩ := Shape.Rel.mem_names hrel y hy
    exact hx
  · exact (says_copySymbol (hp.known hn x hx) w hw.1 hw.2).mono fun y w' hr =>
      ⟨⟨hr.1, hw.2.trans hr.2.1⟩, hr.2⟩
  · exact (hcopy c t (.refl t) w hw.1 hw.2).mono fun y w' hr => ⟨⟨hr.1, hw.2.trans hr.2.1⟩, hr.2⟩
  · exact (says_copyListOf hcopy w hw.1 hw.2).mono fun y w' hr => ⟨⟨hr.1, hw.2.trans hr.2.1⟩, hr.2⟩

/-- Handlers whose own symbols are in the table put only symbols of the table into nodes. -/
def Speaks (V : Voice κ σ) (p : Program) (act : Act κ σ) : Prop :=
  ∀ copy h id (w : World κ σ), w.1.SpelledOut V p → V.use w.1.target.symbols w.1.state h →
    (∀ c u, w.1.target.symbols.Le u → (V.naming p).Says (copy c) u fun _ _ => True) →
    Runs (act copy h id) w (fun _ => True) fun _ w' =>
      w'.1.SpelledOut V p ∧ w.1.target.symbols.Le w'.1.target.symbols

variable {act : Act κ σ}

/-- The state at the time does not matter to most handlers. -/
theorem speaks_of_says (h : ∀ copy k id t, (∃ st, V.use t st k) →
    (∀ c u, t.Le u → (V.naming p).Says (copy c) u fun _ _ => True) →
    (V.naming p).Says (act copy k id) t fun _ _ => True) : Speaks V p act :=
  fun copy k id w hw hu hcopy => (h copy k id _ ⟨_, hu⟩ hcopy w hw (.refl _)).mono fun _ _ hr =>
    ⟨hr.1, hr.2.1⟩

theorem says_copyStep (hp : p.toArena.SpelledOut) (hact : Speaks V p act) (id : NodeId)
    (hcopy : ∀ c u, t.Le u → (V.naming p).Says (copy c) u fun _ _ => True) :
    (V.naming p).Says (copyStep act copy id) t fun _ _ => True := by
  unfold copyStep
  split
  · exact .pure fun _ _ => trivial
  refine (says_checkSource id).bind fun n u hu hn => ?_
  intro w hw ht
  refine Runs.bind (Runs.get ?_)
  have hle : t.Le w.1.target.symbols := hu.trans ht
  have hcopy' : ∀ c v, w.1.target.symbols.Le v → (V.naming p).Says (copy c) v fun _ _ => True :=
    fun c v hv => hcopy c v (hle.trans hv)
  have hparts := says_copyParts hp hn hcopy
  split
  · exact Runs.pure w.2 ⟨hw, .refl _, trivial⟩
  · next h hh =>
    exact (hact copy h id w hw (hw.replaced id h hh) hcopy').mono fun _ w' hr =>
      ⟨hr.1, hr.2, trivial⟩
  · split
    · next x h hfind =>
      have hmem := List.mem_of_find?_eq_some hfind
      refine Runs.bind ((hact copy h id w hw (hw.handlers _ hmem) hcopy').mono fun d w' hr => ?_)
      split
      · refine (hparts w' hr.1 (hle.trans hr.2)).mono fun _ w'' hr' =>
          ⟨hr'.1, hr.2.trans hr'.2.1, trivial⟩
      · exact Runs.pure w'.2 ⟨hr.1, hr.2, trivial⟩
    · exact hparts w hw hle

theorem says_copyTo (hp : p.toArena.SpelledOut) (hact : Speaks V p act) (n : Nat) (id : NodeId)
    (t : SymbolTable) : (V.naming p).Says (copyTo act n id) t fun _ _ => True := by
  induction n generalizing id t with
  | zero => exact .throw
  | succ n ih => exact says_copyStep hp hact id fun c u _ => ih c u

theorem says_copy (hp : p.toArena.SpelledOut) (hact : Speaks V p act) (id : NodeId)
    (t : SymbolTable) : (V.naming p).Says (Edit.copy act id) t fun _ _ => True :=
  Naming.Says.get.bind fun _ u _ _ => says_copyTo hp hact _ id u

theorem says_copyPlain (hp : p.toArena.SpelledOut) (id : NodeId)
    (hcopy : ∀ c u, t.Le u → (V.naming p).Says (copy c) u fun _ _ => True) :
    (V.naming p).Says (copyPlain copy id) t fun _ _ => True := by
  unfold copyPlain
  split
  · exact .pure fun _ _ => trivial
  · exact (says_checkSource id).bind fun n u hu hn => says_copyParts hp hn fun c v hv =>
      hcopy c v (hu.trans hv)

theorem says_copyList {owner : NodeId} {ids : List NodeId}
    (hcopy : ∀ c u, t.Le u → (V.naming p).Says (copy c) u fun _ _ => True) :
    (V.naming p).Says (copyList copy owner ids) t fun _ _ => True := by
  refine Naming.Says.get.bind fun s u hu _ => ?_
  split
  · exact says_copyListOf fun c v hv => hcopy c v (hu.trans hv)
  · exact .throw

theorem says_copyModule (hp : p.toArena.SpelledOut) (hact : Speaks V p act) (t : SymbolTable) :
    (V.naming p).Says (copyModule (Edit.copy act)) t fun _ _ => True := by
  have hadd : ∀ seen id u, (V.naming p).Says (addOnce seen id : Edit κ σ (List NodeId)) u fun _ _ =>
      True := by
    intro seen id u
    unfold addOnce
    split
    · exact .pure fun _ _ => trivial
    · exact (says_build (Build.says_addGlobal id)).bind fun _ _ _ _ => .pure fun _ _ => trivial
  refine Naming.Says.get.bind fun s u _ _ => ?_
  split
  · exact .throw
  refine Naming.Says.bind (P := fun _ _ => True)
    (.modify fun _ hs _ => ⟨⟨hs.source, hs.target, hs.names, hs.symbols,
    hs.rule, hs.state, hs.replaced, hs.handlers⟩, .refl _⟩) fun _ v _ _ => ?_
  refine (says_foldList (fun c u _ => says_copy hp hact c u) fun b i u _ => hadd b i u).bind
    fun _ _ _ _ =>
    .pure fun _ _ => trivial

end Engine
end Edit
end Copy

namespace Work

open Copy

variable {κ σ α : Type} {V : Voice κ σ} {p : Program} {t : SymbolTable} {Q : SymbolTable → α → Prop}

theorem says_edit {step : Edit κ σ α} (h : (V.naming p).Says step t Q) :
    (V.naming p).Says (edit step) t Q :=
  fun w hw ht => runs_edit (h w hw ht)

theorem says_build {step : Build α} (h : Builder.naming.Says step t Q) :
    (V.naming p).Says (build step : Work κ σ α) t Q :=
  says_edit (Edit.says_build h)

theorem says_need {problem : PassProblem} (x : Option α) :
    (V.naming p).Says (need problem x : Work κ σ α) t fun _ y => x = some y := by
  cases x with
  | none => exact .throw
  | some y => exact .pure fun _ _ => rfl

end Work

/-- A pass whose work speaks makes a program that is spelled out. -/
theorem Pass.apply_spelledOut {κ σ : Type} {V : Copy.Voice κ σ} {p : Program} {t : Pass}
    {inputs : Data} {out : Output} {work : Work κ σ Data} {st : σ} (hp : p.toArena.SpelledOut)
    (hst : V.state p.symbols st) (hrun : t.run p inputs = work.perform p st)
    (h : (V.naming p).Says work p.symbols fun _ _ => True) (hout : t.apply p inputs = .ok out) :
    out.program.toArena.SpelledOut := by
  have hwork := h (Copy.Session.start p st, id) (.start hst) (.refl _)
  unfold Pass.apply Result.outcome at hout
  rw [hrun] at hout
  split at hout
  · cases hout
    exact hp
  unfold Work.perform at hout
  cases hs : work (Copy.Session.start p st) with
  | error e s =>
    rw [hs] at hout
    cases e with
    | problem e =>
      cases hout
      exact hp
    | misuse m => cases hout
  | ok data s =>
    rw [hs] at hout
    dsimp only at hout
    split at hout
    · cases hout
      obtain ⟨_, hf, _⟩ := hwork.ok hs
      exact hf.target.build
    · cases hout

end ShaderLoom
