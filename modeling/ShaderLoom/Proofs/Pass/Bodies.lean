import ShaderLoom.Proofs.Pass.Scoped

/-! The bodies of functions in the program that hoisting makes. Each statement is resolved as it was
in the source, where the declarations before it are in scope; a block holds the declarations of its
elements before these, and lowered loops and conditionals hold those of their conditions inside. -/
namespace ShaderLoom

theorem Ranges.append {a : Arena} {M : Frame} {E : Table} {F : NodeId → ExprFacts → Prop}
    {Δ Δ₁ Δ₂ : Levels} {V V₁ V₂ : List Made} {ss ts : List NodeId}
    (h : Ranges a M E F Δ V (.all ss) Δ₁ V₁) (h' : Ranges a M E F Δ₁ V₁ (.all ts) Δ₂ V₂) :
    Ranges a M E F Δ V (.all (ss ++ ts)) Δ₂ V₂ := by
  induction ss generalizing Δ V with
  | nil =>
    cases h
    exact h'
  | cons s ss ih =>
    cases h with
    | cons hs hss => exact .cons hs (ih hss)

/-- Statements declare variables in the innermost level only. -/
theorem Ranges.drop_one {a : Arena} {M : Frame} {E : Table} {F : NodeId → ExprFacts → Prop}
    {Δ Δ₁ : Levels} {V V₁ : List Made} {part : Part} (h : Ranges a M E F Δ V part Δ₁ V₁) :
    Δ₁.drop 1 = Δ.drop 1 := by
  induction h with
  | absent | simple | stray | lacking | nil => rfl
  | varDecl _ _ hd =>
    obtain ⟨-, -, henter⟩ := hd
    rw [(Levels.enter_eq_some.1 henter).2, Levels.drop_push]
  | block _ _ ih => exact congrArg (List.drop 1) ih
  | ifElse _ _ _ _ ih₁ ih₂ | cons _ _ ih₁ ih₂ => exact ih₂.trans ih₁
  | forLoop _ _ _ _ _ ih₁ ih₂ ih₃ => exact congrArg (List.drop 1) (ih₃.trans (ih₂.trans ih₁))
  | whileLoop _ _ _ ih | opened _ _ ih => exact ih
  | loop _ _ _ ih₁ ih₂ => exact congrArg (List.drop 1) (ih₂.trans ih₁)

theorem Ranges.of_zero {a : Arena} {M : Frame} {E : Table} {F : NodeId → ExprFacts → Prop}
    {Δ Δ₁ : Levels} {V V₁ : List Made} {i : NodeId} (h : Ranges a M E F Δ V (.one i) Δ₁ V₁)
    (hi : i = 0) : Δ₁ = Δ := by
  subst hi
  cases h with
  | absent => rfl
  | simple hx | varDecl hx | stray hx | block hx | ifElse hx | forLoop hx | whileLoop hx
      | loop hx => cases hx

/-- A block leaves what is in scope as it is. -/
theorem Ranges.of_isBlock {a : Arena} {M : Frame} {E : Table} {F : NodeId → ExprFacts → Prop}
    {Δ Δ₁ : Levels} {V V₁ : List Made} {i : NodeId} (h : Ranges a M E F Δ V (.one i) Δ₁ V₁)
    (hi : a.isBlock i) : Δ₁ = Δ := by
  obtain ⟨ss, hss⟩ := Option.isSome_iff_exists.1 hi
  have hs := Arena.shape?_of_block? hss
  cases h with
  | absent => rfl
  | simple hx hes =>
    cases hs.symm.trans hx
    cases hes
  | block _ h => exact h.drop_one
  | varDecl hx | stray hx | ifElse hx | forLoop hx | whileLoop hx | loop hx =>
    cases hs.symm.trans hx

/-- Statements are related to statements only. -/
theorem Shape.Rel.stmt {ν μ α β : Type} {N : ν → μ → Prop} {C : α → β → Prop}
    {L : List α → List β → Prop} {x : StmtShape α} {s : Shape μ β} (h : Rel N C L (.stmt x) s) :
    ∃ y, s = .stmt y := by
  cases h <;> exact ⟨_, rfl⟩

namespace Hoist

namespace Remade

variable {p : Program} {M M' : Frame} {F : NodeId → ExprFacts → Prop} {E E' : Table}
    {ms : List Moved} {b : Builder}
  {origin : NodeId → NodeId} {Φ : Remade p M F E ms b origin M' E'} {Δ Δ' Δ₁ Δ₁' Δ₂ : Levels}
    {V V₁ : List ShaderLoom.Made}
  {i j : NodeId}

section Nodes

/-- Children of nodes of the tree are in the tree. -/
theorem inTree_slot (Φ : Remade p M F E ms b origin M' E') (hi : p.inTree i = true)
    {x : Shape Symbol NodeId} (hx : p.shape? i = some x) {c : NodeId} (hc : c ∈ x.slots)
    (h0 : c ≠ 0) : p.inTree c = true :=
  (Φ.fit.treeShaped Φ.counted).inTree_child hi (Program.mem_children_of_slot hx hc h0)

/-- A statement with nothing to declare in its header becomes a statement of what its parts have
become. -/
theorem plain (Φ : Remade p M F E ms b origin M' E') {x : StmtShape NodeId}
    (hx : p.shape? i = some (.stmt x)) (hij : Comes ms b.toArena origin i j)
    (hloop : ¬ LoopWith p ms i) (helse : ¬ ElseWith p ms i) :
    ∃ y, b.build.shape? j = some (.stmt y) ∧
      Shape.Rel (SameName p b.toArena) (Comes ms b.toArena origin)
      (Woven (before p ms) (Comes ms b.toArena origin)) (.stmt x) (.stmt y) := by
  have h0 := Arena.ne_zero_of_shape hx
  obtain ⟨-, horigin, -⟩ := hij.resolve_left fun hz => h0 hz.1
  have hrecast := (Φ.hoisted.traced j (horigin ▸ h0)).2.2
  rw [horigin] at hrecast
  cases hrecast with
  | parts _ _ hn hm _ hrel =>
    obtain ⟨n, hn', hshape⟩ := Option.map_eq_some_iff.1 hx
    cases hn.symm.trans hn'
    rw [hshape] at hrel
    obtain ⟨y, hy⟩ := hrel.stmt
    exact ⟨y, Builder.shape?_build_of ((Arena.shape?_of_node? hm).trans (congrArg some hy)),
      hy ▸ hrel⟩
  | reference hm _ =>
    obtain ⟨e, he⟩ := (Φ.bodies _ hm).1
    cases hx.symm.trans he
  | loop h _ _ _ => exact absurd h hloop
  | otherwise h _ _ => exact absurd h helse

theorem plain_of (Φ : Remade p M F E ms b origin M' E') {x : StmtShape NodeId}
    (hx : p.shape? i = some (.stmt x)) (hij : Comes ms b.toArena origin i j) (hh : header? x = none)
    (hif : ∀ c d e, x ≠ .ifElse c d e) :
    ∃ y, b.build.shape? j = some (.stmt y) ∧
      Shape.Rel (SameName p b.toArena) (Comes ms b.toArena origin)
      (Woven (before p ms) (Comes ms b.toArena origin)) (.stmt x) (.stmt y) := by
  refine Φ.plain hx hij (fun h => ?_) fun h => ?_
  · have := h.isLoopHeader
    rw [isLoopHeader_eq_false hx hh] at this
    cases this
  · obtain ⟨c, d, e, hs⟩ := h.isIf
    cases hx.symm.trans hs
    exact hif _ _ _ rfl

theorem situated (Φ : Remade p M F E ms b origin M' E') (hi : p.inTree i = true)
    {x : StmtShape NodeId} (hx : p.shape? i = some (.stmt x)) {c c' : NodeId}
    (hc : c ∈ (Shape.stmt (ν := Symbol) x).slots) (hcc : Comes ms b.toArena origin c c') :
    Stands p ms b.build origin c c' ∨ Referred ms b.build c c' :=
  (Hoisted.situated_of_statement Φ.fit Φ.counted hi hx hc hcc).cases

/-- The moved parts of what a statement holds are moved out of that statement. -/
theorem readyIn (Φ : Remade p M F E ms b origin M' E') (hi : p.inTree i = true) {e : NodeId}
    (he : Reading p.toArena i e) (h : ∀ m ∈ ms, p.statementOf m.expr = i → Φ.Ready Δ Δ' m) :
    Φ.ReadyIn Δ Δ' e := by
  intro m hm hc
  have h0 := Φ.hoisted.expr_ne_zero hm
  have hroot : p.Rooted p.scene.module := Φ.scene ▸ Φ.rooted
  obtain ⟨hein, hstmt⟩ := Program.statementOf_reading hroot.tree Φ.walked hi he (hc.ne_zero h0)
  exact h m hm (((hroot.statementOf_comprised Φ.walked hein hc).resolve_left h0).2.trans hstmt)

end Nodes

section Statements

/-- The declarations that go right before a statement are in scope. -/
abbrev ReadyBefore (Φ : Remade p M F E ms b origin M' E') (Δ Δ' : Levels) (i : NodeId) : Prop :=
  ∀ m ∈ ms, Precedes p i m.expr → Φ.Ready Δ Δ' m

/-- A statement leaves what is in scope as it is, or declares a variable that its counterpart
declares too. -/
def After (Φ : Remade p M F E ms b origin M' E') (i : NodeId) (Δ Δ' Δ₁ Δ₁' : Levels) : Prop :=
  (Δ₁ = Δ ∧ Δ₁' = Δ') ∨ ∃ d x y, p.shape? i = some (.stmt (.varDecl d)) ∧ Φ.kin.Locals x y ∧
    Δ₁ = Δ.push x ∧ Δ₁' = Δ'.push y

/-- What comes into scope in a block. -/
structure Through (Φ : Remade p M F E ms b origin M' E') (Δ Δ' Δ₁ Δ₁' : Levels) : Prop where
  covers : Φ.Covers Δ₁ Δ₁'
  outer : Δ₁.drop 1 = Δ.drop 1
  outer' : Δ₁'.drop 1 = Δ'.drop 1

/-- A part of a body is resolved in the program that is made, where what it needs is in scope. -/
def Follows (Φ : Remade p M F E ms b origin M' E') (Δ Δ₁ : Levels) : Part → Prop
  | .one i => (i ≠ 0 → p.inTree i =
      true) → ∀ {j Δ'}, Comes ms b.toArena origin i j → Φ.Covers Δ Δ' → Φ.ReadyBefore Δ Δ' i →
      ((∃ d, p.shape? i = some (.stmt (.varDecl d))) → Φ.Room Δ Δ') → ∀ V, ∃ Δ₁' V₁',
        Ranges b.build.toArena M' E' Φ.Found Δ' V (.one j) Δ₁' V₁' ∧ Φ.After i Δ Δ' Δ₁ Δ₁'
  | .all ss => (∀ s ∈ ss, p.inTree s = true ∧
      ∃ xs, p.shape? (p.parent s) = some (.stmt (.block xs))) → ss.Nodup →
      ∀ {js Δ'}, Woven (before p ms) (Comes ms b.toArena origin) ss js →
        Φ.Covers Δ Δ' → Φ.Room Δ Δ' →
      (∀ m ∈ ms, ∀ s ∈ ss, place p m.expr = some (.before s) → Δ'.Free m.name) → ∀ V, ∃ Δ₁' V₁',
        Ranges b.build.toArena M' E' Φ.Found Δ' V (.all js) Δ₁' V₁' ∧ Φ.Through Δ Δ' Δ₁ Δ₁'
  | .body i =>
    p.inTree i = true → p.isBlock i → ∀ {j Δ'}, Comes ms b.toArena origin i j →
      Φ.Covers Δ Δ' → Φ.Room Δ Δ' →
      (∀ m ∈ ms, Δ'.Free m.name) → ∀ V, ∃ Δ₁' V₁',
        Ranges b.build.toArena M' E' Φ.Found Δ' V (.body j) Δ₁' V₁' ∧ Φ.Through Δ Δ' Δ₁ Δ₁'

theorem After.covers (h : Φ.After i Δ Δ' Δ₁ Δ₁') (hcov : Φ.Covers Δ Δ') : Φ.Covers Δ₁ Δ₁' := by
  rcases h with ⟨rfl, rfl⟩ | ⟨d, x, y, -, hxy, rfl, rfl⟩
  · exact hcov
  · exact hcov.push hxy

theorem After.room (h : Φ.After i Δ Δ' Δ₁ Δ₁') (hcov : Φ.Covers Δ Δ') (hroom : Φ.Room Δ Δ') :
    Φ.Room Δ₁ Δ₁' := by
  rcases h with ⟨rfl, rfl⟩ | ⟨d, x, y, -, hxy, rfl, rfl⟩
  · exact hroom
  · exact hroom.push hcov hxy

theorem After.outer (h : Φ.After i Δ Δ' Δ₁ Δ₁') :
    Δ₁.drop 1 = Δ.drop 1 ∧ Δ₁'.drop 1 = Δ'.drop 1 := by
  rcases h with ⟨rfl, rfl⟩ | ⟨d, x, y, -, hxy, rfl, rfl⟩
  · exact ⟨rfl, rfl⟩
  · exact ⟨Levels.drop_push _ _, Levels.drop_push _ _⟩

theorem After.free (h : Φ.After i Δ Δ' Δ₁ Δ₁') (hcov : Φ.Covers Δ Δ') {m : Moved} (hm : m ∈ ms)
    (hfree : Δ'.Free m.name) : Δ₁'.Free m.name := by
  rcases h with ⟨rfl, rfl⟩ | ⟨d, x, y, -, hxy, rfl, rfl⟩
  · exact hfree
  · have hname : SameName p b.toArena x.name y.name := hxy.name
    exact (Levels.free_push hcov.2.1).2 ⟨fun heq => Φ.name_ne hm hname heq.symm, hfree⟩

/-- A statement that declares nothing leaves what is in scope as it is. -/
theorem After.same (h : Φ.After i Δ Δ' Δ₁ Δ₁') (hi : ∀ d, p.shape? i ≠ some (.stmt (.varDecl d))) :
    Δ₁ = Δ ∧ Δ₁' = Δ' :=
  h.resolve_right fun ⟨d, _, _, hs, _⟩ => hi d hs

/-- Nothing goes right before a block of its own. -/
theorem readyBefore_block (Φ : Remade p M F E ms b origin M' E') (hi : p.isBlock i ∨ i = 0) :
    Φ.ReadyBefore Δ Δ' i := by
  intro m hm hpre
  obtain ⟨h0, hin, r, hr, -⟩ := Φ.reading hm
  rcases hi with hi | rfl
  · rcases hpre with ⟨rfl, -, -⟩ | ⟨c, t, body, hs⟩
    · exact absurd hi hr.not_isBlock
    · simp [Arena.isBlock, Arena.block?, hs, Shape.block?] at hi
  · rcases hpre with ⟨hz, -, -⟩ | ⟨c, t, body, hs⟩
    · exact absurd hz h0
    · cases hs

end Statements

section Recasts

theorem lowered_else (Φ : Remade p M F E ms b origin M' E') (hij : Comes ms b.toArena origin i j)
    (h : ElseWith p ms i) {c d e : NodeId} (hx : p.shape? i = some (.stmt (.ifElse c d e))) :
    LoweredElse b.build.toArena (Comes ms b.toArena origin) (declaredAt p ms (.otherwise i)) c d e
    j := by
  have h0 := Arena.ne_zero_of_shape hx
  obtain ⟨-, horigin, -⟩ := hij.resolve_left fun hz => h0 hz.1
  have hrecast := (Φ.hoisted.traced j (horigin ▸ h0)).2.2
  rw [horigin] at hrecast
  cases hrecast with
  | parts _ helse => exact absurd h helse
  | reference hm _ =>
    obtain ⟨e, he⟩ := (Φ.bodies _ hm).1
    cases hx.symm.trans he
  | loop _ hy hh _ =>
    cases hx.symm.trans hy
    cases hh
  | otherwise _ hy hlow =>
    cases hx.symm.trans hy
    exact hlow.mono Builder.shape?_build_of fun _ _ h => h

theorem lowered_loop (Φ : Remade p M F E ms b origin M' E') (hij : Comes ms b.toArena origin i j)
    (h : LoopWith p ms i) {x : StmtShape NodeId} {l : Header} (hx : p.shape? i = some (.stmt x))
    (hl : header? x = some l) :
    LoweredLoop b.build.toArena (Comes ms b.toArena origin) (pending p ms i) l j := by
  have h0 := Arena.ne_zero_of_shape hx
  obtain ⟨-, horigin, -⟩ := hij.resolve_left fun hz => h0 hz.1
  have hrecast := (Φ.hoisted.traced j (horigin ▸ h0)).2.2
  rw [horigin] at hrecast
  cases hrecast with
  | parts hloop => exact absurd h hloop
  | reference hm _ =>
    obtain ⟨e, he⟩ := (Φ.bodies _ hm).1
    cases hx.symm.trans he
  | loop _ hy hh hlow =>
    cases hx.symm.trans hy
    cases hl.symm.trans hh
    exact hlow.mono Builder.shape?_build_of fun _ _ h => h
  | otherwise _ hy _ =>
    cases hx.symm.trans hy
    cases hl

end Recasts

section Steps

/-- The expressions of simple statements that are related. -/
theorem reads?_rel {N : Symbol → Symbol → Prop} {C : NodeId → NodeId → Prop}
    {L : List NodeId → List NodeId → Prop} {x y : StmtShape NodeId} {es : List NodeId}
    (h : Shape.Rel N C L (.stmt x) (.stmt y)) (hes : x.reads? = some es) :
    ∃ es', y.reads? = some es' ∧ List.Forall₂ C es es' := by
  cases h with
  | assign hl hr =>
    cases hes
    exact ⟨_, rfl, .cons hl (.cons hr .nil)⟩
  | increment he | callStatement he | ret he =>
    cases hes
    exact ⟨_, rfl, .cons he .nil⟩
  | breakLoop | continueLoop | discard =>
    cases hes
    exact ⟨_, rfl, .nil⟩
  | _ => cases hes

theorem follows_simple {x : StmtShape NodeId} {es : List NodeId} {ts : List (Option Ty)}
    (hs : p.shape? i = some (.stmt x)) (hes : x.reads? = some es)
    (hread : Reads p.toArena M E F Δ (.all es ts)) : Φ.Follows Δ Δ (.one i) := by
  intro hi j Δ' hij hcov hpre _ V
  have hin := hi (Arena.ne_zero_of_shape hs)
  have hheader : header? x = none := by cases x <;> first | rfl | cases hes
  have hif : ∀ c d e, x ≠ .ifElse c d e := by
    rintro c d e rfl
    cases hes
  obtain ⟨y, hy, hrel⟩ := Φ.plain_of hs hij hheader hif
  obtain ⟨es', hes', hall⟩ := reads?_rel hrel hes
  obtain ⟨us, hus⟩ :=
    readsAll hcov hread (forall₂_imp_mem hall fun e he e' _ hee => Hoisted.situated_of_statement
    Φ.fit Φ.counted hin hs ((StmtShape.reads_slots hes).subset he) hee) fun e he =>
      Φ.readyIn hin (.simple hs hes he)
      fun m hm hstmt =>
        hpre m hm (.inl ⟨hstmt, isLoopHeader_eq_false hs hheader, isElseOf_eq_false hs hif⟩)
  exact ⟨Δ', V, .simple hy hes' hus, .inl ⟨rfl, rfl⟩⟩

/-- A variable of the source is declared. -/
theorem declares (hcov : Φ.Covers Δ Δ') (hroom : Φ.Room Δ Δ') {d d' : NodeId}
    (hdd : Stands p ms b.build origin d d') {v : VariableShape Symbol NodeId}
    (hv : p.asVariable? d = some v) (hready : Φ.ReadyIn Δ Δ' v.initializer)
    (h : Declares p.toArena M E F d v Δ V Δ₁ V₁) (V' : List ShaderLoom.Made) :
    ∃ v' x y V₁', b.build.asVariable? d' = some v' ∧ (v.kind = .parameter → v'.kind = .parameter) ∧
      Declares b.build.toArena M' E' Φ.Found d' v' Δ' V' (Δ'.push y) V₁' ∧ Φ.kin.Locals x y ∧
      Δ₁ = Δ.push x := by
  obtain ⟨hinit, hval, henter⟩ := h
  obtain ⟨v', hv', hname, htype, hplace, hkind⟩ := Φ.kin.value hdd hv
  obtain ⟨u₀, hinit', h₀⟩ := reads hcov hinit hplace hready
  have hpresent : v.initializer ≠ 0 → v'.initializer ≠ 0 := fun h0 => hplace.elim
    (fun h h' => h0 ((Φ.kin.readAbsent h).2 h')) fun h => (Φ.kin.movedPresent h).2
  obtain ⟨u, hval', htu⟩ := Kinship.valueOf_follows Φ.tables htype hpresent hval h₀
  obtain ⟨hfree, rfl⟩ := Levels.enter_eq_some.1 henter
  exact ⟨v', ⟨v.name, d, V.length, _⟩, ⟨v'.name, d', V'.length, u⟩, _, hv', hkind,
    .intro hinit' hval' (Levels.enter_eq_some.2 ⟨hroom _ _ hname hfree, rfl⟩),
    ⟨hname, hdd, trivial, htu⟩, rfl⟩

theorem follows_varDecl {d : NodeId} {v : VariableShape Symbol NodeId}
    (hs : p.shape? i = some (.stmt (.varDecl d))) (hv : p.asVariable? d = some v)
    (h : Declares p.toArena M E F d v Δ V Δ₁ V₁) : Φ.Follows Δ Δ₁ (.one i) := by
  intro hi j Δ' hij hcov hpre hroom V'
  have hin := hi (Arena.ne_zero_of_shape hs)
  obtain ⟨y, hy, hrel⟩ := Φ.plain_of hs hij rfl nofun
  cases hrel with
  | varDecl hdd =>
    have hstands :=
      (Φ.situated hin hs (by simp [Shape.slots]) hdd).resolve_right fun ⟨m, hm, hd, _⟩ => by
      obtain ⟨e, he⟩ := (Φ.bodies m hm).1
      rw [hd] at he
      cases (Arena.shape?_of_asVariable? hv).symm.trans he
    obtain ⟨v', x, y, V₁', hv', -, hd', hxy, rfl⟩ :=
      declares hcov (hroom ⟨d, hs⟩) hstands hv (Φ.readyIn hin (.initializer hs hv)
      fun m hm hstmt =>
        hpre m hm (.inl ⟨hstmt, isLoopHeader_eq_false hs rfl, isElseOf_eq_false hs nofun⟩)) h V'
    exact ⟨_, V₁', .varDecl hy hv' hd', .inr ⟨d, x, y, hs, hxy, rfl, rfl⟩⟩

theorem follows_stray {d : NodeId} (hs : p.shape? i = some (.stmt (.varDecl d)))
    (hv : p.asVariable? d = none) : Φ.Follows Δ Δ (.one i) := by
  intro hi j Δ' hij hcov hpre hroom V'
  have hin := hi (Arena.ne_zero_of_shape hs)
  obtain ⟨y, hy, hrel⟩ := Φ.plain_of hs hij rfl nofun
  cases hrel with
  | @varDecl _ d' hdd =>
    have hnone : b.build.asVariable? d' = none := by
      rcases Φ.situated hin hs (by simp [Shape.slots]) hdd with hstands | ⟨m, hm, -, hd'⟩
      · exact Φ.kin.noValue hstands hv
      · simp [Arena.asVariable?, hd', Shape.asVariable?]
    exact ⟨Δ', V', .stray hy hnone, .inl ⟨rfl, rfl⟩⟩

/-- The elements of a block. -/
theorem elements (Φ : Remade p M F E ms b origin M' E') (hi : p.inTree i = true) {ss : List NodeId}
    (hs : p.shape? i = some (.stmt (.block ss))) :
    (∀ s ∈ ss, p.inTree s = true ∧ ∃ xs, p.shape? (p.parent s) = some (.stmt (.block xs))) ∧
    ss.Nodup := by
  have ht := Φ.fit.treeShaped Φ.counted
  have h0 : ∀ s ∈ ss, s ≠ 0 := by
    obtain ⟨n, hn, hshape⟩ := Option.map_eq_some_iff.1 hs
    exact fun s hmem =>
      Φ.fit.present hn s (hshape ▸ Shape.mem_required_of_lists (by simp [Shape.lists]) s hmem)
  have hchild : ∀ s ∈ ss, s ∈ p.children i := fun s hmem =>
    Program.mem_children_of_slot hs (by simpa [Shape.slots] using hmem) (h0 s hmem)
  refine ⟨fun s hmem =>
    ⟨ht.inTree_child hi (hchild s hmem), ss, by rw [ht.parent hi (hchild s hmem), hs]⟩, ?_⟩
  have hnodup := ht.nodup_slots hi hs
  rwa [List.filter_eq_self.2 fun s hmem => by simpa using h0 s (by simpa [Shape.slots] using hmem)]
    at hnodup

theorem follows_block {ss : List NodeId} (hs : p.shape? i = some (.stmt (.block ss)))
    (ih : Φ.Follows ([] :: Δ) Δ₁ (.all ss)) : Φ.Follows Δ (Δ₁.drop 1) (.one i) := by
  intro hi j Δ' hij hcov _ _ V
  have hin := hi (Arena.ne_zero_of_shape hs)
  obtain ⟨y, hy, hrel⟩ := Φ.plain_of hs hij rfl nofun
  cases hrel with
  | block hss =>
    obtain ⟨hparents, hnodup⟩ := Φ.elements hin hs
    obtain ⟨Δ₁', V₁', hranges, hthrough⟩ := ih hparents hnodup hss hcov.opened (room_opened _ _)
      (fun _ _ _ _ _ => Levels.free_opened _ _) V
    exact ⟨_, V₁', .block hy hranges, .inl ⟨hthrough.outer, hthrough.outer'⟩⟩

theorem follows_opened {ss : List NodeId} (hb : p.block? i = some ss)
    (ih : Φ.Follows Δ Δ₁ (.all ss)) : Φ.Follows Δ Δ₁ (.body i) := by
  intro hin _ j Δ' hij hcov hroom hfree V
  have hs := Arena.shape?_of_block? hb
  obtain ⟨y, hy, hrel⟩ := Φ.plain_of hs hij rfl nofun
  cases hrel with
  | block hss =>
    obtain ⟨hparents, hnodup⟩ := Φ.elements hin hs
    obtain ⟨Δ₁', V₁', hranges, hthrough⟩ :=
      ih hparents hnodup hss hcov hroom (fun m hm _ _ _ => hfree m hm) V
    exact ⟨Δ₁', V₁', .opened (by simp [Arena.block?, hy, Shape.block?]) hranges, hthrough⟩

theorem follows_nil : Φ.Follows Δ Δ (.all []) := by
  intro _ _ js Δ' hw hcov _ _ V
  cases hw
  exact ⟨Δ', V, .nil, hcov, rfl, rfl⟩

theorem follows_cons {s : NodeId} {ss : List NodeId} (h : Ranges p.toArena M E F Δ V (.one s) Δ₁ V₁)
    (ih₁ : Φ.Follows Δ Δ₁ (.one s)) (ih₂ : Φ.Follows Δ₁ Δ₂ (.all ss)) :
    Φ.Follows Δ Δ₂ (.all (s :: ss)) := by
  intro hparents hnodup js Δ' hw hcov hroom hfree V
  have ht := Φ.fit.treeShaped Φ.counted
  cases hw with
  | cons hxy hw =>
    obtain ⟨hin, xs, hparent⟩ := hparents s List.mem_cons_self
    obtain ⟨hnotin, hnodup⟩ := List.nodup_cons.1 hnodup
    have hsome : p.shape? s ≠ none := by
      obtain ⟨n, hn⟩ := Option.isSome_iff_exists.1 (Φ.fit.node_of_inTree hin)
      simp [Arena.shape?, hn]
    obtain ⟨Δ₀', V₀, hlets, hcov₀, hready, hroom₀, hdrop₀, hfree₀⟩ := lets (x := .before s)
      (fun m hm hx => Φ.reads_before hm hin h (from_of_place ht Φ.tidy hx)) hcov
      (fun m hm hx => hfree m hm s List.mem_cons_self hx) V
    obtain ⟨Δ₁', V₁', hone, hafter⟩ := ih₁ (fun _ => hin) hxy hcov₀ (fun m hm hpre =>
      hready m hm (place_before ht Φ.tidy hin hparent hsome (Φ.reading hm).1 hpre))
        (fun _ => hroom₀ hroom) V₀
    obtain ⟨Δ₂', V₂', hall, hthrough⟩ :=
      ih₂ (fun s' hs' => hparents s' (List.mem_cons_of_mem _ hs')) hnodup hw
      (hafter.covers hcov₀) (hafter.room hcov₀ (hroom₀ hroom))
        (fun m hm s' hs' hx => hafter.free hcov₀ hm (hfree₀ m hm (fun hx' => by
          cases hx.symm.trans hx'
          exact hnotin hs') (hfree m hm s' (List.mem_cons_of_mem _ hs') hx))) V₁'
    exact ⟨Δ₂', V₂', hlets.append (.cons hone hall), hthrough.covers,
      hthrough.outer.trans hafter.outer.1, hthrough.outer'.trans (hafter.outer.2.trans hdrop₀)⟩

end Steps

section Control

/-- Nothing of a statement that declares a variable is a block. -/
theorem not_varDecl_of_isBlock (h : p.isBlock i ∨ i = 0) (d : NodeId) :
    p.shape? i ≠ some (.stmt (.varDecl d)) := by
  rintro hs
  rcases h with h | rfl
  · simp [Arena.isBlock, Arena.block?, hs, Shape.block?] at h
  · cases hs

/-- A block of its own leaves what is in scope as it is. -/
theorem Follows.block (h : Φ.Follows Δ Δ₁ (.one i)) (hi : i ≠ 0 → p.inTree i = true)
    (hb : p.isBlock i ∨ i = 0) (hij : Comes ms b.toArena origin i j) (hcov : Φ.Covers Δ Δ')
    (V : List ShaderLoom.Made) :
    ∃ V₁, Ranges b.build.toArena M' E' Φ.Found Δ' V (.one j) Δ' V₁ ∧ Δ₁ = Δ := by
  obtain ⟨Δ₁', V₁, hrange, hafter⟩ := h hi hij hcov (Φ.readyBefore_block hb)
    (fun ⟨d, hd⟩ => absurd hd (not_varDecl_of_isBlock hb d)) V
  obtain ⟨rfl, rfl⟩ := hafter.same (not_varDecl_of_isBlock hb)
  exact ⟨V₁, hrange, rfl⟩

/-- So does what stands after `else`. -/
theorem Follows.otherwise {c d e e' : NodeId} (hi : p.inTree i = true)
    (hs : p.shape? i = some (.stmt (.ifElse c d e))) (h : Φ.Follows Δ Δ₁ (.one e))
    (hee : Comes ms b.toArena origin e e') (hcov : Φ.Covers Δ Δ') (V : List ShaderLoom.Made) :
    ∃ V₁, Ranges b.build.toArena M' E' Φ.Found Δ' V (.one e') Δ' V₁ ∧ Δ₁ = Δ := by
  have hin : e ≠ 0 → p.inTree e = true := Φ.inTree_slot hi hs (by simp [Shape.slots])
  rcases (Φ.tidy _ _ hi hs).2 with h0 | hb | ⟨c', d', o, hif⟩
  · exact h.block hin (.inr h0) hee hcov V
  · exact h.block hin (.inl hb) hee hcov V
  · have h0 := Arena.ne_zero_of_shape hif
    have hparent := (Φ.fit.treeShaped Φ.counted).parent hi
      (Program.mem_children_of_slot hs (c := e) (by simp [Shape.slots]) h0)
    have hnot : ∀ x, p.shape? e ≠ some (.stmt (.varDecl x)) :=
      fun x hx => by cases hif.symm.trans hx
    have hpre : Φ.ReadyBefore Δ Δ' e := by
      rintro m hm (⟨-, -, helse⟩ | ⟨c'', t, body, hfor⟩)
      · simp [isElseOf, hif, hparent, hs] at helse
      · cases hif.symm.trans hfor
    obtain ⟨Δ₁', V₁, hrange, hafter⟩ :=
      h hin hee hcov hpre (fun hvar => hvar.elim fun x hx => absurd hx (hnot x)) V
    obtain ⟨rfl, rfl⟩ := hafter.same hnot
    exact ⟨V₁, hrange, rfl⟩

theorem follows_ifElse {c d e : NodeId} {t : Option Ty}
    (hs : p.shape? i = some (.stmt (.ifElse c d e))) (hread : Reads p.toArena M E F Δ (.one c t))
    (ih₁ : Φ.Follows Δ Δ₁ (.one d)) (ih₂ : Φ.Follows Δ₁ Δ₂ (.one e)) : Φ.Follows Δ Δ₂ (.one i) := by
  intro hi j Δ' hij hcov hpre _ V
  have hin := hi (Arena.ne_zero_of_shape hs)
  have hnotLoop := isLoopHeader_eq_false hs rfl
  -- the same for the conditional itself and for its lowered form, in whose block the declarations
  -- come first
  have hparts : ∀ {c' d' e' j' Δ' V}, Comes ms b.toArena origin c c' →
      Comes ms b.toArena origin d d' →
      Comes ms b.toArena origin e e' → b.build.shape? j' = some (.stmt (.ifElse c' d' e')) →
      Φ.Covers Δ Δ' →
      (∀ m ∈ ms, p.statementOf m.expr = i → Φ.Ready Δ Δ' m) →
      ∃ V₁, Ranges b.build.toArena M' E' Φ.Found Δ' V (.one j') Δ' V₁ ∧ Δ₂ = Δ := by
    intro c' d' e' j' Δ' V hc hd he hj hcov hready
    obtain ⟨u, hu, -⟩ := reads hcov hread (Φ.situated hin hs (by simp [Shape.slots]) hc)
      (Φ.readyIn hin (.ifElse hs) hready)
    obtain ⟨V₁, hthen, rfl⟩ := ih₁.block (Φ.inTree_slot hin hs (by simp [Shape.slots]))
      (.inl (Φ.tidy _ _ hin hs).1) hd hcov V
    obtain ⟨V₂, helse, rfl⟩ := ih₂.otherwise hin hs he hcov V₁
    exact ⟨V₂, .ifElse hj hu hthen helse, rfl⟩
  by_cases helse : ElseWith p ms i
  · cases Φ.lowered_else hij helse hs with
    | @block c' d' e' inner _ hc hd he hinner hj =>
      have hplaced : ∀ m ∈ ms, p.statementOf m.expr = i → place p m.expr = some (.otherwise i) := by
        obtain ⟨m₀, -, hplace₀⟩ := helse
        rintro m - rfl
        exact place_otherwise (suits_of_place hplace₀)
      obtain ⟨Δ₀', V₀, hlets, hcov₀, hready, -, hdrop, -⟩ :=
        lets (x := .otherwise i) (fun m hm hx => by
          obtain ⟨h0, -, r, hr, hcomp⟩ := Φ.reading hm
          obtain ⟨hstmt, -⟩ := from_of_place (Φ.fit.treeShaped Φ.counted) Φ.tidy hx
          rw [hstmt] at hr
          cases hr with
          | ifElse hs' =>
            cases hs.symm.trans hs'
            exact hread.comprised hcomp
          | simple hx hes =>
            cases hs.symm.trans hx
            cases hes
          | initializer hx | forLoop hx | whileLoop hx => cases hs.symm.trans hx)
        hcov.opened_right (fun _ _ _ => Levels.free_opened _ _) V
      obtain ⟨V₂, hrange, rfl⟩ := hparts (V := V₀) hc hd he hinner hcov₀ fun m hm hstmt =>
        hready m hm (hplaced m hm hstmt)
      refine ⟨_, V₂, .block hj (hlets.append (.cons hrange .nil)), .inl ⟨rfl, hdrop⟩⟩
  · obtain ⟨y, hy, hrel⟩ := Φ.plain hs hij (fun h => by
      rw [h.isLoopHeader] at hnotLoop
      cases hnotLoop) helse
    cases hrel with
    | ifElse hc hd he =>
      have hready : ∀ m ∈ ms, p.statementOf m.expr = i → Φ.Ready Δ Δ' m := by
        rintro m hm rfl
        refine hpre m hm (.inl ⟨rfl, hnotLoop, ?_⟩)
        by_contra h
        exact helse ⟨m, hm, place_otherwise (by simpa using h)⟩
      obtain ⟨V₂, hrange, rfl⟩ := hparts (V := V) hc hd he hy hcov hready
      exact ⟨Δ', V₂, hrange, .inl ⟨rfl, rfl⟩⟩

theorem follows_loop {body cont : NodeId} (hs : p.shape? i = some (.stmt (.loop body cont)))
    (ih₁ : Φ.Follows ([] :: Δ) Δ₁ (.body body)) (ih₂ : Φ.Follows Δ₁ Δ₂ (.one cont)) :
    Φ.Follows Δ (Δ₂.drop 1) (.one i) := by
  intro hi j Δ' hij hcov _ _ V
  have hin := hi (Arena.ne_zero_of_shape hs)
  obtain ⟨hbody, hcont⟩ := Φ.tidy _ _ hin hs
  obtain ⟨y, hy, hrel⟩ := Φ.plain_of hs hij rfl nofun
  cases hrel with
  | loop hb hk =>
    have hbody0 : body ≠ 0 := by
      rintro rfl
      simp [Arena.isBlock, Arena.block?, Arena.shape?] at hbody
    obtain ⟨Δ₁', V₁', hb', hthrough⟩ :=
      ih₁ (Φ.inTree_slot hin hs (by simp [Shape.slots]) hbody0) hbody hb hcov.opened
      (room_opened _ _) (fun _ _ => Levels.free_opened _ _) V
    obtain ⟨V₂', hk', rfl⟩ :=
      ih₂.block (Φ.inTree_slot hin hs (by simp [Shape.slots])) hcont.symm hk hthrough.covers V₁'
    exact ⟨_, V₂', .loop hy hb' hk', .inl ⟨hthrough.outer, hthrough.outer'⟩⟩

section Header

variable {x : StmtShape NodeId} {l : Header} (hs : p.shape? i = some (.stmt x))
    (hx : header? x = some l)
include hs hx

omit hs in
theorem Header.slots :
    l.condition ∈ (Shape.stmt (ν := Symbol) x).slots ∧ l.body ∈ (Shape.stmt (ν := Symbol) x).slots ∧
    (l.init ≠ 0 → l.init ∈ (Shape.stmt (ν := Symbol) x).slots) ∧
    (l.continuing ≠ 0 → l.continuing ∈ (Shape.stmt (ν := Symbol) x).slots) := by
  cases x <;> cases hx <;> simp [Shape.slots]

theorem reading_condition {a : NodeId} (h : Reading p.toArena i a) : a = l.condition := by
  cases h with
  | simple hy hes =>
    cases hs.symm.trans hy
    cases x <;> first | (cases hx; done) | cases hes
  | initializer hy | ifElse hy =>
    cases hs.symm.trans hy
    cases hx
  | forLoop hy | whileLoop hy =>
    cases hs.symm.trans hy
    cases hx
    rfl

theorem Header.reading : Reading p.toArena i l.condition := by
  cases x with
  | forLoop =>
    cases hx
    exact .forLoop hs
  | whileLoop =>
    cases hx
    exact .whileLoop hs
  | _ => cases hx

/-- The test of a lowered loop is resolved where what its condition needs is in scope. -/
theorem tests_follow (hin : p.inTree i = true) {tests : List NodeId}
    (h : Tests b.build.toArena (Comes ms b.toArena origin) l.condition tests) {t : Option Ty}
    (hread : Reads p.toArena M E F Δ (.one l.condition t)) (hcov : Φ.Covers Δ Δ')
    (hready : ∀ m ∈ ms, p.statementOf m.expr = i → Φ.Ready Δ Δ' m) (V : List ShaderLoom.Made) :
    Ranges b.build.toArena M' E' Φ.Found Δ' V (.all tests) Δ' V := by
  cases h with
  | none => exact .nil
  | test _ hc hnegated hleave hbody htest =>
    obtain ⟨u, hu, -⟩ := reads hcov hread (Φ.situated hin hs (Header.slots hx).1 hc)
      (Φ.readyIn hin (Header.reading hs hx) hready)
    have hneg : Reads b.build.toArena M' E' Φ.Found Δ' (.one _ _) :=
      .plain hnegated (.cons hu .nil) rfl fun g args hg => by
      cases hnegated.symm.trans hg
    exact .cons (.ifElse htest hneg (.block hbody (.cons (.simple hleave rfl .nil) .nil)) .absent)
      .nil

/-- A lowered loop is resolved, whose parts are. -/
theorem looped_follow (hin : p.inTree i = true)
    (h : Looped b.build.toArena (Comes ms b.toArena origin) (pending p ms i) l j)
    (hblock : p.isBlock l.body) {t : Option Ty}
    (hread : Reads p.toArena M E F Δ (.one l.condition t)) (hcov : Φ.Covers Δ Δ')
    (hbody : Φ.Follows Δ Δ₁ (.one l.body))
    (hcont : l.continuing ≠ 0 → (∃ init c b, x = .forLoop init c l.continuing b) ∧
      ∃ Δ₂, Φ.Follows Δ Δ₂ (.one l.continuing) ∧ ∃ V V₁,
        Ranges p.toArena M E F Δ V (.one l.continuing) Δ₂ V₁) (V : List ShaderLoom.Made) :
    ∃ V₁, Ranges b.build.toArena M' E' Φ.Found Δ' V (.one j) Δ' V₁ := by
  have ht := Φ.fit.treeShaped Φ.counted
  have hloop : isLoopHeader p i = true := isLoopHeader_iff.2 ⟨x, l, hs, hx⟩
  obtain ⟨-, hslotBody, -, hslotCont⟩ := Header.slots hx
  cases h with
  | @loop tests inner whole k _ htests hinner hwhole hk hj =>
    obtain ⟨Δ₀', V₀, hlets, hcov₀, hready, -, hdrop, -⟩ :=
      lets (x := .condition i) (fun m hm hplace => by
        obtain ⟨-, -, r, hr, hcomp⟩ := Φ.reading hm
        obtain ⟨hstmt, -⟩ := from_of_place ht Φ.tidy hplace
        rw [hstmt] at hr
        exact hread.comprised (reading_condition hs hx hr ▸ hcomp))
      hcov.opened_right (fun _ _ _ => Levels.free_opened _ _) V
    have htests' := tests_follow hs hx hin htests hread hcov₀ (fun m hm hstmt => hready m hm
      (hstmt ▸ place_condition (hstmt.symm ▸ hloop))) V₀
    obtain ⟨V₁, hinner', -⟩ :=
      hbody.block (Φ.inTree_slot hin hs hslotBody) (.inl hblock) hinner hcov₀ V₀
    have hbody' : Ranges b.build.toArena M' E' Φ.Found ([] :: Δ') V (.body whole) Δ₀' V₁ :=
      .opened (by simp [Arena.block?, hwhole, Shape.block?, pending])
        ((hlets.append htests').append (.cons hinner' .nil))
    suffices ∃ V₂, Ranges b.build.toArena M' E' Φ.Found Δ₀' V₁ (.one k) Δ₀' V₂ by
      obtain ⟨V₂, hk'⟩ := this
      have hranges := Ranges.loop hj hbody' hk'
      rw [hdrop] at hranges
      exact ⟨V₂, hranges⟩
    cases hk with
    | none => exact ⟨V₁, .absent⟩
    | @block last _ h0 hlast hk =>
      obtain ⟨⟨init, c, body, rfl⟩, Δ₂, hfollows, W, W₁, hrange⟩ := hcont h0
      have hsimple := (Φ.tidy _ _ hin hs).2.1.resolve_left h0
      obtain ⟨Δ₁', V₂, hlets', hcov₁, hready', hroom, hdrop', -⟩ :=
        lets (x := .continuing i) (fun m hm hplace => by
          obtain ⟨-, -, r, hr, hcomp⟩ := Φ.reading hm
          obtain ⟨init', c', body', hs'⟩ := from_of_place ht Φ.tidy hplace
          have hstmt : l.continuing = p.statementOf m.expr := by
            have heq := hs.symm.trans hs'
            simp only [Option.some.injEq, Shape.stmt.injEq, StmtShape.forLoop.injEq] at heq
            exact heq.2.2.1
          rw [← hstmt] at hr
          refine (hrange.reads hr fun _ _ _ _ hfor => ?_).elim fun _ hr' => hr'.comprised hcomp
          have hnot := (of_isSimple hsimple).1
          rw [isLoopHeader_of_forLoop hfor] at hnot
          cases hnot)
        hcov₀.opened_right (fun _ _ _ => Levels.free_opened _ _) V₁
      obtain ⟨Δ₂', V₃, hlast', hafter⟩ := hfollows (Φ.inTree_slot hin hs (hslotCont h0)) hlast hcov₁
        (fun m hm hpre => hready' m hm (place_continuing ht Φ.tidy hin hs h0 hpre))
        (fun _ => hroom (room_opened _ _)) V₂
      have hblock' := Ranges.block hk (hlets'.append (.cons hlast' .nil))
      rw [hafter.outer.2.trans hdrop'] at hblock'
      exact ⟨V₃, hblock'⟩

end Header

/-- The expressions of a loop's condition stay in it, if nothing was put into the loop. -/
theorem readyIn_condition {x : StmtShape NodeId} {l : Header} (hs : p.shape? i = some (.stmt x))
    (hx : header? x = some l) (hin : p.inTree i = true) (hloop : ¬ LoopWith p ms i) :
    Φ.ReadyIn Δ Δ' l.condition :=
  Φ.readyIn hin (Header.reading hs hx) fun m hm hstmt =>
    absurd ⟨m, hm, .inl (hstmt ▸ place_condition (hstmt.symm ▸
    isLoopHeader_iff.2 ⟨x, l, hs, hx⟩))⟩ hloop

theorem follows_whileLoop {c body : NodeId} {t : Option Ty}
    (hs : p.shape? i = some (.stmt (.whileLoop c body)))
    (hread : Reads p.toArena M E F Δ (.one c t)) (h : Ranges p.toArena M E F Δ V (.one body) Δ₁ V₁)
    (ih : Φ.Follows Δ Δ₁ (.one body)) : Φ.Follows Δ Δ₁ (.one i) := by
  intro hi j Δ' hij hcov _ _ V
  have hin := hi (Arena.ne_zero_of_shape hs)
  have hblock := Φ.tidy _ _ hin hs
  obtain rfl := h.of_isBlock hblock
  by_cases hloop : LoopWith p ms i
  · cases Φ.lowered_loop hij hloop hs rfl with
    | bare _ hlooped =>
      obtain ⟨V₁, hrange⟩ :=
        looped_follow hs rfl hin hlooped hblock hread hcov ih (fun h => absurd rfl h) V
      exact ⟨Δ', V₁, hrange, .inl ⟨rfl, rfl⟩⟩
    | after h0 => exact absurd rfl h0
  · obtain ⟨y, hy, hrel⟩ := Φ.plain hs hij hloop fun h => by
      obtain ⟨_, _, _, hif⟩ := h.isIf
      cases hs.symm.trans hif
    cases hrel with
    | whileLoop hc hb =>
      obtain ⟨u, hu, -⟩ := reads hcov hread (Φ.situated hin hs (by simp [Shape.slots]) hc)
        (readyIn_condition hs rfl hin hloop)
      obtain ⟨V₁, hrange, -⟩ :=
        ih.block (Φ.inTree_slot hin hs (by simp [Shape.slots])) (.inl hblock) hb hcov V
      exact ⟨Δ', V₁, .whileLoop hy hu hrange, .inl ⟨rfl, rfl⟩⟩

theorem follows_forLoop {init c cont body : NodeId} {t : Option Ty} {Δ₃ : Levels}
    {V₂ V₃ : List ShaderLoom.Made} (hs : p.shape? i = some (.stmt (.forLoop init c cont body)))
    (hfirst : Ranges p.toArena M E F ([] :: Δ) V (.one init) Δ₁ V₁)
    (hread : Reads p.toArena M E F Δ₁ (.one c t))
    (hbody : Ranges p.toArena M E F Δ₁ V₁ (.one body) Δ₂ V₂)
    (hcont : Ranges p.toArena M E F Δ₂ V₂ (.one cont) Δ₃ V₃)
    (ih₁ : Φ.Follows ([] :: Δ) Δ₁ (.one init)) (ih₂ : Φ.Follows Δ₁ Δ₂ (.one body))
    (ih₃ : Φ.Follows Δ₂ Δ₃ (.one cont)) : Φ.Follows Δ (Δ₃.drop 1) (.one i) := by
  intro hi j Δ' hij hcov hpre _ V
  have ht := Φ.fit.treeShaped Φ.counted
  have hin := hi (Arena.ne_zero_of_shape hs)
  obtain ⟨hinit, hsimple, hblock⟩ := Φ.tidy _ _ hin hs
  obtain rfl := hbody.of_isBlock hblock
  have hinitIn : init ≠ 0 → p.inTree init = true := Φ.inTree_slot hin hs (by simp [Shape.slots])
  have hcontIn : cont ≠ 0 → p.inTree cont = true := Φ.inTree_slot hin hs (by simp [Shape.slots])
  -- what goes before the initializer goes before the loop
  have hbefore : Φ.ReadyBefore ([] :: Δ) ([] :: Δ') init := by
    intro m hm hpreInit
    refine (hpre m hm ?_).of_find (fun _ => rfl) rfl
    rcases hpreInit with ⟨hstmt, -, -⟩ | ⟨c', t', b', hfor⟩
    · exact .inr ⟨c, cont, body, hstmt ▸ hs⟩
    · have hnot := (of_isSimple (hinit.resolve_left (Arena.ne_zero_of_shape hfor))).1
      rw [isLoopHeader_of_forLoop hfor] at hnot
      cases hnot
  have hinit' : ∀ {first : NodeId} V, Comes ms b.toArena origin init first → ∃ Δ₁' V₁',
      Ranges b.build.toArena M' E' Φ.Found ([] :: Δ') V (.one first) Δ₁' V₁' ∧
      Φ.After init ([] :: Δ) ([] :: Δ') Δ₂ Δ₁' :=
    fun V hcomes => ih₁ hinitIn hcomes hcov.opened hbefore (fun _ => room_opened _ _) V
  have hlooped : ∀ {Δ₁' : Levels} {l : NodeId} V,
      Looped b.build.toArena (Comes ms b.toArena origin) (pending p ms i)
      ⟨init, c, cont, body⟩ l → Φ.Covers Δ₂ Δ₁' →
        ∃ V₁, Ranges b.build.toArena M' E' Φ.Found Δ₁' V (.one l) Δ₁' V₁ :=
    fun V hl hcov => looped_follow hs rfl hin hl hblock hread hcov ih₂
      (fun _ => ⟨⟨_, _, _, rfl⟩, _, ih₃, _, _, hcont⟩) V
  suffices ∃ V₁, Ranges b.build.toArena M' E' Φ.Found Δ' V (.one j) Δ' V₁ from
    this.elim fun V₁ hrange => ⟨Δ', V₁, hrange, .inl ⟨hcont.drop_one.trans hfirst.drop_one, rfl⟩⟩
  by_cases hloop : LoopWith p ms i
  · cases Φ.lowered_loop hij hloop hs rfl with
    | bare h0 hl =>
      obtain rfl := hfirst.of_zero h0
      exact hlooped V hl hcov.opened_left
    | after _ hf hl hj =>
      obtain ⟨Δ₁', V₁', hf', hafter⟩ := hinit' V hf
      obtain ⟨V₂', hl'⟩ := hlooped V₁' hl (hafter.covers hcov.opened)
      have hblock' := Ranges.block hj (.cons hf' (.cons hl' .nil))
      rw [hafter.outer.2] at hblock'
      exact ⟨V₂', hblock'⟩
  · obtain ⟨y, hy, hrel⟩ := Φ.plain hs hij hloop fun h => by
      obtain ⟨_, _, _, hif⟩ := h.isIf
      cases hs.symm.trans hif
    cases hrel with
    | forLoop hf hc hk hb =>
      obtain ⟨Δ₁', V₁', hf', hafter⟩ := hinit' V hf
      have hcov' := hafter.covers hcov.opened
      obtain ⟨u, hu, -⟩ := reads hcov' hread (Φ.situated hin hs (by simp [Shape.slots]) hc)
        (readyIn_condition hs rfl hin hloop)
      obtain ⟨V₂', hb', -⟩ :=
        ih₂.block (Φ.inTree_slot hin hs (by simp [Shape.slots])) (.inl hblock) hb hcov' V₁'
      have hready : Φ.ReadyBefore Δ₂ Δ₁' cont := by
        intro m hm hpreCont
        by_cases h0 : cont = 0
        · exact Φ.readyBefore_block (.inr h0) m hm hpreCont
        · exact absurd ⟨m, hm, .inr (place_continuing ht Φ.tidy hin hs h0 hpreCont)⟩ hloop
      obtain ⟨Δ₂', V₃', hk', hafter'⟩ :=
        ih₃ hcontIn hk hcov' hready (fun _ => hafter.room hcov.opened (room_opened _ _)) V₂'
      have hrange := Ranges.forLoop hy hf' hu hb' hk'
      rw [hafter'.outer.2.trans hafter.outer.2] at hrange
      exact ⟨V₃', hrange⟩

end Control

/-- What is resolved in bodies of the source is resolved in the bodies that are made of them. -/
theorem ranges_follow {part : Part} (h : Ranges p.toArena M E F Δ V part Δ₁ V₁) :
    Φ.Follows Δ Δ₁ part := by
  induction h with
  | @absent Δ =>
    intro _ j Δ' hij _ _ _ V
    obtain rfl : j = 0 := by
      rcases hij with ⟨-, rfl⟩ | ⟨h0, -⟩
      · rfl
      · exact absurd rfl h0
    exact ⟨Δ', V, .absent, .inl ⟨rfl, rfl⟩⟩
  | simple hs hes hread => exact follows_simple hs hes hread
  | varDecl hs hv hd => exact follows_varDecl hs hv hd
  | stray hs hv => exact follows_stray hs hv
  | block hs _ ih => exact follows_block hs ih
  | ifElse hs hread _ _ ih₁ ih₂ => exact follows_ifElse hs hread ih₁ ih₂
  | forLoop hs hfirst hread hbody hcont ih₁ ih₂ ih₃ =>
    exact follows_forLoop hs hfirst hread hbody hcont ih₁ ih₂ ih₃
  | whileLoop hs hread hbody ih => exact follows_whileLoop hs hread hbody ih
  | loop hs _ _ ih₁ ih₂ => exact follows_loop hs ih₁ ih₂
  | opened hb _ ih => exact follows_opened hb ih
  | lacking hb =>
    intro _ hblock
    rw [Arena.isBlock, hb] at hblock
    cases hblock
  | nil => exact follows_nil
  | cons h _ ih₁ ih₂ => exact follows_cons h ih₁ ih₂
end Remade
end Hoist
end ShaderLoom
