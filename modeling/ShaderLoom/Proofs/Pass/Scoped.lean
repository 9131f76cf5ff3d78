import ShaderLoom.Proofs.Pass.Precedence

/-! What is in scope in the program that hoisting makes. Statement by statement, the names of the
source are in scope where they were, and the declarations of moved expressions are in scope where
these are referred to. -/
namespace ShaderLoom

namespace Levels

/-- The innermost level does not have the name yet. -/
def Free (Δ : Levels) (s : Symbol) : Prop := ∀ x ∈ Δ.headD [], x.name ≠ s

/-- The levels with one more variable in the innermost one. -/
def push : Levels → Local → Levels
  | [], _ => []
  | top :: rest, x => (x :: top) :: rest

variable {Δ Δ₁ : Levels} {x : Local} {s : Symbol}

/-- A declaration is taken in where its name is new. -/
theorem enter_eq_some : Δ.enter x = some Δ₁ ↔ Δ.Free x.name ∧ Δ₁ = Δ.push x := by
  cases Δ with
  | nil => simp [enter, push, Free, eq_comm]
  | cons top rest =>
    have hfree : (top.find? (·.name == x.name)).isSome = true ↔ ¬ Free (top :: rest) x.name := by
      simp [Free]
    rw [enter]
    split
    · next hsome => simp [hfree.1 hsome]
    · next hnone => simp [push, not_not.1 (mt hfree.2 hnone), eq_comm]

/-- A declaration is found under its name, and other names are found as before. -/
theorem find?_push (h0 : Δ ≠ []) :
    (Δ.push x).find? s = if x.name = s then some x else Δ.find? s := by
  cases Δ with
  | nil => exact absurd rfl h0
  | cons top rest => by_cases hs : x.name = s <;> simp [push, find?, List.findSome?_cons, hs]

theorem free_push (h0 : Δ ≠ []) : (Δ.push x).Free s ↔ x.name ≠ s ∧ Δ.Free s := by
  cases Δ with
  | nil => exact absurd rfl h0
  | cons top rest => simp [push, Free]

theorem push_ne_nil (h0 : Δ ≠ []) : Δ.push x ≠ [] := by
  cases Δ with
  | nil => exact absurd rfl h0
  | cons top rest => exact List.cons_ne_nil _ _

theorem drop_push (Δ : Levels) (x : Local) : (Δ.push x).drop 1 = Δ.drop 1 := by
  cases Δ <;> rfl

@[simp] theorem find?_opened (Δ : Levels) (s : Symbol) : find? ([] :: Δ) s = Δ.find? s := rfl

theorem free_opened (Δ : Levels) (s : Symbol) : Free ([] :: Δ) s := nofun

end Levels

/-- What is read depends on what is found under names. -/
theorem Reads.of_find {a : Arena} {M : Frame} {E : Table} {F : NodeId → ExprFacts → Prop}
    {Δ Δ₁ : Levels} {f : ExprFinding} (h : Reads a M E F Δ f) (hΔ : ∀ s, Δ.find? s = Δ₁.find? s) :
    Reads a M E F Δ₁ f := by
  induction h with
  | absent => exact .absent
  | ident hs hscope hF =>
    refine .ident hs ?_ hF
    rwa [inScope, ← hΔ]
  | plain hx _ hcompose hF ih => exact .plain hx ih hcompose hF
  | call hx _ hk hF ih => exact .call hx ih hk hF
  | nil => exact .nil
  | cons _ _ ih₁ ih₂ => exact .cons ih₁ ih₂

namespace Hoist

/-- A program and the program that hoisting makes of it, with the declarations of their modules. -/
structure Remaking (p : Program) (M : Frame) (ms : List Moved) (b : Builder)
    (origin : NodeId → NodeId) (M' : Frame) : Prop where
  hoisted : Hoisted p ms b origin
  fit : p.Fit
  counted : p.Counted
  walked : p.Walked
  rooted : p.Rooted M
  scene : p.scene.module = M
  bodies : FromBodies p ms
  tidy : p.Tidy
  modules : List.Forall₂ (fun x y => SameName p b.toArena x.1 y.1 ∧
    Stands p ms b.build origin x.2 y.2) M M'

namespace Remaking

variable {p : Program} {M M' : Frame} {ms : List Moved} {b : Builder} {origin : NodeId → NodeId}

/-- The program that is made follows the source. -/
def kin (Φ : Remaking p M ms b origin M') (F : NodeId → ExprFacts → Prop) :
    Kinship p.toArena b.build.toArena M M' F :=
  Φ.hoisted.kinship Φ.fit Φ.counted Φ.rooted Φ.bodies F Φ.modules

/-- What is found out about calls in the program that is made is what was found out about calls of
the source. -/
def Found (Φ : Remaking p M ms b origin M') (F : NodeId → ExprFacts → Prop) (j : NodeId)
    (e' : ExprFacts) : Prop :=
  ∀ g args, b.build.shape? j = some (.expr (.call g args)) →
    ∃ i e, Stands p ms b.build origin i j ∧ F i e ∧ (Φ.kin F).Senses e e'

theorem allows (Φ : Remaking p M ms b origin M') (F : NodeId → ExprFacts → Prop) :
    (Φ.kin F).Allows (Φ.Found F) :=
  fun hij he hs _ _ _ => ⟨_, _, hij, he, hs⟩

end Remaking

/-- The same, where the declarations of the modules and the heads of functions are resolved. -/
structure Remade (p : Program) (M : Frame) (F : NodeId → ExprFacts → Prop) (E : Table)
    (ms : List Moved) (b : Builder) (origin : NodeId → NodeId) (M' : Frame) (E' : Table) :
    Prop extends Remaking p M ms b origin M' where
  tables : (toRemaking.kin F).Tables E E'

namespace Remade

variable {p : Program} {M M' : Frame} {F : NodeId → ExprFacts → Prop} {E E' : Table}
    {ms : List Moved} {b : Builder}
  {origin : NodeId → NodeId} (Φ : Remade p M F E ms b origin M' E')

abbrev kin : Kinship p.toArena b.build.toArena M M' F := Φ.toRemaking.kin F

abbrev Found : NodeId → ExprFacts → Prop := Φ.toRemaking.Found F

/-- What is in scope in the source is in scope. -/
def Covers (Δ Δ' : Levels) : Prop :=
  Δ ≠ [] ∧ Δ' ≠ [] ∧ ∀ s s', SameName p b.toArena s s' →
    Option.Rel Φ.kin.Locals (Δ.find? s) (Δ'.find? s')

/-- What can be declared in the source can be declared. -/
def Room (_Φ : Remade p M F E ms b origin M' E') (Δ Δ' : Levels) : Prop :=
  ∀ s s', SameName p b.toArena s s' → Δ.Free s → Δ'.Free s'

/-- The declaration of an expression that was moved is in scope, with the type that the expression
has. -/
def Ready (Δ Δ' : Levels) (m : Moved) : Prop :=
  ∀ t, Reads p.toArena M E F Δ (.one m.expr t) → ∃ n u, inScope M' E' Δ' m.name = some (n, u) ∧
    Kin Φ.kin.node t u

variable {Φ} {Δ Δ' Δ₁ Δ₁' : Levels}

theorem name_ne {m : Moved} (hm : m ∈ ms) (Φ : Remade p M F E ms b origin M' E') {s s' : Symbol}
    (hs : SameName p b.toArena s s') : m.name ≠ s' := by
  rintro rfl
  obtain ⟨x, hx, hnew⟩ := (Φ.hoisted.made m hm).named
  obtain ⟨_, y, hy, hy'⟩ := hs
  rw [hx.name_eq hy'] at hnew
  exact hnew hy.mem

theorem Covers.opened (h : Φ.Covers Δ Δ') : Φ.Covers ([] :: Δ) ([] :: Δ') := ⟨nofun, nofun, h.2.2⟩

theorem Covers.opened_left (h : Φ.Covers Δ Δ') : Φ.Covers ([] :: Δ) Δ' := ⟨nofun, h.2⟩

theorem Covers.opened_right (h : Φ.Covers Δ Δ') : Φ.Covers Δ ([] :: Δ') := ⟨h.1, nofun, h.2.2⟩

/-- A declaration of the source and its counterpart come into scope. -/
theorem Covers.push (h : Φ.Covers Δ Δ') {x y : Local} (hxy : Φ.kin.Locals x y) :
    Φ.Covers (Δ.push x) (Δ'.push y) := by
  refine ⟨Levels.push_ne_nil h.1, Levels.push_ne_nil h.2.1, fun s s' hs => ?_⟩
  have hname : SameName p b.toArena x.name y.name := hxy.name
  have hiff : x.name = s ↔ y.name = s' := by rw [hname.1, hs.1]
  rw [Levels.find?_push h.1, Levels.find?_push h.2.1]
  by_cases hn : x.name = s
  · rw [if_pos hn, if_pos (hiff.1 hn)]
    exact .some hxy
  · rw [if_neg hn, if_neg fun hn' => hn (hiff.2 hn')]
    exact h.2.2 s s' hs

/-- The declaration of a moved expression comes into scope. -/
theorem Covers.declared (h : Φ.Covers Δ Δ') {m : Moved} (hm : m ∈ ms) {y : Local}
    (hname : y.name = m.name) : Φ.Covers Δ (Δ'.push y) := by
  refine ⟨h.1, Levels.push_ne_nil h.2.1, fun s s' hs => ?_⟩
  rw [Levels.find?_push h.2.1, if_neg (hname ▸ Φ.name_ne hm hs)]
  exact h.2.2 s s' hs

theorem room_opened (Δ Δ' : Levels) : Φ.Room Δ ([] :: Δ') :=
  fun _ s' _ _ => Levels.free_opened Δ' s'

theorem Room.push (h : Φ.Room Δ Δ') (hc : Φ.Covers Δ Δ') {x y : Local} (hxy : Φ.kin.Locals x y) :
    Φ.Room (Δ.push x) (Δ'.push y) := by
  intro s s' hs hfree
  have hname : SameName p b.toArena x.name y.name := hxy.name
  rw [Levels.free_push hc.1] at hfree
  rw [Levels.free_push hc.2.1, ← hname.1, ← hs.1]
  exact ⟨hfree.1, hs.1 ▸ h s s' hs hfree.2⟩

theorem Room.declared (h : Φ.Room Δ Δ') (hc : Φ.Covers Δ Δ') {m : Moved} (hm : m ∈ ms) {y : Local}
    (hname : y.name = m.name) : Φ.Room Δ (Δ'.push y) := by
  intro s s' hs hfree
  rw [Levels.free_push hc.2.1]
  exact ⟨hname ▸ Φ.name_ne hm hs, h s s' hs hfree⟩

theorem Ready.of_find (h : Φ.Ready Δ Δ' m) (hΔ : ∀ s, Δ₁.find? s = Δ.find? s)
    (hΔ' : Δ₁'.find? m.name = Δ'.find? m.name) : Φ.Ready Δ₁ Δ₁' m := by
  intro t ht
  obtain ⟨n, u, hscope, hkin⟩ := h t (ht.of_find hΔ)
  exact ⟨n, u, by rwa [inScope, hΔ'], hkin⟩

section Places

/-- The statement around a moved expression holds an expression that comprises it. -/
theorem reading (Φ : Remade p M F E ms b origin M' E') {m : Moved} (hm : m ∈ ms) :
    p.statementOf m.expr ≠ 0 ∧ p.inTree (p.statementOf m.expr) = true ∧
      ∃ r, Reading p.toArena (p.statementOf m.expr) r ∧ p.Comprises r m.expr := by
  obtain ⟨x, hx⟩ := Φ.hoisted.placed m hm
  have hs : p.statementOf m.expr ≠ 0 := fun h0 => by
    rw [place_eq_none h0] at hx
    cases hx
  have hroot : p.Rooted p.scene.module := Φ.scene ▸ Φ.rooted
  exact ⟨hs, hroot.reading Φ.walked (Φ.bodies m hm).2 (Φ.hoisted.expr_ne_zero hm) hs⟩

/-- What a moved expression comprises is in the same statement, and a declaration of it goes to the
same place. -/
theorem place_comprised (Φ : Remade p M F E ms b origin M' E') {m : Moved} (hm : m ∈ ms)
    {e : NodeId} (h : p.Comprises m.expr e) (h0 : e ≠ 0) : place p e = place p m.expr := by
  have hroot : p.Rooted p.scene.module := Φ.scene ▸ Φ.rooted
  have hstmt :=
    ((hroot.statementOf_comprised Φ.walked (Φ.hoisted.inTree_expr hm) h).resolve_left h0).2
  rw [place, place, hstmt]

/-- What is to be declared right before a statement can be read before it. -/
theorem reads_before (Φ : Remade p M F E ms b origin M' E') {m : Moved} (hm : m ∈ ms) {i : NodeId}
    (hi : p.inTree i = true) {V V₁ : List ShaderLoom.Made}
    (h : Ranges p.toArena M E F Δ V (.one i) Δ₁ V₁) (hpre : Precedes p i m.expr) :
    ∃ t, Reads p.toArena M E F Δ (.one m.expr t) := by
  obtain ⟨h0, hin, r, hr, hc⟩ := Φ.reading hm
  suffices ∃ t, Reads p.toArena M E F Δ (.one r t) from this.elim fun _ ht => ht.comprised hc
  rcases hpre with ⟨rfl, hloop, -⟩ | ⟨c, k, body, hs⟩
  · refine h.reads hr fun init c k body hs => ?_
    rw [isLoopHeader_of_forLoop hs] at hloop
    cases hloop
  · have hsimple := (Φ.tidy _ _ hi hs).1.resolve_left h0
    cases h with
    | absent => cases hs
    | simple hy hes =>
      cases hs.symm.trans hy
      cases hes
    | forLoop hy hinit =>
      cases hs.symm.trans hy
      obtain ⟨t, ht⟩ := hinit.reads hr fun init c k body hs' => by
        have hloop := (of_isSimple hsimple).1
        rw [isLoopHeader_of_forLoop hs'] at hloop
        cases hloop
      exact ⟨t, ht.of_find (Levels.find?_opened _)⟩
    | varDecl hy | stray hy | block hy | ifElse hy | whileLoop hy | loop hy =>
      cases hs.symm.trans hy

end Places

section Expressions

/-- Every moved expression in the expression, or every one but the expression itself, has its
declaration in scope. -/
abbrev ReadyIn (Φ : Remade p M F E ms b origin M' E') (Δ Δ' : Levels) (i : NodeId) : Prop :=
  ∀ m ∈ ms, p.Comprises i m.expr → Φ.Ready Δ Δ' m

abbrev ReadyInside (Φ : Remade p M F E ms b origin M' E') (Δ Δ' : Levels) (i : NodeId) : Prop :=
  ∀ m ∈ ms, p.Comprises i m.expr → m.expr ≠ i → Φ.Ready Δ Δ' m

theorem follows (hcov : Φ.Covers Δ Δ') {f : ExprFinding} (h : Reads p.toArena M E F Δ f) :
    Φ.kin.Follows Φ.Found E' Δ' (Φ.ReadyIn Δ Δ') (Φ.ReadyInside Δ Δ') f := by
  refine Kinship.reads_follow (Φ.allows F) Φ.tables _ _ (fun hgood m hm hc _ => hgood m hm hc)
    (fun {i x} hin hx e he m hm hc => ?_)
    (fun {i j s s' n t} _ _ _ _ hs hscope _ =>
      Kinship.inScope_of_find Φ.tables (hcov.2.2 s s' hs) hs hscope)
    (fun {i j t} hgood hmoved hread => ?_) h
  · have h0 := Φ.hoisted.expr_ne_zero hm
    refine hin m hm (.head ⟨x, hx, he⟩ hc)
      (Nat.ne_of_lt (Nat.lt_of_le_of_lt (Φ.fit.le_of_below (hc.below h0)) ?_))
    exact Φ.fit.lt_of_mem_children
      (Program.mem_children_of_slot hx (x.operands_slots.subset he) (hc.ne_zero h0))
  · obtain ⟨m, hm, rfl, hj⟩ := hmoved
    obtain ⟨n, u, hscope, hkin⟩ := hgood m hm .refl t hread
    exact ⟨u, .ident hj hscope (fun g args hg => by cases hj.symm.trans hg), hkin⟩

/-- What is read in the source is read where its moved parts have their declarations in scope. -/
theorem reads (hcov : Φ.Covers Δ Δ') {i j : NodeId} {t : Option Ty}
    (h : Reads p.toArena M E F Δ (.one i t))
    (hij : Stands p ms b.build origin i j ∨ Referred ms b.build i j) (hready : Φ.ReadyIn Δ Δ' i) :
    ∃ u, Reads b.build.toArena M' E' Φ.Found Δ' (.one j u) ∧ Kin Φ.kin.node t u :=
  follows hcov h j (hij.imp (fun hstands => ⟨hstands, fun m hm hc _ => hready m hm hc⟩)
    fun hmoved => ⟨hmoved, hready⟩)

/-- So is the value of a declaration. -/
theorem reads_value (hcov : Φ.Covers Δ Δ') {m : Moved} (hm : m ∈ ms) {t : Option Ty}
    (h : Reads p.toArena M E F Δ (.one m.expr t)) (hready : Φ.ReadyInside Δ Δ' m.expr) :
    ∃ u, Reads b.build.toArena M' E' Φ.Found Δ' (.one m.value u) ∧ Kin Φ.kin.node t u :=
  follows hcov h m.value
    (.inl ⟨.inr ⟨Φ.hoisted.kept_value Φ.fit Φ.counted Φ.rooted Φ.bodies hm, .inr ⟨m, hm, rfl, rfl⟩⟩,
      hready⟩)

theorem readsAll (hcov : Φ.Covers Δ Δ') {is js : List NodeId} {ts : List (Option Ty)}
    (h : Reads p.toArena M E F Δ (.all is ts))
    (hij : List.Forall₂ (Situated p ms b.build origin) is js)
    (hready : ∀ i ∈ is, Φ.ReadyIn Δ Δ' i) :
    ∃ us, Reads b.build.toArena M' E' Φ.Found Δ' (.all js us) := by
  obtain ⟨us, hus, _⟩ := follows hcov h js (hij.imp fun _ _ h => h.cases) hready
  exact ⟨us, hus⟩

end Expressions

section Declarations

/-- A declaration of a moved expression comes into scope where its value can be read. -/
theorem declare (hcov : Φ.Covers Δ Δ') {m : Moved} (hm : m ∈ ms) {t : Option Ty}
    (h : Reads p.toArena M E F Δ (.one m.expr t)) (hready : Φ.ReadyInside Δ Δ' m.expr)
    (hfree : Δ'.Free m.name) (V : List ShaderLoom.Made) :
    ∃ y V', Ranges b.build.toArena M' E' Φ.Found Δ' V (.one m.stmt) (Δ'.push y) V' ∧
      y.name = m.name ∧
      Φ.Ready Δ (Δ'.push y) m := by
  obtain ⟨u, hu, hkin⟩ := reads_value hcov hm h hready
  have hmade := Φ.hoisted.made m hm
  have hvalue : m.value ≠ 0 := Φ.hoisted.ne_zero_of_origin hmade.comes (Φ.hoisted.expr_ne_zero hm)
  have hdecl : b.build.asVariable? m.decl = some ⟨m.kind, m.name, 0, m.value, []⟩ := by
    simp [Arena.asVariable?, Builder.shape?_build_of hmade.decl, Shape.asVariable?]
  refine ⟨⟨m.name, m.decl, V.length, u⟩, _, .varDecl (Builder.shape?_build_of hmade.stmt) hdecl
    (.intro hu (.inferred rfl hvalue) (Levels.enter_eq_some.2 ⟨hfree, rfl⟩)), rfl, fun t' ht' => ?_⟩
  refine ⟨V.length, u, by simp [inScope, Levels.find?_push hcov.2.1], ?_⟩
  rw [(ht'.unique h).1 rfl rfl]
  exact hkin

/-- Further declarations at a place come into scope, where the first ones at it already are. -/
theorem lets_rest {x : Place} (done : List Moved) {rest : List Moved}
    (hat : (ms.filter fun m => place p m.expr = some x) = done ++ rest)
    (hreads : ∀ m ∈ rest, ∃ t, Reads p.toArena M E F Δ (.one m.expr t)) (hcov : Φ.Covers Δ Δ')
    (hdone : ∀ m ∈ done, Φ.Ready Δ Δ' m) (hfree : ∀ m ∈ rest, Δ'.Free m.name)
    (V : List ShaderLoom.Made) :
    ∃ Δ₁' V₁', Ranges b.build.toArena M' E' Φ.Found Δ' V (.all (rest.map (·.stmt))) Δ₁' V₁' ∧
      Φ.Covers Δ Δ₁' ∧
      (∀ m ∈ done ++ rest, Φ.Ready Δ Δ₁' m) ∧ (Φ.Room Δ Δ' → Φ.Room Δ Δ₁') ∧
      Δ₁'.drop 1 = Δ'.drop 1 ∧
      ∀ m ∈ ms, m ∉ rest → Δ'.Free m.name → Δ₁'.Free m.name := by
  induction rest generalizing done Δ' V with
  | nil => exact ⟨Δ', V, .nil, hcov, by simpa using hdone, id, rfl, fun _ _ _ h => h⟩
  | cons m rest ih =>
    have hmem : ∀ m', m' ∈ done ++ m :: rest → m' ∈ ms ∧ place p m'.expr = some x := fun _ h => by
      have := hat ▸ h
      simpa using this
    obtain ⟨hm, hplace⟩ := hmem m (by simp)
    obtain ⟨t, ht⟩ := hreads m List.mem_cons_self
    have hsub : (done ++ m :: rest).Sublist ms := hat ▸ List.filter_sublist
    -- what lies inside the expression was moved before it, to the same place
    have hready : Φ.ReadyInside Δ Δ' m.expr := by
      intro m' hm' hc hne
      have h0 := Φ.hoisted.expr_ne_zero hm'
      have hplace' : place p m'.expr = some x := by rw [Φ.place_comprised hm hc h0, hplace]
      have hlist : m' ∈ done ++ m :: rest := by
        rw [← hat]
        simp [hm', hplace']
      rcases List.mem_append.1 hlist with hlist | hlist
      · exact hdone m' hlist
      · rcases List.mem_cons.1 hlist with rfl | hlist
        · exact absurd rfl hne
        · have hapart := (Φ.hoisted.apart.sublist hsub).sublist (List.sublist_append_right done _)
          exact absurd (hc.below h0) ((List.pairwise_cons.1 hapart).1 m' hlist)
    obtain ⟨y, V₁, hrange, hname, hnew⟩ := declare hcov hm ht hready (hfree m List.mem_cons_self) V
    have hdistinct : ∀ {m'}, m' ∈ ms → m' ≠ m → y.name ≠ m'.name := fun hm' hne heq =>
      hne (List.inj_on_of_nodup_map Φ.hoisted.distinct hm' hm (heq ▸ hname))
    have hnodup : (done ++ m :: rest).Nodup := (List.Nodup.of_map _ Φ.hoisted.distinct).sublist hsub
    obtain ⟨hnodone, hnorest⟩ : m ∉ done ∧ m ∉ rest := by
      rw [List.nodup_append, List.nodup_cons] at hnodup
      exact ⟨fun hd => hnodup.2.2 m hd m List.mem_cons_self rfl, hnodup.2.1.1⟩
    have hfind : ∀ {m'}, m' ∈ ms → m' ≠ m → (Δ'.push y).find? m'.name = Δ'.find? m'.name :=
      fun hm' hne => by
      rw [Levels.find?_push hcov.2.1, if_neg (hdistinct hm' hne)]
    have hdone' : ∀ m' ∈ done ++ [m], Φ.Ready Δ (Δ'.push y) m' := by
      intro m' hm'
      rcases List.mem_append.1 hm' with hm' | hm'
      · exact (hdone m' hm').of_find (fun _ => rfl)
          (hfind (hmem m' (List.mem_append_left _ hm')).1 fun heq => hnodone (heq ▸ hm'))
      · exact List.mem_singleton.1 hm' ▸ hnew
    have hfree' : ∀ m' ∈ rest, (Δ'.push y).Free m'.name :=
      fun m' hm' => (Levels.free_push hcov.2.1).2
      ⟨hdistinct (hmem m' (by simp [hm'])).1 fun heq => hnorest (heq ▸ hm'),
        hfree m' (List.mem_cons_of_mem _ hm')⟩
    obtain ⟨Δ₁', V₁', hranges, hcov', hready', hroom, hdrop, hkept⟩ :=
      ih (done ++ [m]) (by simpa using hat)
      (fun m' hm' => hreads m' (List.mem_cons_of_mem _ hm')) (hcov.declared hm hname)
        hdone' hfree' V₁
    refine ⟨Δ₁', V₁', .cons hrange hranges,
      hcov', by simpa using hready', fun h => hroom (h.declared hcov hm hname),
      hdrop.trans (Levels.drop_push Δ' y), fun m' hm' hrest hfree => ?_⟩
    obtain ⟨hne, hrest⟩ : m' ≠ m ∧ m' ∉ rest := by simpa using hrest
    exact hkept m' hm' hrest ((Levels.free_push hcov.2.1).2 ⟨hdistinct hm' hne, hfree⟩)

/-- The declarations at a place come into scope. -/
theorem lets {x : Place}
    (hreads : ∀ m ∈ ms, place p m.expr = some x → ∃ t, Reads p.toArena M E F Δ (.one m.expr t))
    (hcov : Φ.Covers Δ Δ') (hfree : ∀ m ∈ ms, place p m.expr = some x → Δ'.Free m.name)
    (V : List ShaderLoom.Made) :
    ∃ Δ₁' V₁', Ranges b.build.toArena M' E' Φ.Found Δ' V (.all (declaredAt p ms x)) Δ₁' V₁' ∧
      Φ.Covers Δ Δ₁' ∧
      (∀ m ∈ ms, place p m.expr = some x → Φ.Ready Δ Δ₁' m) ∧ (Φ.Room Δ Δ' → Φ.Room Δ Δ₁') ∧
      Δ₁'.drop 1 = Δ'.drop 1 ∧
      ∀ m ∈ ms, place p m.expr ≠ some x → Δ'.Free m.name → Δ₁'.Free m.name := by
  have hmem : ∀ {m}, m ∈ ms.filter (fun m => place p m.expr = some x) ↔ m ∈ ms ∧
      place p m.expr = some x := by simp
  obtain ⟨Δ₁', V₁', hranges, hcov', hready, hroom, hdrop, hfree'⟩ := lets_rest [] rfl
    (fun m hm => hreads m (hmem.1 hm).1 (hmem.1 hm).2) hcov nofun
    (fun m hm => hfree m (hmem.1 hm).1 (hmem.1 hm).2) V
  exact ⟨Δ₁', V₁', hranges, hcov', fun m hm hx => hready m (hmem.2 ⟨hm, hx⟩), hroom, hdrop,
    fun m hm hx => hfree' m hm fun h => hx (hmem.1 h).2⟩

end Declarations

end Remade
end Hoist
end ShaderLoom
