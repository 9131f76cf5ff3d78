import ShaderLoom.Proofs.Copy.Regime
import ShaderLoom.Proofs.Kinds
import ShaderLoom.Proofs.Meaning.Context
import ShaderLoom.Proofs.Meaning.Internal

/-! Where expressions are read. Whatever resolution finds out about an expression it finds out on
its way through the operands of an expression that a declaration or a statement holds. -/
namespace ShaderLoom

open ShaderLoom.Flow (Nested)

/-- The expressions that a statement holds, itself or in the variable that it declares. -/
inductive Reading (a : Arena) (s : NodeId) : NodeId → Prop
  | simple {x es e} : a.shape? s = some (.stmt x) → x.reads? = some es → e ∈ es → Reading a s e
  | initializer {d v} : a.shape? s = some (.stmt (.varDecl d)) → a.asVariable? d = some v →
    Reading a s v.initializer
  | ifElse {c b e} : a.shape? s = some (.stmt (.ifElse c b e)) → Reading a s c
  | forLoop {i c k b} : a.shape? s = some (.stmt (.forLoop i c k b)) → Reading a s c
  | whileLoop {c b} : a.shape? s = some (.stmt (.whileLoop c b)) → Reading a s c

/-- Blocks hold no expressions themselves. -/
theorem Reading.not_isBlock {a : Arena} {s e : NodeId} (h : Reading a s e) : ¬ a.isBlock s := by
  intro hb
  obtain ⟨ss, hss⟩ := Option.isSome_iff_exists.1 hb
  have hs := Arena.shape?_of_block? hss
  cases h with
  | simple hx hes =>
    cases hs.symm.trans hx
    cases hes
  | initializer hx | ifElse hx | forLoop hx | whileLoop hx => cases hs.symm.trans hx

theorem Flow.Nested.step_trans {a : Arena} {i c s : NodeId} {x : StmtShape NodeId}
    (hx : a.shape? i = some (.stmt x)) (hc : c ∈ Flow.substatements x) (h0 : c ≠ 0)
    (h : Nested a c s) : Nested a i s := by
  induction h with
  | self => exact .step .self hx hc h0
  | step _ hy hd hd0 ih => exact ih.step hy hd hd0

section Reads

variable {a : Arena} {M : Frame} {E : Table} {F F' : NodeId → ExprFacts → Prop} {Δ Δ' : Levels}
    {V V' : List Made}

/-- What is known of the expressions that parts of bodies hold may be asked of all that is read in
them. -/
theorem Ranges.map {A : NodeId → Prop}
    (hreads : ∀ {Δ f}, Reads a M E F Δ f → (∀ e ∈ f.nodes, e ≠ 0 → A e) → Reads a M E F' Δ f)
    {part : Part} (h : Ranges a M E F Δ V part Δ' V')
    (hA : ∀ n ∈ part.nodes, n ≠ 0 → ∀ s, Nested a n s → ∀ e, Reading a s e → e ≠ 0 → A e) :
    Ranges a M E F' Δ V part Δ' V' := by
  have hhere : ∀ {i}, (∀ n ∈ [i], n ≠ 0 → ∀ s, Nested a n s → ∀ e, Reading a s e → e ≠ 0 → A e) →
      i ≠ 0 →
      ∀ e, Reading a i e → e ≠ 0 → A e :=
        fun h h0 e he => h _ (List.mem_singleton_self _) h0 _ .self e he
  have hinside :
      ∀ {i x}, (∀ n ∈ [i], n ≠ 0 → ∀ s, Nested a n s → ∀ e, Reading a s e → e ≠ 0 → A e) →
      a.shape? i = some (.stmt x) → ∀ c ∈ Flow.substatements x,
        c ≠ 0 → ∀ s, Nested a c s → ∀ e, Reading a s e → e ≠ 0 → A e :=
    fun h hx c hc h0 s hs e he => h _ (List.mem_singleton_self _) (Arena.ne_zero_of_shape hx) s
      (Nested.step_trans hx hc h0 hs) e he
  induction h with
  | absent => exact .absent
  | @simple Δ V i s es ts hs hes hread =>
    exact .simple hs hes
      (hreads hread fun e he => hhere hA (Arena.ne_zero_of_shape hs) e (.simple hs hes he))
  | varDecl hs hv hd =>
    obtain ⟨hread, hvalue, henter⟩ := hd
    refine .varDecl hs hv ⟨hreads hread ?_, hvalue, henter⟩
    simpa using hhere hA (Arena.ne_zero_of_shape hs) _ (.initializer hs hv)
  | stray hs hnone => exact .stray hs hnone
  | block hs _ ih => exact .block hs (ih (hinside hA hs))
  | ifElse hs hread _ _ ih₁ ih₂ =>
    have hsub := hinside hA hs
    refine .ifElse hs (hreads hread ?_) (ih₁ ?_) (ih₂ ?_)
    · simpa using hhere hA (Arena.ne_zero_of_shape hs) _ (.ifElse hs)
    · simpa using hsub _ (by simp [Flow.substatements])
    · simpa using hsub _ (by simp [Flow.substatements])
  | forLoop hs _ hread _ _ ih₁ ih₂ ih₃ =>
    have hsub := hinside hA hs
    refine .forLoop hs (ih₁ ?_) (hreads hread ?_) (ih₂ ?_) (ih₃ ?_)
    · simpa using hsub _ (by simp [Flow.substatements])
    · simpa using hhere hA (Arena.ne_zero_of_shape hs) _ (.forLoop hs)
    · simpa using hsub _ (by simp [Flow.substatements])
    · simpa using hsub _ (by simp [Flow.substatements])
  | whileLoop hs hread _ ih =>
    have hsub := hinside hA hs
    refine .whileLoop hs (hreads hread ?_) (ih ?_)
    · simpa using hhere hA (Arena.ne_zero_of_shape hs) _ (.whileLoop hs)
    · simpa using hsub _ (by simp [Flow.substatements])
  | loop hs _ _ ih₁ ih₂ =>
    have hsub := hinside hA hs
    refine .loop hs (ih₁ ?_) (ih₂ ?_)
    · simpa using hsub _ (by simp [Flow.substatements])
    · simpa using hsub _ (by simp [Flow.substatements])
  | @opened Δ Δ' V V' b ss hb _ ih =>
    have hs := Arena.shape?_of_block? hb
    exact .opened hb (ih (hinside hA hs))
  | lacking hb => exact .lacking hb
  | nil => exact .nil
  | cons _ _ ih₁ ih₂ =>
    exact .cons (ih₁ (by simpa using fun h0 => hA _ List.mem_cons_self h0))
      (ih₂ fun n hn => hA n (List.mem_cons_of_mem _ hn))

theorem Takes.map {A : NodeId → Prop}
    (hreads : ∀ {Δ f}, Reads a M E F Δ f → (∀ e ∈ f.nodes, e ≠ 0 → A e) → Reads a M E F' Δ f)
    {ds : List NodeId} (h : Takes a M E F ds Δ V Δ' V')
    (hA : ∀ d ∈ ds, ∀ v, a.asVariable? d = some v → v.initializer ≠ 0 → A v.initializer) :
    Takes a M E F' ds Δ V Δ' V' := by
  induction h with
  | nil => exact .nil
  | cons hv hkind hd _ ih =>
    obtain ⟨hread, hvalue, henter⟩ := hd
    refine .cons hv hkind ⟨hreads hread ?_, hvalue, henter⟩
      (ih fun d hd => hA d (List.mem_cons_of_mem _ hd))
    simpa using hA _ List.mem_cons_self _ hv

end Reads

section Comprised

variable {p : Program} {M : Frame} {E : Table} {F : NodeId → ExprFacts → Prop} {Δ : Levels}

theorem Program.Comprises.operand {e i c : NodeId} {x : ExprShape Symbol NodeId}
    (h : p.Comprises e i) (hx : p.shape? i = some (.expr x)) (hc : c ∈ x.operands) :
    p.Comprises e c := h.tail ⟨x, hx, hc⟩

/-- Whatever is read is in something that holds it. -/
theorem Reads.sited {A : NodeId → Prop} {f : ExprFinding} (h : Reads p.toArena M E F Δ f)
    (hA : ∀ e ∈ f.nodes, e ≠ 0 → ∃ r, A r ∧ p.Comprises r e) :
    Reads p.toArena M E (fun i e => F i e ∧ ∃ r, A r ∧ p.Comprises r i) Δ f := by
  have hparts : ∀ {i x}, (∃ r, A r ∧ p.Comprises r i) → p.shape? i = some (.expr x) →
      ∀ e ∈ x.operands, e ≠ 0 → ∃ r, A r ∧ p.Comprises r e :=
        fun ⟨r, hr, ho⟩ hx _ he _ => ⟨r, hr, ho.operand hx he⟩
  induction h with
  | absent => exact .absent
  | ident hs hscope hF =>
    exact .ident hs hscope ⟨hF, hA _ (List.mem_singleton_self _) (Arena.ne_zero_of_shape hs)⟩
  | plain hx _ hcompose hF ih =>
    have hi := hA _ (List.mem_singleton_self _) (Arena.ne_zero_of_shape hx)
    exact .plain hx (ih (hparts hi hx)) hcompose ⟨hF, hi⟩
  | call hx _ hk hF ih =>
    have hi := hA _ (List.mem_singleton_self _) (Arena.ne_zero_of_shape hx)
    exact .call hx (ih (hparts hi hx)) hk ⟨hF, hi⟩
  | nil => exact .nil
  | cons _ _ ih₁ ih₂ =>
    exact .cons (ih₁ (by simpa using fun h0 => hA _ List.mem_cons_self h0))
      (ih₂ fun e he => hA e (List.mem_cons_of_mem _ he))

theorem Reads.mem {a : Arena} {es : List NodeId} {ts : List (Option Ty)}
    (h : Reads a M E F Δ (.all es ts)) {e : NodeId} (he : e ∈ es) :
    ∃ u, Reads a M E F Δ (.one e u) := by
  induction es generalizing ts with
  | nil => cases he
  | cons e' es ih =>
    cases h with
    | cons hone hall =>
      rcases List.mem_cons.1 he with rfl | he
      · exact ⟨_, hone⟩
      · exact ih hall he

/-- What an expression comprises is read with it. -/
theorem Reads.comprised {e i : NodeId} {t : Option Ty} (h : Reads p.toArena M E F Δ (.one e t))
    (hi : p.Comprises e i) : ∃ u, Reads p.toArena M E F Δ (.one i u) := by
  induction hi with
  | refl => exact ⟨t, h⟩
  | tail _ hstep ih =>
    obtain ⟨x, hx, hc⟩ := hstep
    obtain ⟨u, hu⟩ := ih
    cases hu with
    | absent => exact absurd rfl (Arena.ne_zero_of_shape hx)
    | ident hs =>
      cases hx.symm.trans hs
      cases hc
    | plain hx' hall | call hx' hall =>
      cases hx.symm.trans hx'
      exact hall.mem hc

/-- What a statement holds is read in what is in scope before it, unless it is a loop with an
initializer. -/
theorem Ranges.reads {a : Arena} {V V' : List Made} {Δ' : Levels} {i e : NodeId}
    (h : Ranges a M E F Δ V (.one i) Δ' V') (he : Reading a i e)
    (hloop : ∀ init c t b, a.shape? i ≠ some (.stmt (.forLoop init c t b))) :
    ∃ t, Reads a M E F Δ (.one e t) := by
  cases he with
  | simple hx hes he =>
    cases h with
    | absent => cases hx
    | simple hy hes' hread =>
      cases hx.symm.trans hy
      cases hes.symm.trans hes'
      exact hread.mem he
    | varDecl hy | stray hy | block hy | ifElse hy | forLoop hy | whileLoop hy | loop hy =>
      cases hx.symm.trans hy
      cases hes
  | initializer hx hv =>
    cases h with
    | absent => cases hx
    | simple hy hes =>
      cases hx.symm.trans hy
      cases hes
    | varDecl hy hv' hd =>
      cases hx.symm.trans hy
      cases hv.symm.trans hv'
      obtain ⟨hread, -, -⟩ := hd
      exact ⟨_, hread⟩
    | stray hy hnone =>
      cases hx.symm.trans hy
      cases hv.symm.trans hnone
    | block hy | ifElse hy | forLoop hy | whileLoop hy | loop hy => cases hx.symm.trans hy
  | ifElse hx =>
    cases h with
    | absent => cases hx
    | simple hy hes =>
      cases hx.symm.trans hy
      cases hes
    | ifElse hy hread =>
      cases hx.symm.trans hy
      exact ⟨_, hread⟩
    | varDecl hy | stray hy | block hy | forLoop hy | whileLoop hy | loop hy =>
      cases hx.symm.trans hy
  | forLoop hx => exact absurd hx (hloop _ _ _ _)
  | whileLoop hx =>
    cases h with
    | absent => cases hx
    | simple hy hes =>
      cases hx.symm.trans hy
      cases hes
    | whileLoop hy hread =>
      cases hx.symm.trans hy
      exact ⟨_, hread⟩
    | varDecl hy | stray hy | block hy | ifElse hy | forLoop hy | loop hy => cases hx.symm.trans hy

end Comprised

/-- Nothing at the node or below it is a statement. -/
def Program.Quiet (p : Program) (i : NodeId) : Prop := ∀ j, p.Below i j → p.NoStatement j

section Quiet

variable {p : Program} {M : Frame} {E : Table} {F : NodeId → ExprFacts → Prop} {Δ : Levels}

theorem Program.Quiet.of_slots {i : NodeId} {x : Shape Symbol NodeId} (hx : p.shape? i = some x)
    (hs : x.isStatement = false) (h : ∀ c ∈ x.slots, c ≠ 0 → p.Quiet c) : p.Quiet i := by
  intro j hj
  have hcases : j = i ∨ ∃ c ∈ p.children i, p.Below c j := by
    induction hj with
    | self => exact .inl rfl
    | child _ hc ih =>
      rcases ih with rfl | ⟨d, hd, hb⟩
      · exact .inr ⟨_, hc, .self⟩
      · exact .inr ⟨d, hd, hb.child hc⟩
  rcases hcases with rfl | ⟨c, hc, hb⟩
  · simp [Arena.NoStatement, hx, hs]
  · obtain ⟨n, hn, hc, h0⟩ := Arena.mem_children.1 hc
    have hn' : p.shape? i = some n.shape := by simp [Arena.shape?, hn]
    cases hx.symm.trans hn'
    exact h c hc h0 j hb

/-- Nothing is below what is not there. -/
theorem Program.Below.eq_zero {j : NodeId} (h : p.Below 0 j) : j = 0 := by
  induction h with
  | self => rfl
  | child _ hc ih =>
    subst ih
    cases hc

theorem Program.Quiet.zero (p : Program) : p.Quiet 0 := by
  intro j hj
  rw [hj.eq_zero]
  rfl

theorem Program.Quiet.comprised {e i : NodeId} (h : p.Quiet e) (hi : p.Comprises e i) :
    p.Quiet i := by
  induction hi with
  | refl => exact h
  | @tail i c _ hstep ih =>
    obtain ⟨x, hx, hc⟩ := hstep
    by_cases h0 : c = 0
    · exact h0 ▸ .zero p
    · exact fun j hj =>
        ih j (.of_child (Program.mem_children_of_slot hx (x.operands_slots.subset hc) h0) hj)

/-- Types hold nothing but types. -/
theorem TypeOf.quiet {i : NodeId} {t : Option Ty} (h : TypeOf p.toArena M E i t) : p.Quiet i := by
  induction h with
  | absent => exact .zero p
  | @plain i x t hx ht => exact .of_slots hx rfl (by cases x <;> cases ht <;> simp [Shape.slots])
  | @around i x e f t hx he _ ih =>
    exact .of_slots hx rfl (by cases x <;> cases he <;> simp [Shape.slots, ih])
  | named hx _ _ _ => exact .of_slots hx rfl (by simp [Shape.slots])

theorem Calls.quiet {g : NodeId} {k : Callee} (h : Calls p.toArena M E g k) : p.Quiet g := by
  cases h with
  | typed _ ht => exact ht.quiet
  | declared hg | function hg | builtin hg => exact .of_slots hg rfl (by simp [Shape.slots])

/-- The parts of an expression that names and calls nothing are its operands. -/
theorem Table.slots_of_compose {a : Arena} {x : ExprShape Symbol NodeId} {ts : List (Option Ty)}
    {o : Option ExprFacts} (h : E.compose a x ts = some o) :
    (Shape.expr x : Shape Symbol NodeId).slots = x.operands := by
  cases x <;> first | rfl | cases h

/-- Nothing in an expression that is read is a statement. -/
theorem Reads.quiet {f : ExprFinding} (h : Reads p.toArena M E F Δ f) :
    ∀ e ∈ f.nodes, p.Quiet e := by
  induction h with
  | absent => simpa using Program.Quiet.zero p
  | ident hx _ _ => simpa using Program.Quiet.of_slots hx rfl (by simp [Shape.slots])
  | plain hx _ hcompose _ ih =>
    refine List.forall_mem_singleton.2 (.of_slots hx rfl ?_)
    rw [Table.slots_of_compose hcompose]
    exact fun c hc _ => ih c hc
  | call hx _ hk _ ih =>
    refine List.forall_mem_singleton.2 (.of_slots hx rfl ?_)
    rw [Shape.slots]
    exact List.forall_mem_cons.2 ⟨fun _ => hk.quiet, fun c hc _ => ih c hc⟩
  | nil => simp
  | cons _ _ ih₁ ih₂ => exact List.forall_mem_cons.2 ⟨ih₁ _ (List.mem_singleton_self _), ih₂⟩

theorem Reading.below {s e : NodeId} (h : Reading p.toArena s e) (h0 : e ≠ 0) : p.Below s e := by
  cases h with
  | simple hs hes he =>
    exact .of_child (Program.mem_children_of_slot hs ((StmtShape.reads_slots hes).subset he) h0)
      .self
  | initializer hs hv =>
    have hd := Arena.shape?_of_asVariable? hv
    exact .of_child
      (Program.mem_children_of_slot hs (by simp [Shape.slots]) (Arena.ne_zero_of_shape hd))
      (.of_child (Program.mem_children_of_slot hd (by simp [Shape.slots]) h0) .self)
  | ifElse hs | forLoop hs | whileLoop hs =>
    exact .of_child (Program.mem_children_of_slot hs (by simp [Shape.slots]) h0) .self

end Quiet

namespace Program

/-- The expressions of the module's own values. -/
def OfValue (p : Program) (i : NodeId) : Prop :=
  ∃ g ∈ p.globals, ∃ v, p.asVariable? g = some v ∧ p.Comprises v.initializer i

/-- The expressions that parameters of functions and statements in their bodies hold. -/
inductive Held (p : Program) : NodeId → Prop
  | parameter {g f d v} : g ∈ p.globals → p.function? g = some f → d ∈ f.params →
    p.asVariable? d = some v →
    Held p v.initializer
  | statement {g f s e} : g ∈ p.globals → p.function? g = some f → Nested p.toArena f.body s →
    Reading p.toArena s e →
    Held p e

/-- An expression that is read in the module. -/
def Sited (p : Program) (i : NodeId) : Prop :=
  p.OfValue i ∨ p.Quiet i ∧ ∃ r, p.Held r ∧ p.Comprises r i

variable {p : Program} {M : Frame} {E : Table} {F : NodeId → ExprFacts → Prop} {V : List Made}

theorem Comprises.below {e i : NodeId} (h : p.Comprises e i) (h0 : i ≠ 0) : p.Below e i := by
  induction h with
  | refl => exact .self
  | tail _ hstep ih =>
    obtain ⟨x, hx, hc⟩ := hstep
    exact (ih (Arena.ne_zero_of_shape hx)).child
      (mem_children_of_slot hx (x.operands_slots.subset hc) h0)

theorem Comprises.ne_zero {e i : NodeId} (h : p.Comprises e i) (h0 : i ≠ 0) : e ≠ 0 := by
  rcases Relation.ReflTransGen.cases_head h with rfl | ⟨_, ⟨x, hx, _⟩, _⟩
  · exact h0
  · exact Arena.ne_zero_of_shape hx

/-- What functions hold is inside them. -/
theorem Held.inFunction {r : NodeId} (h : p.Held r) (h0 : r ≠ 0) : p.InFunction r := by
  cases h with
  | @parameter g f d v hg hf hd hv =>
    have hdecl := Arena.shape?_of_asVariable? hv
    refine ⟨g, hg, by
      simp [hf], .of_child (mem_children_of_slot (Arena.shape?_of_function? hf) (c := d) ?_ ?_)
      (.of_child (mem_children_of_slot hdecl (by simp [Shape.slots]) h0) .self)⟩
    · simp [Shape.slots, hd]
    · exact Arena.ne_zero_of_shape hdecl
  | @statement g f s e hg hf hs he =>
    have hb := hs.isBelow.trans (he.below h0)
    refine ⟨g, hg, by simp [hf], .of_child (mem_children_of_slot (Arena.shape?_of_function? hf)
      (c := f.body) ?_ ?_) hb⟩
    · simp [Shape.slots]
    · intro hz
      rw [hz] at hb
      exact h0 (Below.eq_zero hb)

theorem Rooted.closedRegion_value (hp : p.Rooted M) : ClosedRegion p.toArena M p.OfValue where
  operands := fun ⟨g, hg, v, hv, hi⟩ hx _ he _ => ⟨g, hg, v, hv, hi.operand hx he⟩
  initializer hd hv _ := ⟨_, hp.names _ _ hd, _, hv, .refl⟩

/-- Whatever is found out about a module is found out where it is read. -/
theorem Rooted.sited (hp : p.Rooted M) (h : Static p.toArena F p.globals M E V) :
    Static p.toArena (fun i e => F i e ∧ p.Sited i) p.globals M E V := by
  obtain ⟨hnames, ⟨T, h₁, h₂⟩, V₀, hV₀, h₃⟩ := h
  have hreads : ∀ {Δ f}, ShaderLoom.Reads p.toArena M E F Δ f → (∀ e ∈ f.nodes, e ≠ 0 → p.Held e) →
      ShaderLoom.Reads p.toArena M E (fun i e => F i e ∧ p.Sited i) Δ f := by
    intro Δ f h hf
    have hquiet := h.quiet
    have hsited := h.sited (A := fun r => p.Held r ∧ p.Quiet r) fun e he h0 =>
      ⟨e, ⟨hf e he h0, hquiet e he⟩, .refl⟩
    exact hsited.mono fun _ _ ⟨hF, r, ⟨hr, hq⟩, hi⟩ => ⟨hF, .inr ⟨hq.comprised hi, r, hr, hi⟩⟩
  refine ⟨hnames, ⟨T, h₁.imp fun d hd {T T'} hstep => ?_, h₂⟩, V₀, hV₀,
    h₃.imp fun d hd {V V'} hstep => ?_⟩
  · exact hstep.restrict hp.closedRegion_value (fun hi hF => ⟨hF, .inl hi⟩) fun hv _ =>
      ⟨d, hd, _, hv, .refl⟩
  · cases hstep with
    | function hf hparams hbody =>
      exact .function hf (hparams.map hreads fun x hx v hv _ => .parameter hd hf hx hv)
        (hbody.map hreads fun n hn _ s hs e he _ => by
          rw [List.mem_singleton.1 hn] at hs
          exact .statement hd hf hs he)
    | other hnone => exact .other hnone

end Program

section Build

variable {b : Builder}

theorem Program.hasErrors_of_valid (hv : b.build.valid = true) :
    b.diagnostics.hasErrors = false := by
  simp only [Program.valid, Builder.build, Diagnostics.hasErrors, List.any_append, Bool.not_or,
    Bool.and_eq_true, Bool.not_eq_true'] at hv
  exact hv.1

/-- In a valid program, whatever is recorded of an expression was found out where the expression is
read. -/
theorem Program.sited_build (hv : b.build.valid = true) (hfit : b.Fit) (ht : b.build.TreeShaped) :
    (∃ E V, Static b.build.toArena (fun i e => b.build.facts.table.Recorded i e ∧ b.build.Sited i)
      b.build.globals
      b.build.scene.module E V) ∧ ∀ i e, b.build.facts.table.Recorded i e → b.build.Sited i := by
  obtain ⟨hp, htyped⟩ := recorded_build hv hfit ht
  obtain ⟨E, V, hstatic, _⟩ := hp.static hfit.build.typesPresent htyped
  have hsited := hp.sited hstatic
  refine ⟨⟨E, V, hsited⟩, fun i e he => ?_⟩
  obtain ⟨T, htyped', _⟩ := hp.wellTyped hfit.build.typesPresent hsited
  obtain ⟨_, htable⟩ := valid_of_wellTyped (hasErrors_of_valid hv) ht
    (fun g hg => Nat.ne_of_gt (hfit.globals g hg).1) htyped'
  have he : b.build.facts.table.senses i = some e := he
  rw [htable] at he
  exact (htyped'.allowed he).2

end Build

section Keyed

variable {a : Arena} {M : Frame} {F : NodeId → ExprFacts → Prop} {T T' : Table}

/-- Types are recorded of type nodes and of declarations, not of expressions. -/
def Table.Keyed (a : Arena) (T : Table) : Prop :=
  ∀ i x, a.shape? i = some (.expr x) → T.types i = none

theorem Table.Keyed.keepType (h : T.Keyed a) {i : NodeId} (hi : ∀ x, a.shape? i ≠ some (.expr x))
    (t : Option Ty) : (T.keepType i t).Keyed a := by
  intro j x hx
  have hne : j ≠ i := by
    rintro rfl
    exact hi x hx
  cases t with
  | none => exact h j x hx
  | some t => exact (Function.update_of_ne hne _ _).trans (h j x hx)

theorem Table.Keyed.of_types (h : T.Keyed a) (htypes : T'.types = T.types) : T'.Keyed a := by
  intro i x hx
  rw [htypes]
  exact h i x hx

theorem Table.Keyed.keepSense (h : T.Keyed a) (i : NodeId) (o : Option ExprFacts) :
    (T.keepSense i o).Keyed a :=
  h.of_types (by cases o <;> rfl)

theorem Typing.keyed {P : List NodeId} {f : TypeFinding} (h : Typing a M P T f T')
    (hT : T.Keyed a) : T'.Keyed a := by
  induction h with
  | absent => exact hT
  | plain hx _ => exact hT.keepType (by simp [hx]) (some _)
  | around hx _ _ ih => exact (ih hT).keepType (by simp [hx]) _
  | named hx _ _ _ ih => exact (ih (hT.of_types rfl)).keepType (by simp [hx]) _
  | known => exact hT
  | @struct P T T' d s ms as found hx _ _ _ ih =>
    have hset := hT.keepType (i := d) (by simp [hx]) (some (.struct d (a.nameOf s)))
    exact (ih (hset.of_types rfl)).of_types rfl
  | typeAlias hx _ _ _ ih => exact (ih hT).keepType (by simp [hx]) _
  | nil => exact hT
  | member _ _ _ ih₁ ih₂ => exact ih₂ (ih₁ hT)
  | stray _ _ ih => exact ih hT

theorem Valued.keyed {v : VariableShape Symbol NodeId} {t₀ t : Option Ty}
    (h : Valued a M v t₀ T t T') (hT : T.Keyed a) : T'.Keyed a := by
  cases h with
  | named _ h => exact h.keyed hT
  | inferred => exact hT

theorem Sensing.keyed {Γ : List Frame} {f : ExprFinding} (h : Sensing a M F Γ T f T')
    (hT : T.Keyed a) : T'.Keyed a := by
  induction h with
  | absent | nil => exact hT
  | known => exact (hT.keepSense _ (some _)).keepSense _ _
  | entered _ _ _ _ _ hval _ ih =>
    have hT₂ := hval.keyed (ih (hT.keepSense _ (some _)))
    exact (hT₂.of_types (rfl : (Table.addValue _ _ _).types = _)).keepSense _ _
  | plain _ _ _ _ ih => exact (ih (hT.keepSense _ (some _))).keepSense _ _
  | call _ _ hk _ ih =>
    have hT₁ := ih (hT.of_types rfl)
    cases hk with
    | typed _ h | declared _ _ _ h => exact (h.keyed hT₁).of_types rfl
    | function | builtin => exact hT₁.of_types rfl
  | cons _ _ ih₁ ih₂ => exact ih₂ (ih₁ hT)

theorem Declaring.keyed {d : NodeId} {v : VariableShape Symbol NodeId} {Γ Γ' : List Frame}
    (h : Declaring a M F d v Γ T Γ' T') (hT : T.Keyed a) : T'.Keyed a := by
  obtain ⟨hinit, hval, _⟩ := h
  exact (hval.keyed (hinit.keyed hT)).of_types rfl

theorem WellTyped.keyed {gs : List NodeId} (h : WellTyped a F gs M T) : T.Keyed a := by
  obtain ⟨_, T₁, T₂, h₁, h₂, h₃⟩ := h
  have hT₁ : T₁.Keyed a := by
    refine (h₁.keep (I := Table.Keyed a) (fun d _ T T' h hT => ⟨h, ?_⟩) fun _ _ _ => rfl).2
    cases h with
    | type _ ht => exact ht.keyed hT
    | known | other => exact hT
    | value _ _ hinit hval => exact (hval.keyed (hinit.keyed hT)).of_types rfl
  have hT₂ : T₂.Keyed a := by
    refine (h₂.keep (I := Table.Keyed a) (fun d _ T T' h hT => ⟨h, ?_⟩) hT₁).2
    cases h with
    | typed _ _ ht => exact (ht.keyed (hT.of_types rfl)).of_types rfl
    | void | other => exact hT.of_types rfl
  refine (h₃.keep (I := Table.Keyed a) (fun d _ T T' h hT => ⟨h, ?_⟩) hT₂).2
  cases h with
  | function _ hparams hbody =>
    exact hbody.keeps Sensing.keyed Declaring.keyed (hparams.keeps Declaring.keyed hT)
  | other => exact hT

end Keyed

/-- What has the type of an expression has facts of its own. -/
theorem Program.recorded_of_typeOf {b : Builder} (hv : b.build.valid = true) {i : NodeId}
    {x : ExprShape Symbol NodeId} {t : Ty} (hx : b.build.shape? i = some (.expr x))
    (ht : b.build.facts.typeOf i = some t) :
    ∃ e, b.build.facts.exprs[i]? = some e ∧ e.type = some t := by
  unfold Facts.typeOf at ht
  split at ht
  · next e he => exact ⟨e, he, ht⟩
  · have hnone : b.build.facts.types[i]? = none := (wellTyped_build hv).keyed i x hx
    rw [hnone] at ht
    cases ht

end ShaderLoom
