import ShaderLoom.Proofs.Meaning.Beside
import ShaderLoom.Proofs.Pass.Reached

/-! What is computed once expressions are moved out of the headers of loops. Where the declarations
of moved expressions are in scope with the values that these have in the source, expressions and
targets are in the program that is made what they were, and a declaration that was put in gives its
name the value of what it stands for. -/
namespace ShaderLoom

open Execution

namespace Program

variable {p : Program}

/-- What is below an expression without statements is in the statement that it is in. -/
theorem statementOf_below (ht : p.TreeShaped) (hw : p.Walked) {i e : NodeId}
    (hi : p.inTree i = true) (hq : p.Quiet i) (h : p.Below i e) :
    p.inTree e = true ∧ p.statementOf e = p.statementOf i := by
  induction h with
  | self => exact ⟨hi, rfl⟩
  | @child d c hd hc ih =>
    obtain ⟨hin, hstmt⟩ := ih
    obtain ⟨n, hn, hslot, h0⟩ := Arena.mem_children.1 hc
    have hx := Arena.shape?_of_node? hn
    obtain ⟨hin, houter⟩ := statementOf_child ht hw hin hx hslot h0
    have hs : n.shape.isStatement = false := by simpa [Arena.NoStatement, hx] using hq d hd
    exact ⟨hin, by rw [houter, hs, ← hstmt]; rfl⟩

end Program

namespace Hoist

section Targets

variable (a : Arena)

/-- The first expression is the second one or a part of it, as a target. -/
inductive PartOf (l : NodeId) : NodeId → Prop
  | self : PartOf l l
  | index {e o k} : PartOf l e → a.shape? e = some (.expr (.index o k)) → PartOf l o
  | member {e o s} : PartOf l e → a.shape? e = some (.expr (.member o s)) → PartOf l o

/-- The statement writes to the expression. -/
def Writes (s l : NodeId) : Prop :=
  (∃ r, a.shape? s = some (.stmt (.assign l r))) ∨
    ∃ down, a.shape? s = some (.stmt (.increment l down))

/-- The statement around the expression writes to it, or to a part of it. -/
def IsTarget (p : Program) (e : NodeId) : Prop :=
  ∃ l, Writes p.toArena (p.statementOf e) l ∧ PartOf p.toArena l e

end Targets

/-- A program and what hoisting makes of it where the expressions that are moved are in the headers
of loops, and nothing is written to them. -/
structure FromHeaders (p : Program) (ms : List Moved) (b : Builder) (origin : NodeId → NodeId) :
    Prop where
  hoisted : Hoisted p ms b origin
  fit : p.Fit
  counted : p.Counted
  walked : p.Walked
  tidy : p.Tidy
  expr : ∀ m ∈ ms, ∃ x, p.shape? m.expr = some (.expr x)
  header : ∀ m ∈ ms, ∃ k, place p m.expr = some (.condition k) ∨
    place p m.expr = some (.continuing k)
  read : ∀ m ∈ ms, ¬ IsTarget p m.expr

/-- The names of the declarations. -/
def hiddenNames (ms : List Moved) (a : Arena) : List String := ms.map fun m => a.nameOf m.name

namespace FromHeaders

variable {p : Program} {ms : List Moved} {b : Builder} {origin : NodeId → NodeId}
  (Φ : FromHeaders p ms b origin) {V M : Type} {μ : Machine V M} {σ τ : Store V M}
  {sh : List Layer} {i j s : NodeId}

/-- The declaration of a moved expression is in scope, with the value of the expression in the
source. -/
def Found (_ : FromHeaders p ms b origin) (μ : Machine V M) (σ τ : Store V M) (m : Moved) : Prop :=
  find? τ.scopes (b.build.nameOf m.name) = some (value p.toArena μ σ m.expr)

/-- The second store is the first one with variables for moved expressions. -/
abbrev Beside (_ : FromHeaders p ms b origin) (sh : List Layer) (σ τ : Store V M) : Prop :=
  σ.Beside (hiddenNames ms b.build.toArena) sh τ

include Φ

theorem tree : p.TreeShaped := Φ.fit.treeShaped Φ.counted

theorem ordered : b.build.toArena.Ordered := Φ.hoisted.fit.build.ordered

theorem not_hidden {x y : Symbol} (hs : SameName p b.toArena x y) :
    b.build.nameOf y ∉ hiddenNames ms b.build.toArena := by
  obtain ⟨rfl, t, hx, hy⟩ := hs
  intro hmem
  obtain ⟨m, hm, heq⟩ := List.mem_map.1 hmem
  have hname : b.build.nameOf x = t := hy.nameFor
  exact Φ.hoisted.name_not_mem hm (by rw [heq, hname]; exact hx.mem)

theorem absent {c d : NodeId} (h : Comes ms b.toArena origin c d) : c = 0 ↔ d = 0 :=
  (Φ.hoisted.reworked Φ.fit Φ.tidy).absent h

theorem stmt_of_origin (h0 : i ≠ 0) (hij : origin j = i) (hs : ¬ p.NoStatement i) :
    (∃ x, p.shape? i = some (.stmt x)) ∧ ∃ y, b.build.shape? j = some (.stmt y) := by
  obtain ⟨x, hx⟩ : ∃ x, p.shape? i = some (.stmt x) := by
    cases hx : p.shape? i with
    | none => simp [Arena.NoStatement, hx] at hs
    | some x => cases x <;> simp_all [Arena.NoStatement, Shape.isStatement]
  obtain ⟨y, hy, hstmt⟩ := Φ.hoisted.isStatement_of_origin h0 hij hx rfl
  cases y <;> first | exact ⟨⟨x, hx⟩, _, hy⟩ | cases hstmt

section Values

/-- Expressions of the same form are the same if their parts are. -/
theorem valueBy_of_rel (hb : Φ.Beside sh σ τ) {s t : Shape Symbol NodeId}
    (hrel : Shape.Rel (SameName p b.toArena) (Comes ms b.toArena origin)
      (List.Forall₂ (Comes ms b.toArena origin)) s t)
    (hpart : ∀ c ∈ s.slots, ∀ d, Comes ms b.toArena origin c d →
      value p.toArena μ σ c = value b.build.toArena μ τ d) :
    valueBy b.build.toArena μ τ (value b.build.toArena μ τ) t =
      valueBy p.toArena μ σ (value p.toArena μ σ) s := by
  have hmap : s.map p.nameOf (value p.toArena μ σ) =
      t.map b.build.nameOf (value b.build.toArena μ τ) := by
    refine hrel.within.map_eq (fun _ _ h => h.nameOf) (fun c d h => hpart c h.1 d h.2) ?_
    rintro cs ds ⟨hcs, hds⟩
    exact Arena.map_eq_of_forall₂ hds fun c hc d _ hcd => hpart c (hcs c hc) d hcd
  have hrest : τ.rest = σ.rest := hb.rest
  cases hrel with
  | ident hs =>
    have hname : p.nameOf _ = b.build.nameOf _ := hs.nameOf
    simp only [valueBy, hb.scopes.find? (Φ.not_hidden hs), hname, hrest]
  | _ => first | rfl | simp only [valueBy, hmap, hrest]

theorem value_of_echoes (hb : Φ.Beside sh σ τ) (h : Echoes p ms b.toArena origin i j)
    (hpart : ∀ c ∈ p.children i, ∀ d, Comes ms b.toArena origin c d →
      value b.build.toArena μ τ d = value p.toArena μ σ c) :
    value b.build.toArena μ τ j = value p.toArena μ σ i := by
  obtain ⟨n, m, hn, hm, -, hrel⟩ := h
  rw [value_eq Φ.fit.ordered (Arena.shape?_of_node? hn),
    value_eq Φ.ordered (Builder.shape?_build_of (Arena.shape?_of_node? hm))]
  refine Φ.valueBy_of_rel hb hrel fun c hc d hcd => ?_
  by_cases h0 : c = 0
  · obtain rfl := (Φ.absent hcd).1 h0
    rw [h0, value_of_none rfl, value_of_none rfl]
  · exact (hpart c (Arena.mem_children.2 ⟨n, hn, hc, h0⟩) d hcd).symm

/-- What a node has become is what the node is, where the declarations of the moved expressions
among some nodes are in scope that lead to all parts of it. -/
theorem value_of_comes (hb : Φ.Beside sh σ τ) {S : NodeId → Prop}
    (hS : ∀ i, S i → p.NoStatement i → ∀ c ∈ p.children i, S c)
    (hfound : ∀ m ∈ ms, S m.expr → Φ.Found μ σ τ m) (hij : Comes ms b.toArena origin i j)
    (hi : i ≠ 0 → S i) : value b.build.toArena μ τ j = value p.toArena μ σ i := by
  induction i using Nat.strongRecOn generalizing j with
  | ind i ih =>
    rcases hij with ⟨rfl, rfl⟩ | ⟨h0, horigin, hself⟩
    · rw [value_of_none rfl, value_of_none rfl]
    by_cases hs : p.NoStatement i
    · rcases Φ.hoisted.echoes_or_reference Φ.tree h0 horigin hs with hecho | ⟨m, hm, rfl, hj⟩
      · refine Φ.value_of_echoes hb hecho fun c hc d hcd => ?_
        exact ih c (Φ.fit.lt_of_mem_children hc) hcd fun _ => hS i (hi h0) hs c hc
      · have hname : find? τ.scopes (b.build.nameOf m.name) = _ := hfound m hm (hi h0)
        rw [value_eq Φ.ordered (Builder.shape?_build_of hj), valueBy, hname, Option.getD_some]
    · -- a statement has no value, here or there
      obtain ⟨⟨x, hx⟩, y, hy⟩ := Φ.stmt_of_origin h0 horigin hs
      rw [value_of_stmt hx, value_of_stmt hy]

/-- What is in a statement is what it was, where the declarations of the moved expressions in the
statement are in scope. -/
theorem value_in (hb : Φ.Beside sh σ τ) (hfound : ∀ m ∈ ms, p.statementOf m.expr = s →
    Φ.Found μ σ τ m) (hij : Comes ms b.toArena origin i j)
    (hi : i ≠ 0 → p.inTree i = true ∧ p.statementOf i = s) :
    value b.build.toArena μ τ j = value p.toArena μ σ i := by
  refine Φ.value_of_comes hb (S := fun i => p.inTree i = true ∧ p.statementOf i = s)
    (fun i ⟨hin, hs⟩ hplain c hc => ?_) (fun m hm h => hfound m hm h.2) hij hi
  obtain ⟨n, hn, hslot, h0⟩ := Arena.mem_children.1 hc
  have hx := Arena.shape?_of_node? hn
  obtain ⟨hin, houter⟩ := Program.statementOf_child Φ.tree Φ.walked hin hx hslot h0
  have hplain : n.shape.isStatement = false := by simpa [Arena.NoStatement, hx] using hplain
  exact ⟨hin, by rw [houter, hplain, ← hs]; rfl⟩

/-- The value of a declaration is that of the expression that it stands for, where the declarations
of the expressions inside are in scope. -/
theorem value_of_moved (hb : Φ.Beside sh σ τ) {m : Moved} (hm : m ∈ ms)
    (hfound : ∀ m' ∈ ms, p.Below m.expr m'.expr → m'.expr ≠ m.expr → Φ.Found μ σ τ m') :
    value b.build.toArena μ τ m.value = value p.toArena μ σ m.expr := by
  refine Φ.value_of_echoes hb (Φ.hoisted.made m hm).value fun c hc d hcd => ?_
  have hinside : ∀ {i}, p.Below c i → p.Below m.expr i ∧ i ≠ m.expr := fun hi => by
    have hlt := Nat.lt_of_le_of_lt (Φ.fit.le_of_below hi) (Φ.fit.lt_of_mem_children hc)
    exact ⟨.of_child hc hi, Nat.ne_of_lt hlt⟩
  refine Φ.value_of_comes hb (S := p.Below c) (fun i hi _ d hd => hi.child hd) (fun m' hm' hi => ?_)
    hcd fun _ => .self
  exact hfound m' hm' (hinside hi).1 (hinside hi).2

end Values

section Targets

theorem statementOf_part (hs : p.inTree s = true) {l : NodeId} (hl : Writes p.toArena s l)
    (h : PartOf p.toArena l i) (h0 : i ≠ 0) : p.inTree i = true ∧ p.statementOf i = s := by
  induction h with
  | self =>
    rcases hl with ⟨r, hx⟩ | ⟨down, hx⟩
    · exact Program.statementOf_child Φ.tree Φ.walked hs hx (by simp [Shape.slots]) h0
    · exact Program.statementOf_child Φ.tree Φ.walked hs hx (by simp [Shape.slots]) h0
  | index _ hx ih | member _ hx ih =>
    obtain ⟨hin, hstmt⟩ := ih (Arena.ne_zero_of_shape hx)
    obtain ⟨hin, houter⟩ :=
      Program.statementOf_child Φ.tree Φ.walked hin hx (by simp [Shape.slots]) h0
    exact ⟨hin, houter.trans hstmt⟩

/-- What is written to stays the same. -/
theorem target_of_part (hb : Φ.Beside sh σ τ) (hs : p.inTree s = true)
    (hfound : ∀ m ∈ ms, p.statementOf m.expr = s → Φ.Found μ σ τ m) {l : NodeId}
    (hl : Writes p.toArena s l) (hi : PartOf p.toArena l i) (hij : Comes ms b.toArena origin i j) :
    target b.build.toArena μ τ j = target p.toArena μ σ i ∧
      ∀ x path, target p.toArena μ σ i = some (x, path) →
        x ∉ hiddenNames ms b.build.toArena := by
  induction i using Nat.strongRecOn generalizing j with
  | ind i ih =>
    rcases hij with ⟨rfl, rfl⟩ | ⟨h0, horigin, hself⟩
    · have hnone : ∀ (a : Arena) (σ : Store V M), target a μ σ 0 = none :=
        fun _ _ => target_of_none rfl
      simp [hnone]
    obtain ⟨hin, hstmt⟩ := Φ.statementOf_part hs hl hi h0
    have hmoved : ∀ m ∈ ms, m.expr ≠ i := by
      rintro m hm rfl
      exact Φ.read m hm ⟨l, hstmt ▸ hl, hi⟩
    by_cases hplain : p.NoStatement i
    · obtain ⟨n, k, hn, hk, -, hrel⟩ :=
        Φ.hoisted.echoes Φ.tree h0 horigin (.inl hmoved) hplain
      have hx := Arena.shape?_of_node? hn
      rw [target_eq Φ.fit.ordered hx,
        target_eq Φ.ordered (Builder.shape?_build_of (Arena.shape?_of_node? hk))]
      have hinside : ∀ c ∈ n.shape.slots, c < i := Φ.fit.below hn
      generalize n.shape = y at hrel hx hinside
      generalize k.shape = z at hrel
      cases hrel with
      | ident hname =>
        have heq : p.nameOf _ = b.build.nameOf _ := hname.nameOf
        simp only [targetBy, heq, Option.some.injEq, Prod.mk.injEq, true_and]
        rintro x path ⟨rfl, -⟩
        exact Φ.not_hidden hname
      | @index o o' q q' ho hq =>
        obtain ⟨htarget, hvisible⟩ := ih o (hinside o (by simp [Shape.slots])) (.index hi hx) ho
        have hvalue : value b.build.toArena μ τ q' = value p.toArena μ σ q :=
          Φ.value_in hb hfound hq fun hq0 => by
            obtain ⟨hin, houter⟩ :=
              Program.statementOf_child Φ.tree Φ.walked hin hx (by simp [Shape.slots]) hq0
            exact ⟨hin, houter.trans hstmt⟩
        simp only [targetBy, htarget, hvalue, Option.map_eq_some_iff, Prod.mk.injEq, true_and]
        rintro x path ⟨t, ht, rfl, -⟩
        exact hvisible t.1 t.2 ht
      | @member o o' q q' ho hq =>
        obtain ⟨htarget, hvisible⟩ := ih o (hinside o (by simp [Shape.slots])) (.member hi hx) ho
        have heq : p.nameOf q = b.build.nameOf q' := hq.nameOf
        simp only [targetBy, htarget, heq, Option.map_eq_some_iff, Prod.mk.injEq, true_and]
        rintro x path ⟨t, ht, rfl, -⟩
        exact hvisible t.1 t.2 ht
      | _ => simp [targetBy]
    · obtain ⟨⟨x, hx⟩, y, hy⟩ := Φ.stmt_of_origin h0 horigin hplain
      simp [target_of_stmt hx, target_of_stmt hy]

end Targets

section Effects

/-- A variable becomes a variable, and nothing else becomes one. -/
theorem asVariable_of_comes (hij : Comes ms b.toArena origin i j) :
    (p.asVariable? i = none ∧ b.build.asVariable? j = none) ∨
      ∃ v w, p.asVariable? i = some v ∧ b.build.asVariable? j = some w ∧
        SameName p b.toArena v.name w.name ∧ Comes ms b.toArena origin v.type w.type ∧
        Comes ms b.toArena origin v.initializer w.initializer := by
  rcases hij with ⟨rfl, rfl⟩ | ⟨h0, horigin, -⟩
  · exact .inl ⟨rfl, rfl⟩
  by_cases hs : p.NoStatement i
  · rcases Φ.hoisted.echoes_or_reference Φ.tree h0 horigin hs with
      ⟨n, k, hn, hk, -, hrel⟩ | ⟨m, hm, rfl, hj⟩
    · have hx := Arena.shape?_of_node? hn
      have hy := Builder.shape?_build_of (Arena.shape?_of_node? hk)
      generalize n.shape = x at hrel hx
      generalize k.shape = y at hrel hy
      cases hrel with
      | value hname htype hinit =>
        exact .inr ⟨_, _, by rw [Arena.asVariable?, hx]; rfl, by rw [Arena.asVariable?, hy]; rfl,
          hname, htype, hinit⟩
      | _ => exact .inl ⟨by rw [Arena.asVariable?, hx]; rfl, by rw [Arena.asVariable?, hy]; rfl⟩
    · obtain ⟨x, hx⟩ := Φ.expr m hm
      have hj := Builder.shape?_build_of hj
      exact .inl ⟨by rw [Arena.asVariable?, hx]; rfl, by rw [Arena.asVariable?, hj]; rfl⟩
  · obtain ⟨⟨x, hx⟩, y, hy⟩ := Φ.stmt_of_origin h0 horigin hs
    exact .inl ⟨by rw [Arena.asVariable?, hx]; rfl, by rw [Arena.asVariable?, hy]; rfl⟩

/-- A statement without other statements in it changes the stores alike. A variable is declared in
a scope of both. -/
theorem effect_of_rel (hb : Φ.Beside sh σ τ) (hi : p.inTree i = true)
    (hfound : ∀ m ∈ ms, p.statementOf m.expr = i → Φ.Found μ σ τ m) {x y : StmtShape NodeId}
    (hx : p.shape? i = some (.stmt x)) {L : List NodeId → List NodeId → Prop}
    (hrel : Shape.Rel (SameName p b.toArena) (Comes ms b.toArena origin) L (.stmt x) (.stmt y))
    (hsh : ∀ d, x = .varDecl d → sh.head? ≠ some .further) :
    Φ.Beside sh (effect p.toArena μ σ x) (effect b.build.toArena μ τ y) := by
  have hchild : ∀ {c}, c ∈ (Shape.stmt (ν := Symbol) x).slots → c ≠ 0 →
      p.inTree c = true ∧ p.statementOf c = i := fun hc h0 =>
    Program.statementOf_child Φ.tree Φ.walked hi hx hc h0
  have hvalue : ∀ {c d}, c ∈ (Shape.stmt (ν := Symbol) x).slots →
      Comes ms b.toArena origin c d →
      value b.build.toArena μ τ d = value p.toArena μ σ c := fun hc hcd =>
    Φ.value_in hb hfound hcd (hchild hc)
  cases hrel with
  | @varDecl d d' hd =>
    rcases Φ.asVariable_of_comes hd with ⟨hv, hw⟩ | ⟨v, w, hv, hw, hname, htype, hinit⟩
    · simpa only [effect, hv, hw, Option.map_none, Option.getD_none] using hb
    · have hdecl := Arena.shape?_of_asVariable? hv
      obtain ⟨hdin, hstmt⟩ := hchild (List.mem_singleton_self d) (Arena.ne_zero_of_shape hdecl)
      have hpart : ∀ {c}, c ∈ (Shape.decl (.value v)).slots → c ≠ 0 →
          p.inTree c = true ∧ p.statementOf c = i := fun hc h0 => by
        obtain ⟨hcin, houter⟩ :=
          Program.statementOf_child Φ.tree Φ.walked hdin hdecl hc h0
        exact ⟨hcin, houter.trans hstmt⟩
      have htypes := Φ.value_in (μ := μ) hb hfound htype (hpart (by simp [Shape.slots]))
      have hinits := Φ.value_in (μ := μ) hb hfound hinit (hpart (by simp [Shape.slots]))
      have heq : p.nameOf v.name = b.build.nameOf w.name := hname.nameOf
      simp only [effect, hv, hw, Option.map_some, Option.getD_some, declared, htypes, hinits,
        Φ.absent hinit, heq]
      exact ⟨hb.scopes.declare (hsh d rfl) (Φ.not_hidden hname) _, hb.rest⟩
  | @assign l l' r r' hl hr =>
    obtain ⟨htarget, hvisible⟩ :=
      Φ.target_of_part (μ := μ) hb hi hfound (.inl ⟨r, hx⟩) .self hl
    rw [effect, effect, htarget, hvalue (by simp [Shape.slots]) hr]
    exact hb.write μ hvisible _
  | @increment l l' down hl =>
    obtain ⟨htarget, hvisible⟩ :=
      Φ.target_of_part (μ := μ) hb hi hfound (.inr ⟨down, hx⟩) .self hl
    rw [effect, effect, htarget, hvalue (by simp [Shape.slots]) hl]
    exact hb.write μ hvisible _
  | callStatement hc =>
    rw [effect, effect, hvalue (by simp [Shape.slots]) hc, hb.rest]
    exact ⟨hb.scopes, rfl⟩
  | _ => exact hb

end Effects

section Declarations

variable {k : Nat}

/-- The execution of a declaration that was put in. -/
theorem execute_moved {m : Moved} (hm : m ∈ ms)
    (hvalue : value b.build.toArena μ τ m.value = value p.toArena μ σ m.expr) :
    execute b.build.toArena μ k m.stmt τ =
      ⟨[.executed m.stmt],
        { τ with scopes := declare (b.build.nameOf m.name) (value p.toArena μ σ m.expr) τ.scopes },
        .next⟩ := by
  have hmade := Φ.hoisted.made m hm
  have hdecl : b.build.asVariable? m.decl = some ⟨m.kind, m.name, 0, m.value, []⟩ := by
    rw [Arena.asVariable?, Builder.shape?_build_of hmade.decl]
    rfl
  have h0 : m.value ≠ 0 := Φ.hoisted.ne_zero_of_origin hmade.comes (Φ.hoisted.expr_ne_zero hm)
  rw [execute_eq Φ.ordered (Builder.shape?_build_of hmade.stmt)]
  simp only [statement, effect, hdecl, Option.map_some, Option.getD_some, declared, h0, if_false,
    hvalue]

/-- Further declarations at a place are executed, where the first ones at it are in scope. -/
theorem runs_rest {x : Place} {y : Layer} (hy : y ≠ .same) (done : List Moved) {rest : List Moved}
    (hat : (ms.filter fun m => place p m.expr = some x) = done ++ rest)
    (hb : Φ.Beside (y :: sh) σ τ) (hdone : ∀ m ∈ done, Φ.Found μ σ τ m) :
    ∃ τ₁, (∀ ts, inOrder (execute b.build.toArena μ k) (rest.map (·.stmt) ++ ts) τ =
        (inOrder (execute b.build.toArena μ k) ts τ₁).after (rest.map (.executed ·.stmt))) ∧
      Φ.Beside (y :: sh) σ τ₁ ∧ ∀ m ∈ done ++ rest, Φ.Found μ σ τ₁ m := by
  induction rest generalizing done τ with
  | nil => exact ⟨τ, fun ts => (Execution.Outcome.after_nil _).symm, hb, by simpa using hdone⟩
  | cons m rest ih =>
    have hmem : ∀ m', m' ∈ done ++ m :: rest → m' ∈ ms ∧ place p m'.expr = some x := fun _ h => by
      have := hat ▸ h
      simpa using this
    obtain ⟨hm, hplace⟩ := hmem m (by simp)
    have hsub : (done ++ m :: rest).Sublist ms := hat ▸ List.filter_sublist
    -- what lies inside the expression was moved before it, to the same place
    have hvalue := Φ.value_of_moved (μ := μ) hb hm fun m' hm' hbelow hne => by
      have hstmt := (Program.statementOf_below Φ.tree Φ.walked (Φ.hoisted.inTree_expr hm)
        (fun i hi => Φ.hoisted.plain i ⟨m, hm, hi⟩) hbelow).2
      have hplace' : place p m'.expr = some x := by rw [← hplace, place, place, hstmt]
      have hlist : m' ∈ done ++ m :: rest := by
        rw [← hat]
        simp [hm', hplace']
      rcases List.mem_append.1 hlist with hlist | hlist
      · exact hdone m' hlist
      · rcases List.mem_cons.1 hlist with rfl | hlist
        · exact absurd rfl hne
        · have hapart := (Φ.hoisted.apart.sublist hsub).sublist (List.sublist_append_right done _)
          exact absurd hbelow ((List.pairwise_cons.1 hapart).1 m' hlist)
    have hnames : (done ++ m :: rest).Pairwise fun m m' =>
        b.build.nameOf m.name ≠ b.build.nameOf m'.name :=
      (List.pairwise_map.1 Φ.hoisted.distinct_names).sublist hsub
    have hnot : ∀ m' ∈ done, b.build.nameOf m'.name ≠ b.build.nameOf m.name := fun m' hm' =>
      (List.pairwise_append.1 hnames).2.2 m' hm' m List.mem_cons_self
    have hτ : τ.scopes ≠ [] := hb.scopes.ne_nil
    have hb₁ : Φ.Beside (y :: sh) σ { τ with
        scopes := declare (b.build.nameOf m.name) (value p.toArena μ σ m.expr) τ.scopes } :=
      ⟨hb.scopes.declare_hidden (by simpa using hy) (List.mem_map_of_mem hm) _, hb.rest⟩
    obtain ⟨τ₁, hruns, hb', hfound⟩ := ih (done ++ [m]) (by simpa using hat) hb₁ fun m' hm' => by
      rcases List.mem_append.1 hm' with hm' | hm'
      · exact (find?_declare_of_ne (hnot m' hm') _ _).trans (hdone m' hm')
      · rw [List.mem_singleton.1 hm']
        exact find?_declare_self hτ _ _
    refine ⟨τ₁, fun ts => ?_, hb', by simpa using hfound⟩
    rw [List.map_cons, List.cons_append, inOrder, Φ.execute_moved hm hvalue]
    simp only [Execution.Outcome.followed, onNext, decide_true, if_true, hruns,
      Execution.Outcome.after_after]
    rfl

/-- The declarations at a place are executed: what they stand for is in scope behind them. -/
theorem runs_declared {y : Layer} (hy : y ≠ .same) (hb : Φ.Beside (y :: sh) σ τ) (x : Place) :
    ∃ τ₁, (∀ ts, inOrder (execute b.build.toArena μ k) (declaredAt p ms x ++ ts) τ =
        (inOrder (execute b.build.toArena μ k) ts τ₁).after
          ((declaredAt p ms x).map .executed)) ∧
      Φ.Beside (y :: sh) σ τ₁ ∧ ∀ m ∈ ms, place p m.expr = some x → Φ.Found μ σ τ₁ m := by
  obtain ⟨τ₁, hruns, hb', hfound⟩ := Φ.runs_rest hy [] rfl hb (by simp) (x := x)
  refine ⟨τ₁, fun ts => ?_, hb', fun m hm hx => hfound m (by simp [hm, hx])⟩
  rw [declaredAt, hruns, List.map_map]
  rfl

end Declarations

end FromHeaders
end Hoist
end ShaderLoom
