import ShaderLoom.Proofs.Meaning.ResolutionSteps
import ShaderLoom.Proofs.Parents

/-! Resolution of expressions takes the small steps, whatever the program is. What an expression is
met for the first time in is a matter of the tree, and of which variables of the module have been
made: a variable is resolved where it is first used, and in a founded module it is not used again
before it is made. -/
namespace ShaderLoom

open Resolve

namespace Program

variable {p : Program} {U o : List NodeId} {r r₁ r₂ r' : Resolver}
    {es es' : List NodeId} {e : NodeId}

/-- A variable that the module declares. -/
def IsValue (p : Program) (g : NodeId) : Prop := g ∈ p.globals ∧ (p.asVariable? g).isSome = true

/-- Every variable that the module declares has been made. -/
def ValuesMade (p : Program) (r : Resolver) : Prop :=
  ∀ g, p.IsValue g → (r.facts.latest[g]?).isSome = true

/-- Where resolution stands before expressions that lie apart, while the variables `U` of the module
are being resolved: nothing is recorded of what it is going to meet. Inside a function all variables
of the module have been made, and elsewhere the expressions are part of one that is being
resolved. -/
structure Facing (p : Program) (U o : List NodeId) (r : Resolver) (es : List NodeId) : Prop where
  clear : p.Clear [] [] es
  placed : ∀ e ∈ es, ∀ x, p.shape? e = some (.expr x) → r.stmt = p.statementOf e ∧
    r.function.getD 0 = p.functionOf e
  hosted : ∀ e ∈ es, e ≠ 0 → p.Hosted o e
  known : LocalsKnown r.frames r.facts.table
  phase : p.ValuesMade r ∨
    r.function = none ∧ r.stmt = 0 ∧ ∃ u ∈ U, p.IsValue u ∧ ∀ e ∈ es, e ≠ 0 → p.Below u e
  fresh : p.Once r → ∀ e ∈ es, e ≠ 0 → ∀ j, p.Below e j → r.facts.exprs[j]? = none
  waiting : p.Once r → ∀ g, p.IsValue g → r.facts.latest[g]? = none → g ∉ U → ∀ j, p.Below g j →
    r.facts.exprs[j]? = none
  aimless : p.Founded → ∀ u ∈ U, ∀ v, p.asVariable? u = some v → ∀ e ∈ es,
    ¬ Relation.TransGen (Leads p.toArena p.scene.module) e v.initializer

/-- What resolution of the expressions comes to: besides them, it has recorded what is in variables
of the module that it has made on the way. -/
structure Passed (p : Program) (U o : List NodeId) (es : List NodeId) (r r' : Resolver) : Prop where
  course : p.Course (o, r) (o, r')
  function : r'.function = r.function
  stmt : r'.stmt = r.stmt
  known : LocalsKnown r.frames r.facts.table → LocalsKnown r'.frames r'.facts.table
  latest : ∀ d : NodeId, (r.facts.latest[d]?).isSome = true → (r'.facts.latest[d]?).isSome = true
  kept : ∀ j : NodeId, r'.facts.exprs[j]? = r.facts.exprs[j]? ∨ (∃ e ∈ es, e ≠ 0 ∧ p.Below e j) ∨
    ∃ g, p.IsValue g ∧ p.Below g j ∧
      (p.Once r → g ∉ U ∧ r.facts.latest[g]? = none ∧ (r'.facts.latest[g]?).isSome = true)

theorem Once.congr (hf : r'.function = r.function) : p.Once r' ↔ p.Once r := by
  simp only [Once, hf]

theorem ValuesMade.mono (h : p.ValuesMade r)
    (hl : ∀ d : NodeId, (r.facts.latest[d]?).isSome = true → (r'.facts.latest[d]?).isSome = true) :
    p.ValuesMade r' :=
  fun g hg => hl g (h g hg)

/-- What is not known later was not known before. -/
theorem unmade
    (hl : ∀ d : NodeId, (r.facts.latest[d]?).isSome = true → (r'.facts.latest[d]?).isSome = true)
    {g : NodeId} (hg : r'.facts.latest[g]? = none) : r.facts.latest[g]? = none := by
  by_contra hs
  have := hl g (Option.isSome_iff_ne_none.2 hs)
  simp [hg] at this

namespace Passed

theorem of_alone (hc : p.Course (o, r) (o, r')) (h : Alone e r r') (h0 : e ≠ 0) :
    p.Passed U o [e] r r' where
  course := hc
  function := h.function
  stmt := h.stmt
  known hk := by
    have hlatest : r'.facts.table.latest = r.facts.table.latest := by
      simp only [Facts.table, h.latest]
    rw [h.frames]
    exact hk.mono fun x hx => by rwa [hlatest]
  latest d hd := by rwa [h.latest]
  kept j := by
    by_cases hj : j = e
    · exact .inr (.inl ⟨e, List.mem_singleton.2 rfl, h0, hj ▸ .self⟩)
    · exact .inl (h.others j hj)

theorem of_idle (h : Idle r r') : p.Passed U o es r r' where
  course := .single (.calm h.toCalm)
  function := h.function
  stmt := h.stmt
  known hk := by
    have hlatest : r'.facts.table.latest = r.facts.table.latest := by
      simp only [Facts.table, h.latest]
    rw [h.frames]
    exact hk.mono fun x hx => by rwa [hlatest]
  latest d hd := by rwa [h.latest]
  kept j := .inl (by rw [h.exprs])

theorem refl (p : Program) (U o es : List NodeId) (r : Resolver) : p.Passed U o es r r :=
  of_idle (.refl r)

theorem trans (h : p.Passed U o es r r₁) (h' : p.Passed U o es' r₁ r₂) :
    p.Passed U o (es ++ es') r r₂ where
  course := h.course.trans h'.course
  function := h'.function.trans h.function
  stmt := h'.stmt.trans h.stmt
  known hk := h'.known (h.known hk)
  latest d hd := h'.latest d (h.latest d hd)
  kept j := by
    rcases h'.kept j with heq | ⟨e, he, hb⟩ | ⟨g, hg, hb, hwhen⟩
    · rcases h.kept j with heq' | ⟨e, he, hb⟩ | ⟨g, hg, hb, hwhen⟩
      · exact .inl (heq.trans heq')
      · exact .inr (.inl ⟨e, List.mem_append_left _ he, hb⟩)
      · exact .inr
          (.inr ⟨g, hg, hb, fun ho => ⟨(hwhen ho).1, (hwhen ho).2.1, h'.latest g (hwhen ho).2.2⟩⟩)
    · exact .inr (.inl ⟨e, List.mem_append_right _ he, hb⟩)
    · refine .inr (.inr ⟨g, hg, hb, fun ho => ?_⟩)
      obtain ⟨hU, hnew, hmade⟩ := hwhen ((Once.congr h.function).2 ho)
      exact ⟨hU, unmade h.latest hnew, hmade⟩

theorem mono (h : p.Passed U o es r r') (hes : ∀ e ∈ es, e ∈ es') : p.Passed U o es' r r' :=
  { h with kept := fun j => (h.kept j).imp_right (Or.imp_left fun ⟨e, he, hb⟩ =>
    ⟨e, hes e he, hb⟩) }

/-- What is below the children of a node is below the node. -/
theorem of_children {i : NodeId} {s : Shape Symbol NodeId} (hs : p.shape? i = some s)
    (hes : ∀ c ∈ es, c ∈ s.slots) (h : p.Passed U o es r r') : p.Passed U o [i] r r' :=
  { h with kept := fun j => (h.kept j).imp_right (Or.imp_left fun ⟨c, hc, hc0, hb⟩ =>
      ⟨i, List.mem_singleton.2 rfl, Arena.ne_zero_of_shape hs,
        .of_child (mem_children_of_slot hs (hes c hc) hc0) hb⟩) }

end Passed

namespace Facing

theorem sublist (h : p.Facing U o r es) (hes : es'.Sublist es) : p.Facing U o r es' where
  clear := h.clear.sublist hes
  placed e he := h.placed e (hes.subset he)
  hosted e he := h.hosted e (hes.subset he)
  known := h.known
  phase := h.phase.imp_right fun ⟨hf, hs, u, hu, hv, hb⟩ =>
    ⟨hf, hs, u, hu, hv, fun e he => hb e (hes.subset he)⟩
  fresh ho e he := h.fresh ho e (hes.subset he)
  waiting := h.waiting
  aimless hp u hu v hv e he := h.aimless hp u hu v hv e (hes.subset he)

end Facing

section Rooted

variable (hp : p.Rooted p.scene.module)
include hp

/-- Nothing lies in two variables of the module. -/
theorem Rooted.value_unique {g g' j : NodeId} (hg : p.IsValue g) (hg' : p.IsValue g')
    (hb : p.Below g j) (hb' : p.Below g' j) : g = g' := by
  by_contra hne
  exact hp.tree.disjoint p.inTree_root (hp.globals g hg.1) (hp.globals g' hg'.1) hne hb hb'

/-- The initializer of a variable of a founded module does not lead back to itself. -/
theorem Rooted.not_leads_back (hf : p.Founded) {g : NodeId} (hg : p.IsValue g)
    {v : VariableShape Symbol NodeId} (hv : p.asVariable? g = some v) :
    ¬ Relation.TransGen (Leads p.toArena p.scene.module) v.initializer v.initializer := by
  intro hlead
  have h0 : v.initializer ≠ 0 := by
    obtain ⟨x, hx, -⟩ := Relation.TransGen.head'_iff.1 hlead
    rcases hx with ⟨y, hy, -⟩ | ⟨s, d, w, hs, -⟩
    · exact Arena.ne_zero_of_shape hy
    · exact Arena.ne_zero_of_shape hs
  have hchild := mem_children_of_slot (c := v.initializer) (Arena.shape?_of_asVariable? hv)
    (by simp [Shape.slots]) h0
  exact hf _ (hp.tree.inTree_child (hp.tree.inTree_child p.inTree_root (hp.globals g hg.1)) hchild)
    hlead

/-- Where a variable lies that has not been made, nothing lies of what is being resolved. -/
theorem Facing.not_waiting (h : p.Facing U o r es) {g j : NodeId} (hg : p.IsValue g)
    (hnone : r.facts.latest[g]? = none) (hU : g ∉ U) (hb : p.Below g j) (he : e ∈ es) (h0 : e ≠ 0) :
    ¬ p.Below e j := by
  intro hej
  rcases h.phase with hmade | ⟨_, _, u, hu, hv, hub⟩
  · have := hmade g hg
    simp [hnone] at this
  · exact hU (hp.value_unique hv hg ((hub e he h0).trans hej) hb ▸ hu)

/-- What is still to come is faced after what comes first. -/
theorem Facing.passed (h : p.Facing U o r (es ++ es')) (hr : p.Passed U o es r r') :
    p.Facing U o r' es' := by
  have hright := h.sublist (List.sublist_append_right es es')
  have honce := Once.congr (p := p) hr.function
  refine ⟨hright.clear, fun e he x hx => ?_, hright.hosted, hr.known h.known, ?_,
    fun ho e he h0 j hb => ?_, fun ho g hg hg0 hU j hb => ?_, hright.aimless⟩
  · rw [hr.stmt, hr.function]
    exact hright.placed e he x hx
  · rw [hr.stmt, hr.function]
    exact hright.phase.imp_left fun hm => hm.mono hr.latest
  · rcases hr.kept j with heq | ⟨d, hd, hd0, hdb⟩ | ⟨g, hg, hgb, hwhen⟩
    · exact heq.trans (hright.fresh (honce.1 ho) e he h0 j hb)
    · exact absurd hb ((List.pairwise_append.1 h.clear.apart).2.2 d hd e he hd0 h0 j hdb)
    · obtain ⟨hU, hnew, _⟩ := hwhen (honce.1 ho)
      exact absurd hb (hright.not_waiting hp hg hnew hU hgb he h0)
  · have hnew := unmade hr.latest hg0
    rcases hr.kept j with heq | ⟨d, hd, hd0, hdb⟩ | ⟨g', hg', hgb, hwhen⟩
    · exact heq.trans (h.waiting (honce.1 ho) g hg hnew hU j hb)
    · exact absurd hdb (h.not_waiting hp hg hnew hU hb (List.mem_append_left _ hd) hd0)
    · obtain ⟨_, _, hmade⟩ := hwhen (honce.1 ho)
      rw [hp.value_unique hg' hg hgb hb, hg0] at hmade
      cases hmade

/-- An expression that was passed keeps what was recorded of it while others are passed. -/
theorem Facing.keeps (h : p.Facing U o r (es ++ es')) (hr : p.Passed U o es r r₁)
    (hr' : p.Passed U o es' r₁ r₂) (ho : p.Once r) (he : e ∈ es) (h0 : e ≠ 0) :
    r₂.facts.exprs[e]? = r₁.facts.exprs[e]? := by
  rcases hr'.kept e with heq | ⟨d, hd, hd0, hdb⟩ | ⟨g, hg, hgb, hwhen⟩
  · exact heq
  · exact absurd hdb ((List.pairwise_append.1 h.clear.apart).2.2 e he d hd h0 hd0 e .self)
  · obtain ⟨hU, hnew, _⟩ := hwhen ((Once.congr hr.function).2 ho)
    exact absurd .self
      (h.not_waiting hp hg (unmade hr.latest hnew) hU hgb (List.mem_append_left _ he) h0)

/-- So does its type. -/
theorem Facing.sees (h : p.Facing U o r (es ++ es')) (hr : p.Passed U o es r r₁)
    (hr' : p.Passed U o es' r₁ r₂) (ho : p.Once r) (he : e ∈ es) :
    r₂.facts.sees e = r₁.facts.sees e := by
  unfold Facts.sees
  split
  · rfl
  · next h0 => rw [h.keeps hp hr hr' ho he h0]

/-- Nothing lies below itself. -/
theorem Facing.not_below_operand (h : p.Facing U o r [e]) {x : ExprShape Symbol NodeId}
    (hx : p.shape? e = some (.expr x)) {d : NodeId} (hd : d ∈ x.operands) (h0 : d ≠ 0) :
    ¬ p.Below d e :=
  hp.tree.not_below_child (h.clear.inTree e (List.mem_singleton.2 rfl) (Arena.ne_zero_of_shape hx))
    (mem_children_of_slot hx (x.operands_slots.subset hd) h0)

/-- What is not recorded below variables that have not been made is not recorded once an expression
is met. -/
theorem Facing.waiting_met (h : p.Facing U o r [e]) (h0 : e ≠ 0) (y : ExprFacts) (ho : p.Once r)
    {g j : NodeId} (hg : p.IsValue g) (hnone : r.facts.latest[g]? = none) (hU : g ∉ U)
    (hb : p.Below g j) : (r.note e y).facts.exprs[j]? = none := by
  have hje : j ≠ e := by
    rintro rfl
    exact h.not_waiting hp hg hnone hU hb (List.mem_singleton.2 rfl) h0 .self
  rw [(alone_note r e y).others j hje]
  exact h.waiting ho g hg hnone hU j hb

variable (hw : p.Walked)
include hw

/-- The operands of an expression are faced once it is met. -/
theorem Facing.operands (h : p.Facing U o r [e]) {x : ExprShape Symbol NodeId}
    (hx : p.shape? e = some (.expr x)) (y : ExprFacts) :
    p.Facing U (e :: o) (r.note e y) x.operands := by
  have h0 := Arena.ne_zero_of_shape hx
  have hmem : e ∈ [e] := List.mem_singleton.2 rfl
  have hin := h.clear.inTree e hmem h0
  have hchild : ∀ d ∈ x.operands, d ≠ 0 → d ∈ p.children e := fun d hd hd0 =>
    mem_children_of_slot hx (x.operands_slots.subset hd) hd0
  have hparent : ∀ d ∈ x.operands, d ≠ 0 → p.parent d = e :=
    fun d hd hd0 => hp.tree.parent hin (hchild d hd hd0)
  refine ⟨h.clear.children hp.tree hx x.operands_slots, fun d hd y' hy => ?_,
    fun d hd hd0 j y' hj hy hm => ?_, h.known, ?_,
    fun ho d hd hd0 j hb => ?_, fun ho g hg hg0 hU j hb => h.waiting_met hp h0 y ho hg hg0 hU hb,
    fun hf u hu v hv d hd hlead => ?_⟩
  · have hd0 := Arena.ne_zero_of_shape hy
    obtain ⟨hstmt, hfn⟩ := h.placed e hmem x hx
    constructor
    · have hne : p.parent d ≠ 0 := by rwa [hparent d hd hd0]
      rw [hw.statementOf_child hne, hparent d hd hd0, hx]
      exact hstmt
    · have hnot : p.function? d = none := by simp [Arena.function?, hy, Shape.function?]
      rw [hw.functionOf_eq hd0, hnot, hparent d hd hd0]
      exact hfn
  · have hj' := hp.tree.parent hj (mem_children_of_slot hy (y'.operands_slots.subset hm) hd0)
    rw [hparent d hd hd0] at hj'
    exact hj' ▸ List.mem_cons_self
  · refine h.phase.imp_right fun hphase => ?_
    obtain ⟨hf, hs, u, hu, hv, hb⟩ := hphase
    exact ⟨hf, hs, u, hu, hv, fun d hd hd0 => (hb e hmem h0).child (hchild d hd hd0)⟩
  · have hje : j ≠ e := by
      rintro rfl
      exact h.not_below_operand hp hx hd hd0 hb
    rw [(alone_note r e y).others j hje]
    exact h.fresh ho e hmem h0 j (.of_child (hchild d hd hd0) hb)
  · exact h.aimless hf u hu v hv e hmem (.head (.inl ⟨x, hx, hd⟩) hlead)

/-- Nothing that the module declares is in a statement. -/
theorem Rooted.statementOf_declared {g : NodeId} (hg : g ∈ p.globals) : p.statementOf g = 0 := by
  refine hw.statementOf_global (hp.tree.parent p.inTree_root (hp.globals g hg)) ?_
  unfold Program.globals at hg
  split at hg
  · next gs hgs => simp [hgs, Shape.isStatement]
  · cases hg

/-- The initializer of a variable of the module is faced outside functions, if nothing is recorded
of it. -/
theorem Facing.of_value {d : NodeId} {v : VariableShape Symbol NodeId} (hd : p.IsValue d)
    (hv : p.asVariable? d = some v) (hf : r.function = none) (hs : r.stmt = 0)
    (hk : LocalsKnown r.frames r.facts.table)
    (hfresh : p.Once r → ∀ j, p.Below d j → r.facts.exprs[j]? = none)
    (hwait : p.Once r → ∀ g, p.IsValue g → r.facts.latest[g]? = none → g ∉ d :: U →
      ∀ j, p.Below g j → r.facts.exprs[j]? = none)
    (haim : p.Founded → ∀ u ∈ d :: U, ∀ w, p.asVariable? u = some w →
      ¬ Relation.TransGen (Leads p.toArena p.scene.module) v.initializer w.initializer) :
    p.Facing (d :: U) o r [v.initializer] := by
  have hshape := Arena.shape?_of_asVariable? hv
  have hroot : d ∈ p.children p.root := hp.globals d hd.1
  have hin : p.inTree d = true := hp.tree.inTree_child p.inTree_root hroot
  have hsub : [v.initializer].Sublist (Shape.slots (ν := Symbol) (.decl (.value v))) := by
    simp [Shape.slots]
  have hclear : p.Clear [] [] [d] := hp.clear_globals (List.singleton_sublist.2 hd.1)
  have hchild : v.initializer ≠ 0 → v.initializer ∈ p.children d := fun h0 =>
    mem_children_of_slot hshape (by simp [Shape.slots]) h0
  have hmodule : ∃ gs, p.shape? p.root = some (.module gs) := by
    have hg := hd.1
    unfold globals at hg
    split at hg
    · next gs hgs => exact ⟨gs, hgs⟩
    · cases hg
  obtain ⟨gs, hgs⟩ := hmodule
  have hparent := hp.tree.parent p.inTree_root hroot
  refine ⟨hclear.children hp.tree hshape hsub, fun i hi x hx => ?_, fun i hi h0 j x hj hx hm => ?_,
    hk, .inr ⟨hf, hs, d, List.mem_cons_self, hd, fun i hi h0 => ?_⟩, fun ho i hi h0 j hb =>
      ?_, hwait, fun hp u hu w hw i hi => ?_⟩
    <;> obtain rfl := List.mem_singleton.1 hi
  · have h0 := Arena.ne_zero_of_shape hx
    have hparent' := hp.tree.parent hin (hchild h0)
    have hnone : p.function? v.initializer = none := by simp [Arena.function?, hx, Shape.function?]
    have hnone' : p.function? d = none := by simp [Arena.function?, hshape, Shape.function?]
    have hnone'' : p.function? p.root = none := by simp [Arena.function?, hgs, Shape.function?]
    constructor
    · rw [hw.statementOf_child (by rw [hparent']; exact Arena.ne_zero_of_shape hshape),
        hparent', hshape]
      exact hs.trans (hp.statementOf_declared hw hd.1).symm
    · rw [hw.functionOf_eq h0, hnone, hparent', hw.functionOf_eq (Arena.ne_zero_of_shape hshape),
        hnone', hparent, hw.functionOf_root hnone'']
      exact congrArg (Option.getD · 0) hf
  · have hj' := hp.tree.parent hj (mem_children_of_slot hx (x.operands_slots.subset hm) h0)
    rw [hp.tree.parent hin (hchild h0)] at hj'
    subst hj'
    rw [hshape] at hx
    cases hx
  · exact Below.self.child (hchild h0)
  · exact hfresh ho j (.of_child (hchild h0) hb)
  · exact haim hp u hu w hw

/-- The initializer of a variable of the module is faced where the variable is first used. -/
theorem Facing.initializer (h : p.Facing U o r [e]) {s : Symbol}
    (hs : p.shape? e = some (.expr (.ident s))) {d : NodeId}
    (hd : visible p.scene.module r.frames s = some d) (hnone : r.facts.latest[d]? = none)
    {v : VariableShape Symbol NodeId} (hv : p.asVariable? d = some v) (y : ExprFacts) :
    p.IsValue d ∧ (p.Once r → d ∉ U) ∧ p.Facing (d :: U) (e :: o) (r.note e y) [v.initializer] := by
  have h0 := Arena.ne_zero_of_shape hs
  have hmem : e ∈ [e] := List.mem_singleton.2 rfl
  have hfind : p.scene.module.find? s = some d := h.known.find? hd hnone
  have hvalue : p.IsValue d := ⟨hp.names s d hfind, by simp [hv]⟩
  have hlead : Leads p.toArena p.scene.module e v.initializer := .inr ⟨s, d, v, hs, hfind, hv, rfl⟩
  have hphase : r.function = none ∧ r.stmt = 0 := by
    rcases h.phase with hmade | ⟨hf, hst, _⟩
    · have := hmade d hvalue
      simp [hnone] at this
    · exact ⟨hf, hst⟩
  have hU : p.Once r → d ∉ U := by
    rintro (hf | hf) hd'
    · exact h.aimless hf d hd' v hv e hmem (.single hlead)
    · rw [hphase.1] at hf
      cases hf
  refine ⟨hvalue, hU, .of_value hp hw hvalue hv hphase.1 hphase.2 h.known (fun ho j hb => ?_)
    (fun ho g hg hg0 hgU j hb => ?_) fun hf u hu w hw' hlead' => ?_⟩
  · exact h.waiting_met hp h0 y ho hvalue hnone (hU ho) hb
  · exact h.waiting_met hp h0 y ho hg hg0 (fun hm => hgU (List.mem_cons_of_mem _ hm)) hb
  · rcases List.mem_cons.1 hu with rfl | hu
    · cases hv.symm.trans hw'
      exact hp.not_leads_back hf hvalue hv hlead'
    · exact h.aimless hf u hu w hw' e hmem (.head hlead hlead')

end Rooted

theorem ends_declareLocal (s : Symbol) (d : NodeId) (r : Resolver) :
    Ends (declareLocal s d) r fun new r' => ∃ frames, r' = { r with frames } ∧
      (new = true ∧ declareIn r.frames s d = some frames ∨ new = false ∧ frames = r.frames) := by
  unfold declareLocal
  refine .modifyGet ?_
  split
  · next h => exact ⟨r.frames, rfl, .inl ⟨rfl, by simp [h, declareIn]⟩⟩
  · next top rest h =>
    split
    · exact ⟨r.frames, rfl, .inr ⟨rfl, rfl⟩⟩
    · next hnew => exact ⟨_, rfl, .inl ⟨rfl, by simp [h, declareIn, hnew]⟩⟩

/-- A variable is made, and nothing is new but that. -/
structure Makes (p : Program) (o : List NodeId) (d : NodeId) (r r' : Resolver) : Prop where
  course : p.Course (o, r) (o, r')
  exprs : r'.facts.exprs = r.facts.exprs
  function : r'.function = r.function
  stmt : r'.stmt = r.stmt
  known : LocalsKnown r.frames r.facts.table → LocalsKnown r'.frames r'.facts.table
  latest : ∀ x : NodeId, (r'.facts.latest[x]?).isSome = true ↔ x = d ∨
    (r.facts.latest[x]?).isSome = true

theorem Makes.passed {d : NodeId} (h : p.Makes o d r r') : p.Passed U o es r r' :=
  ⟨h.course, h.function, h.stmt, h.known, fun x hx => (h.latest x).2 (.inr hx),
    fun j => .inl (by rw [h.exprs])⟩

theorem makes_variable (c : Scene) (d : NodeId) (v : VariableShape Symbol NodeId)
    (scope : VariableScope) (t : Option Ty) (r : Resolver) :
    Ends (variableType c d v t >>= makeVariable c d v scope) r fun _ r' => p.Makes o d r r' := by
  have hlast : ∀ (t : Option Ty) (r : Resolver), Ends (do
      let number := (← get).facts.vars.size
      mapFacts (·.addVariable (variableFacts c.arena d v scope t))
      return some number) r fun _ r' =>
        r' = r.make (variableFacts c.arena d v scope t) := fun t r =>
    .get (.bind (.modify (.pure rfl)))
  -- The variable is made after steps that may add its name to the innermost level.
  have hmade : ∀ {t : Option Ty} {r r₁ r' : Resolver},
      Calm r r₁ → r₁.facts.latest = r.facts.latest → r₁.stmt = r.stmt →
      (r₁.frames = r.frames ∨ declareIn r.frames v.name d = some r₁.frames) →
      r' = r₁.make (variableFacts c.arena d v scope t) → p.Makes o d r r' := by
    intro t r r₁ r' hcalm hlatest hstmt hframes hr'
    subst hr'
    have hdecl := decl_variableFacts c.arena d v scope t
    have htable : (r₁.make (variableFacts c.arena d v scope t)).facts.table =
        r₁.facts.table.addValue d (variableFacts c.arena d v scope t).type := by
      have h := r₁.facts.table_addVariable (variableFacts c.arena d v scope t)
      rwa [hdecl] at h
    have hmono : ∀ x, (r.facts.table.latest x).isSome → (r₁.facts.table.latest x).isSome := by
      intro x hx
      simpa only [Facts.table, hlatest] using hx
    refine ⟨.head (.calm hcalm) (.single (.made _ (users_variableFacts _ _ _ _ _))), hcalm.exprs,
      hcalm.function, hstmt, fun hk => ?_, fun x => ?_⟩
    · rw [htable]
      rcases hframes with heq | hdeclare
      · rw [show (r₁.make (variableFacts c.arena d v scope t)).frames = r.frames from heq]
        refine hk.mono fun x hx => ?_
        rw [Table.latest_addValue, Function.update_apply]
        split
        · rfl
        · exact hmono x hx
      · exact hk.declare hmono hdeclare
    · simp only [Resolver.make, Facts.addVariable, hdecl, Std.TreeMap.getElem?_insert, hlatest,
        Nat.compare_eq_eq]
      by_cases hx : d = x
      · simp [hx]
      · simp [hx, Ne.symm hx]
  refine .bind (((typeTouch_variableType c d v t).idle r).mono fun t r₁ h₁ => ?_)
  unfold makeVariable
  split
  · refine .bind ((ends_declareLocal v.name d r₁).mono fun new r₂ h₂ => ?_)
    obtain ⟨frames, rfl, hframes⟩ := h₂
    have hcalm : Calm r { r₁ with frames } := h₁.toCalm.trans ⟨rfl, rfl, rfl, rfl, rfl, rfl, rfl⟩
    rcases hframes with ⟨rfl, hdeclare⟩ | ⟨rfl, rfl⟩
    · refine (hlast t _).mono fun _ r' h => hmade hcalm h₁.latest h₁.stmt (.inr ?_) h
      rwa [← h₁.frames]
    · refine .bind (.modify ((hlast t _).mono fun _ r' h => hmade ?_ ?_ ?_ ?_ h))
      · exact hcalm.trans ⟨rfl, rfl, rfl, rfl, rfl, rfl, rfl⟩
      · exact h₁.latest
      · exact h₁.stmt
      · exact .inl h₁.frames
  · exact (hlast t r₁).mono fun _ r' h => hmade h₁.toCalm h₁.latest h₁.stmt (.inl h₁.frames) h

/-- A variable is made after its initializer was passed. -/
theorem course_variable {n : Nat} {d : NodeId} {v : VariableShape Symbol NodeId}
    (scope : VariableScope) {r : Resolver}
    (h : Ends (expr p.scene n v.initializer) r fun _ r' => p.Passed U o [v.initializer] r r') :
    Ends (resolveVariable p.scene (n + 1) d v scope) r fun _ r' =>
      ∃ r₁, p.Passed U o [v.initializer] r r₁ ∧ p.Makes o d r₁ r' := by
  unfold resolveVariable
  exact .bind (h.mono fun t r₁ h₁ => (makes_variable p.scene d v scope t r₁).mono fun _ r' h' =>
    ⟨r₁, h₁, h'⟩)

/-- An expression that was met is settled once what is in it was passed, and its entry was left
alone. -/
theorem Facing.closed (h : p.Facing U o r [e]) {x : ExprShape Symbol NodeId}
    (hx : p.shape? e = some (.expr x))
    (hr : p.Passed U (e :: o) [e] (r.note e { stmt := p.statementOf e }) r₁)
    (hself : p.Once r → r₁.facts.exprs[e]? = some { stmt := p.statementOf e }) {t : Option Ty}
    (hc : Closes p o e x r₁ t r') : p.Passed U o [e] r r' ∧ (p.Once r → t = r'.facts.sees e) := by
  have h0 := Arena.ne_zero_of_shape hx
  have hmem : e ∈ [e] := List.mem_singleton.2 rfl
  have hstart := alone_note r e { stmt := p.statementOf e }
  have hat : ∀ {r₂ : Resolver}, r₂.function = r.function → p.At o r₂ e x := fun hf =>
    ⟨h.clear.inTree e hmem h0, hx, by rw [hf]; exact (h.placed e hmem x hx).2, h.hosted e hmem h0⟩
  have hblank : p.Blank r₁ e := fun ho => hself ((Once.congr hr.function).1 ho)
  have hmet : p.Advance (o, r) (e :: o, r.note e { stmt := p.statementOf e }) :=
    .met (hat rfl) fun ho => h.fresh ho e hmem h0 e .self
  have hlatest : r'.facts.table.latest = r₁.facts.table.latest := by
    simp only [Facts.table, hc.alone.latest]
  refine ⟨⟨.head hmet (hr.course.trans (hc.course (hat hr.function) hblank)),
    hc.alone.function.trans hr.function,
    hc.alone.stmt.trans hr.stmt, fun hk => ?_, fun d hd => ?_, fun j => ?_⟩,
    fun ho => hc.type (hat hr.function) hblank ((Once.congr hr.function).2 ho)⟩
  · rw [hc.alone.frames]
    exact (hr.known hk).mono fun x hx => by rwa [hlatest]
  · rw [hc.alone.latest]
    exact hr.latest d hd
  · by_cases hj : j = e
    · exact .inr (.inl ⟨e, hmem, h0, hj ▸ .self⟩)
    · rw [hc.alone.others j hj, hc.alone.latest]
      exact (hr.kept j).imp_left fun heq => heq.trans (hstart.others j hj)

section Settled

variable (hp : p.Rooted p.scene.module)
include hp

/-- An expression is settled once its operands were passed. -/
theorem Facing.settled (h : p.Facing U o r [e]) {x : ExprShape Symbol NodeId}
    (hx : p.shape? e = some (.expr x))
    (hr : p.Passed U (e :: o) x.operands (r.note e { stmt := p.statementOf e }) r₁) {t : Option Ty}
    (hc : Closes p o e x r₁ t r') : p.Passed U o [e] r r' ∧ (p.Once r → t = r'.facts.sees e) := by
  have h0 := Arena.ne_zero_of_shape hx
  have hmem : e ∈ [e] := List.mem_singleton.2 rfl
  refine h.closed hx (hr.of_children hx fun d hd => x.operands_slots.subset hd) (fun ho => ?_) hc
  rcases hr.kept e with heq | ⟨d, hd, hd0, hb⟩ | ⟨g, hg, hb, hwhen⟩
  · rw [heq]
    simp [Resolver.note]
  · exact absurd hb (h.not_below_operand hp hx hd hd0)
  · obtain ⟨hU, hnew, _⟩ := hwhen ho
    exact absurd .self (h.not_waiting hp hg hnew hU hb hmem h0)

/-- An identifier is settled once the variable of the module was made that it is the first to
use. -/
theorem Facing.entered (h : p.Facing U o r [e]) {s : Symbol}
    (hs : p.shape? e = some (.expr (.ident s))) {d : NodeId} (hvalue : p.IsValue d)
    (hnone : r.facts.latest[d]? = none) (hU : p.Once r → d ∉ U) {v : VariableShape Symbol NodeId}
    (hv : p.asVariable? d = some v)
    (hr : p.Passed (d :: U) (e :: o) [v.initializer] (r.note e { stmt := p.statementOf e }) r₁)
    (hm : p.Makes (e :: o) d r₁ r₂) {t : Option Ty} (hc : Closes p o e (.ident s) r₂ t r') :
    p.Passed U o [e] r r' ∧ (p.Once r → t = r'.facts.sees e) := by
  have h0 := Arena.ne_zero_of_shape hs
  have hmem : e ∈ [e] := List.mem_singleton.2 rfl
  have hmakes : p.Passed (d :: U) (e :: o) [] r₁ r₂ := hm.passed
  have hall := hr.trans hmakes
  have hmade : (r₂.facts.latest[d]?).isSome = true := (hm.latest d).2 (.inl rfl)
  -- What is below the initializer is below the variable, which has been made on the way.
  have hin : ∀ j, (∃ i ∈ [v.initializer] ++ [], i ≠ 0 ∧ p.Below i j) → p.Below d j := by
    rintro j ⟨i, hi, hi0, hb⟩
    obtain rfl : i = v.initializer := by simpa using hi
    exact .of_child
      (mem_children_of_slot (Arena.shape?_of_asVariable? hv) (by simp [Shape.slots]) hi0) hb
  have hkept : ∀ j : NodeId,
      r₂.facts.exprs[j]? = (r.note e { stmt := p.statementOf e }).facts.exprs[j]? ∨
      ∃ g, p.IsValue g ∧ p.Below g j ∧
        (p.Once r → g ∉ U ∧ r.facts.latest[g]? = none ∧ (r₂.facts.latest[g]?).isSome = true) := by
    intro j
    rcases hall.kept j with heq | hi | ⟨g, hg, hb, hwhen⟩
    · exact .inl heq
    · exact .inr ⟨d, hvalue, hin j hi, fun ho => ⟨hU ho, hnone, hmade⟩⟩
    · refine .inr ⟨g, hg, hb, fun ho => ?_⟩
      obtain ⟨hgU, hnew, hgmade⟩ := hwhen ho
      exact ⟨fun hm => hgU (List.mem_cons_of_mem _ hm), hnew, hgmade⟩
  refine h.closed hs { hall with kept := fun j => (hkept j).imp_right .inr } (fun ho => ?_) hc
  rcases hkept e with heq | ⟨g, hg, hb, hwhen⟩
  · rw [heq]
    simp [Resolver.note]
  · obtain ⟨hgU, hnew, _⟩ := hwhen ho
    exact absurd .self (h.not_waiting hp hg hnew hgU hb hmem h0)

end Settled

/-- A selection says nothing but what is selected. -/
theorem selected_plain {f : Facts} {name : String} {t : Ty} {g : ExprFacts → ExprFacts}
    (h : selected f name t = .ok g) (x : ExprFacts) :
    (g x).stmt = x.stmt ∧ (g x).variableId = x.variableId ∧ (g x).target = x.target := by
  unfold selected at h
  split at h <;> first | (split at h <;> cases h <;> exact ⟨rfl, rfl, rfl⟩) | cases h

section Expressions

variable (hp : p.Rooted p.scene.module) (hw : p.Walked)
include hp hw

omit hw in
/-- Expressions are passed one after another. -/
theorem course_all {one : NodeId → Resolve (Option Ty)}
    (hone : ∀ e r, p.Facing U o r [e] → Ends (one e) r fun t r' => p.Passed U o [e] r r' ∧
      (p.Once r → t = r'.facts.sees e)) (es : List NodeId) (r : Resolver) (h : p.Facing U o r es) :
    Ends (es.mapM one) r fun _ r' => p.Passed U o es r r' := by
  induction es generalizing r with
  | nil => exact .pure (.refl p U o [] r)
  | cons e es ih =>
    rw [List.mapM_cons]
    refine .bind ((hone e r (h.sublist (by simp))).mono fun t r₁ h₁ => ?_)
    have h' : p.Facing U o r₁ es := Facing.passed hp (show p.Facing U o r ([e] ++ es) from h) h₁.1
    exact .bind ((ih r₁ h').mono fun ts r₂ h₂ => .pure (h₁.1.trans h₂))

/-- Expressions, calls and variables are passed, whatever the bound on how deep resolution looks. -/
theorem course_expressions (n : Nat) :
    (∀ U o e r, p.Facing U o r [e] → Ends (expr p.scene n e) r fun t r' =>
      p.Passed U o [e] r r' ∧ (p.Once r → t = r'.facts.sees e)) ∧
    (∀ U o e g args r, p.Facing U (e :: o) r args →
      Ends (call p.scene n e { stmt := p.statementOf e } g args) r
      fun t r' => ∃ r₁, p.Passed U (e :: o) args r r₁ ∧ Closes p o e (.call g args) r₁ t r') ∧
    ∀ U o d v scope r, p.asVariable? d = some v → p.Facing U o r [v.initializer] →
      Ends (resolveVariable p.scene n d v scope) r fun made r' =>
        made = none ∧ Idle r r' ∨ ∃ r₁, p.Passed U o [v.initializer] r r₁ ∧ p.Makes o d r₁ r' := by
  have hrefuse : ∀ (i : NodeId) (message : String) (r : Resolver),
      Ends (refuse p.scene i message) r fun t r' => t = none ∧ Idle r r' := fun i message r =>
    .bind (.modify (.pure ⟨rfl, ⟨rfl, rfl, rfl, rfl, rfl, rfl, rfl⟩, rfl, rfl, rfl⟩))
  induction n with
  | zero =>
    refine ⟨fun U o e r h => ?_, fun U o e g args r h => ?_, fun U o d v scope r hv h => ?_⟩
    · unfold expr
      refine (hrefuse e _ r).mono fun t r' h' => ⟨.of_idle h'.2, fun ho => ?_⟩
      rw [h'.1, h'.2.toCalm.sees, Facts.sees]
      split
      · rfl
      · next h0 => rw [h.fresh ho e (List.mem_singleton.2 rfl) h0 e .self, Option.bind_none]
    · unfold call
      exact (closes_refuse p.scene (fun _ _ _ h => by cases h) e _ r).mono fun t r' h' =>
        ⟨r, .refl p U _ args r, h'⟩
    · unfold resolveVariable
      exact .bind ((hrefuse d _ r).mono fun t r' h' => .pure (.inl ⟨rfl, h'.2⟩))
  | succ n ih =>
    obtain ⟨ihExpr, ihCall, ihVar⟩ := ih
    refine ⟨fun U o e r h => ?_, fun U o e g args r h => ?_, fun U o d v scope r hv h => ?_⟩
    · unfold expr
      split
      · next h0 => exact .pure ⟨.refl p U o [e] r, fun _ => by simp [Facts.sees, h0]⟩
      · next h0 =>
        have hmem : e ∈ [e] := List.mem_singleton.2 rfl
        refine .get ?_
        dsimp only
        refine .bind (.modify ?_)
        change Ends _ (r.note e { stmt := r.stmt }) _
        have hplain : ∀ {x : ExprShape Symbol NodeId} {y : ExprFacts} {r₁ : Resolver},
            p.shape? e = some (.expr x) →
            y.stmt = p.statementOf e → y.variableId = none → y.target = none →
            (∀ op l k, x ≠ .binary op l k) →
            p.Passed U (e :: o) x.operands (r.note e { stmt := p.statementOf e }) r₁ →
            Ends (finish e y) r₁ fun t r' =>
              p.Passed U o [e] r r' ∧ (p.Once r → t = r'.facts.sees e) :=
          fun hx hs hv ht hnot h₁ =>
            (closes_finish hs hv ht fun op l k he => absurd he (hnot op l k)).mono
            fun _ _ hc => h.settled hp hx h₁ hc
        have hrefused : ∀ {x : ExprShape Symbol NodeId} {r₁ : Resolver} (message : String),
            p.shape? e = some (.expr x) →
            (∀ op l k, x ≠ .binary op l k) →
            p.Passed U (e :: o) x.operands (r.note e { stmt := p.statementOf e }) r₁ →
            Ends (refuse p.scene e message) r₁ fun t r' =>
              p.Passed U o [e] r r' ∧ (p.Once r → t = r'.facts.sees e) :=
          fun message hx hnot h₁ => (closes_refuse p.scene hnot e message _).mono fun _ _ hc =>
            h.settled hp hx h₁ hc
        have hleft : ∀ {x : ExprShape Symbol NodeId} {r₁ : Resolver}, p.shape? e = some (.expr x) →
            (∀ op l k, x ≠ .binary op l k) →
            p.Passed U (e :: o) x.operands (r.note e { stmt := p.statementOf e }) r₁ →
            p.Passed U o [e] r r₁ ∧ (p.Once r → none = r₁.facts.sees e) :=
          fun hx hnot h₁ => h.settled hp hx h₁ (.left hnot _)
        split
        · next s hs =>
          have hs : p.shape? e = some (.expr (.ident s)) := hs
          rw [(h.placed e hmem _ hs).1]
          have hnot : ∀ op l k, (ExprShape.ident s : ExprShape Symbol NodeId) ≠ .binary op l k :=
            fun _ _ _ h => by cases h
          have huse : ∀ (n : VariableId) (r₁ : Resolver)
              (hr : p.Passed U (e :: o) [] (r.note e { stmt := p.statementOf e }) r₁),
              Ends (useVariable e { stmt := p.statementOf e } n) r₁ fun t r' =>
                p.Passed U o [e] r r' ∧ (p.Once r → t = r'.facts.sees e) := fun n r₁ h₁ =>
            (closes_useVariable s n r₁).mono fun _ _ hc => h.settled hp hs h₁ hc
          refine .bind (.get (.pure ?_))
          split
          · exact hrefused _ hs hnot (.refl p U _ _ _)
          · next d hd =>
            have hd : visible p.scene.module r.frames s = some d := hd
            refine .get ?_
            split
            · exact huse _ _ (.refl p U _ _ _)
            · next v hnone hv =>
              have hnone : r.facts.latest[d]? = none := hnone
              have hv : p.asVariable? d = some v := hv
              obtain ⟨hvalue, hU, hface⟩ :=
                h.initializer hp hw hs hd hnone hv { stmt := p.statementOf e }
              refine .bind ((ihVar (d :: U) (e :: o) d v .global _ hv hface).mono fun made r₁ h₁ =>
                ?_)
              rcases h₁ with ⟨rfl, hidle⟩ | ⟨r₀, h₀, h₁⟩
              · exact .pure (hleft hs hnot (.of_idle hidle))
              · have hend : ∀ {t : Option Ty} {r' : Resolver}, Closes p o e (.ident s) r₁ t r' →
                    p.Passed U o [e] r r' ∧ (p.Once r → t = r'.facts.sees e) :=
                  h.entered hp hs hvalue hnone hU hv h₀ h₁
                cases made with
                | none => exact .pure (hend (.left hnot _))
                | some n => exact (closes_useVariable s n r₁).mono fun _ _ hc => hend hc
            · exact hrefused _ hs hnot (.refl p U _ _ _)
        · next value suffix hx =>
          have hx : p.shape? e = some (.expr (.int value suffix)) := hx
          rw [(h.placed e hmem _ hx).1]
          exact hplain hx rfl rfl rfl (fun _ _ _ h => by cases h) (.refl p U _ _ _)
        · next value hx =>
          have hx : p.shape? e = some (.expr (.float value)) := hx
          rw [(h.placed e hmem _ hx).1]
          exact hplain hx rfl rfl rfl (fun _ _ _ h => by cases h) (.refl p U _ _ _)
        · next value hx =>
          have hx : p.shape? e = some (.expr (.bool value)) := hx
          rw [(h.placed e hmem _ hx).1]
          exact hplain hx rfl rfl rfl (fun _ _ _ h => by cases h) (.refl p U _ _ _)
        · next op l k hx =>
          have hx : p.shape? e = some (.expr (.binary op l k)) := hx
          rw [(h.placed e hmem _ hx).1]
          have hops : p.Facing U (e :: o) (r.note e { stmt := p.statementOf e }) ([l] ++ [k]) :=
            h.operands hp hw hx { stmt := p.statementOf e }
          refine .bind ((ihExpr U (e :: o) l _ (hops.sublist (by simp))).mono fun lt r₁ h₁ => ?_)
          have hk := Facing.passed hp hops h₁.1
          refine .bind ((ihExpr U (e :: o) k r₁ hk).mono fun kt r₂ h₂ => ?_)
          have honce : p.Once r₂ → p.Once r := fun ho =>
            (Once.congr (h₁.1.function : r₁.function = r.function)).1
              ((Once.congr h₂.1.function).1 ho)
          refine (closes_finish rfl rfl rfl fun op' l' k' he ho => ?_).mono fun t r' hc =>
            h.settled hp hx (h₁.1.trans h₂.1) hc
          cases he
          have ho := honce ho
          rw [h₁.2 ho, h₂.2 ((Once.congr (h₁.1.function : r₁.function = r.function)).2 ho),
            hops.sees hp h₁.1 h₂.1 ho (List.mem_singleton.2 rfl)]
        · next op d hx =>
          have hx : p.shape? e = some (.expr (.unary op d)) := hx
          rw [(h.placed e hmem _ hx).1]
          have hops := h.operands hp hw hx { stmt := p.statementOf e }
          exact .bind ((ihExpr U (e :: o) d _ hops).mono fun t r₁ h₁ =>
            hplain hx rfl rfl rfl (fun _ _ _ h => by cases h) h₁.1)
        · next g args hx =>
          have hx : p.shape? e = some (.expr (.call g args)) := hx
          rw [(h.placed e hmem _ hx).1]
          have hops := h.operands hp hw hx { stmt := p.statementOf e }
          refine (ihCall U o e g args _ hops).mono fun t r' h' => ?_
          obtain ⟨r₁, h₁, hc⟩ := h'
          exact h.settled hp hx h₁ hc
        · next d i hx =>
          have hx : p.shape? e = some (.expr (.index d i)) := hx
          rw [(h.placed e hmem _ hx).1]
          have hnot : ∀ op l k, (ExprShape.index d i : ExprShape Symbol NodeId) ≠ .binary op l k :=
            fun _ _ _ h => by cases h
          have hops : p.Facing U (e :: o) (r.note e { stmt := p.statementOf e }) ([d] ++ [i]) :=
            h.operands hp hw hx { stmt := p.statementOf e }
          refine .bind ((ihExpr U (e :: o) d _ (hops.sublist (by simp))).mono fun t r₁ h₁ => ?_)
          refine .bind ((ihExpr U (e :: o) i r₁ (Facing.passed hp hops h₁.1)).mono fun _ r₂ h₂ =>
            ?_)
          have hall := h₁.1.trans h₂.1
          split
          · exact .pure (hleft hx hnot hall)
          · exact hplain hx rfl rfl rfl hnot hall
          · exact hrefused _ hx hnot hall
        · next d s hx =>
          have hx : p.shape? e = some (.expr (.member d s)) := hx
          rw [(h.placed e hmem _ hx).1]
          have hnot : ∀ op l k, (ExprShape.member d s : ExprShape Symbol NodeId) ≠ .binary op l k :=
            fun _ _ _ h => by cases h
          have hops := h.operands hp hw hx { stmt := p.statementOf e }
          refine .bind ((ihExpr U (e :: o) d _ hops).mono fun t r₁ h₁ => .get ?_)
          split
          · exact .pure (hleft hx hnot h₁.1)
          · next g hg =>
            obtain ⟨t, -, hg⟩ := Option.map_eq_some_iff.1 hg
            obtain ⟨hst, hvar, htarget⟩ := selected_plain hg { stmt := p.statementOf e }
            exact hplain hx hst hvar htarget hnot h₁.1
          · exact hrefused _ hx hnot h₁.1
        · next hident hint hfloat hbool hbinary hunary hcall hindex hmember =>
          refine .bind (.modify ((hrefuse e _ _).mono fun t r' h' => ?_))
          change t = none ∧ Idle (r.mistake e { stmt := r.stmt }) r' at h'
          have halone := (alone_mistake r e { stmt := r.stmt }).trans (h'.2.alone e)
          have hstep : p.Advance (o, r) (o, r.mistake e { stmt := r.stmt }) := by
            refine .mistaken _ fun y hy => ?_
            have hy : p.scene.arena.shape? e = some (.expr y) := hy
            cases y with
            | ident s => exact hident s hy
            | int value suffix => exact hint value suffix hy
            | float value => exact hfloat value hy
            | bool value => exact hbool value hy
            | binary op l k => exact hbinary op l k hy
            | unary op d => exact hunary op d hy
            | call g args => exact hcall g args hy
            | index d i => exact hindex d i hy
            | member d s => exact hmember d s hy
          refine ⟨.of_alone (.head hstep (.single (.calm h'.2.toCalm))) halone h0, fun _ => ?_⟩
          simp [h'.1, Facts.sees, h'.2.exprs, Resolver.mistake]
    · rw [call_succ]
      exact .bind ((course_all hp (ihExpr U (e :: o)) args r h).mono fun ts r₁ h₁ =>
        (closes_callTarget p.scene g args ts r₁).mono fun t r' h' => ⟨r₁, h₁, h'⟩)
    · exact (course_variable scope ((ihExpr U o _ r h).mono fun _ _ h' => h'.1)).mono fun _ _ h' =>
        .inr h'

end Expressions

end Program
end ShaderLoom
