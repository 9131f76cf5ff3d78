import ShaderLoom.Proofs.Meaning.Mentions
import ShaderLoom.Proofs.Meaning.Recorded

/-! Where variables come from, and which identifiers refer to them. In a program that is a tree a
declaration is resolved once, and makes one variable; so is an identifier, which becomes a user of
one variable, and of that one once. -/
namespace ShaderLoom

namespace Resolve

variable {α β : Type} {r r' r₁ : Resolver} {is : List NodeId}

theorem Clears.and {step : Resolve α} {Q Q' : α → Resolver → Prop} (h : Clears step r Q)
    (h' : Clears step r Q') : Clears step r fun x r' => Q x r' ∧ Q' x r' :=
  (Ends.and h h').mono fun _ _ h => ⟨h.1.1, fun hr => ⟨h.1.2 hr, h.2.2 hr⟩⟩

/-- What always holds after a step holds if there is no problem. -/
theorem Clears.also {step : Resolve α} {Q Q' : α → Resolver → Prop} (h : Clears step r Q)
    (h' : Ends step r Q') : Clears step r fun x r' => Q x r' ∧ Q' x r' :=
  (Ends.and h h').mono fun _ _ h => ⟨h.1.1, fun hr => ⟨h.1.2 hr, h.2⟩⟩

section Quiet

/-- The step says nothing new of variables and of expressions but some. -/
abbrev Hush (is : List NodeId) (step : Resolve α) : Prop :=
  Moves (fun r r' => r.facts.Quiet is r'.facts) step

theorem Moves.quiet {step : Resolve α} (h : Hush is step) (r : Resolver) :
    Ends step r fun _ r' => r.facts.Quiet is r'.facts :=
  (h r).mono fun _ r' hr => by
    induction hr with
    | refl => exact .refl _ _
    | tail _ hstep ih => exact ih.trans hstep

theorem TypeTouch.quiet (h : TypeTouch r r') : r.facts.Quiet is r'.facts := by
  cases h <;> exact ⟨rfl, rfl, fun _ _ => rfl, fun _ => rfl⟩

variable (c : Scene)

theorem hush_type (n : Nat) (id : NodeId) : Hush is (type c n id) :=
  ((typeTouch_types c n).1 id).mono fun _ _ => TypeTouch.quiet

theorem hush_typeDecl (n : Nat) (id : NodeId) : Hush is (typeDecl c n id) :=
  ((typeTouch_types c n).2 id).mono fun _ _ => TypeTouch.quiet

theorem hush_variableType (id : NodeId) (v : VariableShape Symbol NodeId) (t : Option Ty) :
    Hush is (variableType c id v t) :=
  (typeTouch_variableType c id v t).mono fun _ _ => TypeTouch.quiet

theorem hush_refuse (id : NodeId) (message : String) : Hush is (refuse c id message) :=
  (typeTouch_refuse c id message).mono fun _ _ => TypeTouch.quiet

theorem hush_setExpr (i : NodeId) (e : ExprFacts) : Hush [i] (setExpr i e) :=
  .modify fun _ => ⟨rfl, rfl, fun j hj => by
    simp [Std.TreeMap.getElem?_insert, Ne.symm (show j ≠ i by simpa using hj)], fun _ => rfl⟩

theorem hush_finish (i : NodeId) (e : ExprFacts) : Hush [i] (finish i e) :=
  .bind (hush_setExpr i e) fun _ => .pure _

theorem hush_updateFunction {g : FunctionFacts → FunctionFacts} (hg : ∀ x, (g x).params = x.params)
    (id : NodeId) : Hush is (updateFunction id g) :=
  .modify fun _ => ⟨rfl, rfl, fun _ _ => rfl, view_modify hg id⟩

theorem hush_useCallee (d : NodeId) : Hush is (useCallee d) := by
  unfold useCallee
  refine .get fun r => ?_
  split
  · split
    · exact .pure _
    · refine .bind (.modify fun _ => .refl _ _) fun _ => hush_updateFunction ?_ _
      exact fun _ => rfl
  · exact .pure _

theorem hush_useGlobal (n : VariableId) : Hush is (useGlobal n) := by
  unfold useGlobal
  refine .get fun r => ?_
  split
  · split
    · exact .pure _
    · refine .bind (.modify fun _ => .refl _ _) fun _ => hush_updateFunction ?_ _
      exact fun _ => rfl
  · exact .pure _

theorem hush_callBuiltin (i : NodeId) (e : ExprFacts) (name : String) (ts : List (Option Ty)) :
    Hush [i] (callBuiltin c i e name ts) := by
  unfold callBuiltin
  split
  · exact hush_finish i _
  · exact hush_refuse c i _

theorem hush_callTarget (i : NodeId) (e : ExprFacts) (g : NodeId) (ts : List (Option Ty)) :
    Hush [i] (callTarget c i e g ts) := by
  unfold callTarget
  split
  · exact .bind (hush_type c c.fuel g) fun _ => hush_finish i _
  · split
    · exact hush_callBuiltin c i e _ ts
    · split
      · unfold callFunction
        refine .get fun r => ?_
        split
        · exact hush_refuse c i _
        · exact .bind (hush_finish i _) fun _ => .bind (hush_useCallee _) fun _ => .pure _
      · exact .bind (hush_typeDecl c c.fuel _) fun _ => hush_finish i _
      · exact .bind (hush_typeDecl c c.fuel _) fun _ => hush_finish i _
      · exact hush_callBuiltin c i e _ ts
  · exact hush_refuse c i _

end Quiet

theorem ends_makeVariable (c : Scene) (d : NodeId) (v : VariableShape Symbol NodeId)
    (scope : VariableScope) (t : Option Ty) (r : Resolver) :
    Ends (makeVariable c d v scope t) r fun _ r' =>
      r'.facts = r.facts.addVariable (variableFacts c.arena d v scope t) := by
  have hlast : ∀ r₁ : Resolver, r₁.facts = r.facts → Ends (do
      let number := (← get).facts.vars.size
      mapFacts (·.addVariable (variableFacts c.arena d v scope t))
      return some number) r₁ fun _ r' =>
        r'.facts = r.facts.addVariable (variableFacts c.arena d v scope t) :=
    fun r₁ h => .get (.bind (.modify (.pure (by simp [h]))))
  unfold makeVariable
  split
  · refine .bind (Ends.mono (finds_declareLocal v.name d) fun new r₁ h => ?_)
    cases new with
    | true => exact hlast r₁ h.2.2.1
    | false => exact .bind (.modify (hlast _ h.2.2.1))
  · exact hlast r rfl

theorem ends_useVariable (i stmt : NodeId) (n : VariableId) (r : Resolver) :
    Ends (useVariable i { stmt } n) r fun _ r' => n < r.facts.vars.size →
      r.facts.Uses i n r'.facts := by
  unfold useVariable
  refine .get ?_
  cases hv : r.facts.vars[n]? with
  | none => exact .pure fun hn => by simp [Array.getElem?_eq_getElem hn] at hv
  | some v =>
    have hend : ∀ f' : Facts, Facts.Quiet [] { r.facts with
        exprs := r.facts.exprs.insert i { stmt, variableId := some n, type := v.type }
        vars := r.facts.vars.modify n fun v => { v with users := v.users ++ [i] } } f' →
        r.facts.Uses i n f' := by
      intro f' h
      refine ⟨h.vars, h.latest, fun u hu => ?_, fun j hj => ?_, h.params⟩
      · cases hv.symm.trans hu
        exact ⟨_, (h.others i List.not_mem_nil).trans Std.TreeMap.getElem?_insert_self, rfl, rfl⟩
      · exact (h.others j List.not_mem_nil).trans
          (by simp [Std.TreeMap.getElem?_insert, Ne.symm hj])
    refine .bind (.modify (.bind (.modify ?_)))
    split
    · exact .bind (((hush_useGlobal n).quiet _).mono fun _ _ h => .pure fun _ => hend _ h)
    · exact .pure fun _ => hend _ (.refl _ _)

section Expressions

variable {p : Program}

/-- Between declarations of the module or inside a function, with everything filed that was found.
Inside a function whatever is visible is known. -/
structure Ready (p : Program) (r : Resolver) : Prop where
  pending : r.pending = []
  filed : r.facts.Filed p.toArena
  scope : (r.frames = [] ∧ GroundedIn p.toArena p.scene.module r.facts.table) ∨
    (LocalsKnown r.frames r.facts.table ∧ ValuesKnown p.toArena p.scene.module r.facts.table)

namespace Ready

theorem quiet (h : Ready p r) (hs : Steady r r') (hq : r.facts.Quiet is r'.facts) : Ready p r' := by
  have hlatest : r'.facts.table.latest = r.facts.table.latest := by
    funext d
    simp [Facts.table, hq.latest]
  refine ⟨hs.pending.trans h.pending, hq.filed h.filed, ?_⟩
  rw [hs.frames]
  unfold GroundedIn LocalsKnown ValuesKnown
  rw [hlatest]
  exact h.scope

theorem expr {e : NodeId} {t : Option Ty} {w : NodeId → Nat} (h : Ready p r)
    (hd : ExprDone p.scene r e t r') (hs : p.Spends w r.facts r'.facts) : Ready p r' := by
  have hsense := hd.2 h.pending
  refine ⟨hd.1.pending.trans h.pending, hs.filed h.filed, ?_⟩
  rw [hd.1.frames]
  rcases h.scope with ⟨hframes, hg⟩ | ⟨hl, hv⟩
  · rw [hframes] at hsense
    exact .inl ⟨hframes, (hsense.grounded hg).1⟩
  · exact .inr ⟨hl.mono fun x hx => hsense.latest_mono hx, hv.mono fun x hx =>
      hsense.latest_mono hx⟩

end Ready

/-- What is resolved of some nodes that lie apart. -/
def Paid (p : Program) (es : List NodeId) (r r' : Resolver) : Prop :=
  Ready p r → p.Clear [] [] es → p.Spends (p.weights es) r.facts r'.facts

theorem Paid.nil (p : Program) (r : Resolver) : Paid p [] r r := fun _ _ => .refl p _ _

theorem Paid.cons {e : NodeId} {es : List NodeId} {t : Option Ty}
    (h : ExprDone p.scene r e t r₁ ∧ Paid p [e] r r₁) (h' : Paid p es r₁ r') :
    Paid p (e :: es) r r' := by
  intro hr hc
  have hs := h.2 hr (hc.sublist (by simp))
  exact hs.trans (h' (hr.expr h.1 hs) (hc.sublist (by simp))) fun i => by simp

theorem paid_all {one : NodeId → Resolve (Option Ty)}
    (hone : ∀ e r, Clears (one e) r fun t r' => ExprDone p.scene r e t r' ∧ Paid p [e] r r')
    (es : List NodeId) (r : Resolver) : Clears (es.mapM one) r fun _ r' => Paid p es r r' := by
  induction es generalizing r with
  | nil => exact .pure (.nil p r)
  | cons e es ih =>
    rw [List.mapM_cons]
    exact .bind (hone e r) fun t r₁ => .bind (ih r₁) fun ts r₂ => .pure fun h₂ h₁ => .cons h₁ h₂

/-- What is resolved if a variable of the module is made, or another one. -/
def ValuePaid (p : Program) (scope : VariableScope) (d : NodeId) (r r' : Resolver) : Prop :=
  Ready p r → p.Clear [] [] [d] →
    if scope = .global then r.frames = [] → GroundedIn p.toArena p.scene.module r.facts.table →
      d ∈ p.globals →
      r.facts.latest[d]? = none → p.Spends (fun _ => 0) r.facts r'.facts
    else p.Spends (p.weights [d]) r.facts r'.facts

variable (hp : p.Rooted p.scene.module)
include hp

theorem paid_variable {n : Nat}
    (hone : ∀ e r, Clears (expr p.scene n e) r fun t r' => ExprDone p.scene r e t r' ∧
      Paid p [e] r r') {d : NodeId} {v : VariableShape Symbol NodeId}
    (hv : p.asVariable? d = some v) (scope : VariableScope) (r : Resolver) :
    Clears (resolveVariable p.scene (n + 1) d v scope) r fun _ r' => ValuePaid p scope d r r' := by
  have hinit : [v.initializer].Sublist (Shape.slots (ν := Symbol) (.decl (.value v))) := by
    simp [Shape.slots]
  have hshape := Arena.shape?_of_asVariable? hv
  unfold resolveVariable
  refine .bind (hone v.initializer r) fun t₀ r₁ => .bind
    ((clears_variableType d v t₀).also ((hush_variableType p.scene d v t₀ : Hush [] _).quiet r₁))
    fun t r₂ => ?_
  refine ((clears_makeVariable d v scope t).also (ends_makeVariable p.scene d v scope t r₂)).mono
    fun made r₃ h₃ h₂ h₁ hr hc => ?_
  have hsub := hc.children hp.tree hshape hinit
  have hs₁ := h₁.2 hr hsub
  have hs₂ : p.Spends (p.weights [v.initializer]) r.facts r₂.facts :=
    hs₁.trans (v := fun _ => 0) (.quiet (by simp) h₂.2) fun _ => Nat.le_refl _
  have hfacts := h₃.2
  have husers := users_variableFacts p.toArena d v scope t
  have hdecl := decl_variableFacts p.toArena d v scope t
  have hall := hc.weights_value hp.tree hv hinit
  rw [hfacts]
  split
  · next hglobal =>
    intro hframes hg hd hnone
    have hsense := h₁.1.2 hr.pending
    rw [hframes] at hsense
    have hfree : r₁.facts.latest[d]? = none := hsense.latest_self hg hv hnone
    have hwait : p.waiting r₂.facts d = true := by
      simp [Program.waiting, hv, h₂.2.latest, hfree]
    exact hs₂.released hd hwait husers hdecl hall
  · refine hs₂.made husers fun i => ?_
    rw [show (variableFacts p.scene.arena d v scope t).decl = d from hdecl,
      Program.weights_cons p d, Program.weights_nil]
    exact hall i

theorem paid_expressions (n : Nat) :
    (∀ e r, Clears (expr p.scene n e) r fun _ r' => Paid p [e] r r') ∧
    (∀ i stmt g args r, (∀ s, p.shape? i ≠ some (.expr (.ident s))) →
      Clears (call p.scene n i { stmt } g args) r fun _ r' => Paid p args r r') ∧
    ∀ d v scope r, p.asVariable? d = some v →
      Clears (resolveVariable p.scene n d v scope) r fun _ r' => ValuePaid p scope d r r' := by
  induction n with
  | zero =>
    refine ⟨fun e r => ?_, fun i stmt g args r _ => ?_, fun d v scope r _ => ?_⟩
    · unfold expr
      exact .refuse
    · unfold call
      exact .refuse
    · unfold resolveVariable
      exact .bind (P := fun _ _ => False) .refuse fun _ _ => .pure False.elim
  | succ n ih =>
    obtain ⟨ihExpr, ihCall, ihVar⟩ := ih
    have hexpr : ∀ e r, Clears (expr p.scene n e) r fun t r' => ExprDone p.scene r e t r' ∧
        Paid p [e] r r' :=
      fun e r => ((clears_expressions n).1 e r).and (ihExpr e r)
    refine ⟨fun e r => ?_, fun i stmt g args r hi => ?_, fun d v scope r hv =>
      paid_variable hp hexpr hv scope r⟩
    · unfold expr
      split
      · exact .pure fun _ _ => .refl p _ _
      refine .get ?_
      dsimp only
      refine .bind ((finds_setExpr e { stmt := r.stmt }).clears.also
        ((hush_setExpr e { stmt := r.stmt }).quiet r)) fun _ r₁ => ?_
      have hfinish : ∀ (x : ExprFacts) (r₂ : Resolver), Clears (finish e x) r₂ fun _ r' =>
          r₂.facts.Quiet [e] r'.facts :=
        fun x r₂ => ((finds_finish e x).clears.also ((hush_finish e x).quiet r₂)).mono fun _ _ h =>
          h.2
      -- what an expression that is no identifier takes is what its operands take
      have hplain : ∀ {x : ExprShape Symbol NodeId} {r₂ r' : Resolver},
          p.shape? e = some (.expr x) → (∀ s, x ≠ .ident s) →
          Paid p x.operands r₁ r₂ → r₂.facts.Quiet [e] r'.facts →
          (Steady r r₁ ∧ r₁.facts.table = r.facts.table.note e
            { ({ stmt := r.stmt } : ExprFacts) with stmt := 0 }) ∧
            r.facts.Quiet [e] r₁.facts → Paid p [e] r r' := by
        intro x r₂ r' hx hident hs hq h₁ hr hc
        have hno : ∀ i ∈ [e], ∀ s, p.shape? i ≠ some (.expr (.ident s)) := by
          intro i hi s hs
          rw [List.mem_singleton.1 hi, hx] at hs
          cases hs
          exact hident s rfl
        have hops := hs (hr.quiet h₁.1.1 h₁.2) (hc.children hp.tree hx x.operands_slots)
        have hfirst : p.Spends (fun _ => 0) r.facts r₁.facts := .quiet hno h₁.2
        have hlast : p.Spends (fun _ => 0) r₂.facts r'.facts := .quiet hno hq
        refine (hfirst.trans hops fun i => Nat.le_of_eq (Nat.zero_add _)).trans hlast fun i => ?_
        rw [Program.weights_cons, Program.weights_nil]
        exact hc.weights_children hp.tree hx x.operands_slots i
      split
      · next s hs =>
        have hlook : Clears (lookup p.scene s) r₁ fun o r₂ =>
            r₂ = r₁ ∧ o = visible p.scene.module r₁.frames s :=
          .get (.pure ⟨rfl, rfl⟩)
        have huse : ∀ (n : VariableId) (r₂ : Resolver),
            Clears (useVariable e { stmt := r.stmt } n) r₂ fun _ r' =>
            n < r₂.facts.vars.size → r₂.facts.Uses e n r'.facts := fun n r₂ =>
          ((finds_useVariable e r.stmt n).clears.also (ends_useVariable e r.stmt n r₂)).mono
            fun _ _ h => h.2
        refine .bind hlook fun o r₂ => ?_
        cases o with
        | none => exact .refuse
        | some d =>
          dsimp only
          refine .get ?_
          split
          · next m hm =>
            refine (huse m r₂).mono fun t r₃ h₃ h₂ h₁ hr _ => ?_
            rw [h₂.1] at h₃ hm
            have hm := (hr.quiet h₁.1.1 h₁.2).filed.latest d m hm
            exact .identified hs h₁.2 (.refl p _ _) hm (h₃ hm)
          · next v hnone hv =>
            refine .bind (((clears_expressions n).2.2 d v .global r₂).and (ihVar d v .global r₂ hv))
              fun made r₃ => ?_
            cases made with
            | none =>
              refine .pure fun h₃ h₂ h₁ hr _ => ?_
              have hp₂ : r₂.pending = [] := by rw [h₂.1, h₁.1.1.pending, hr.pending]
              obtain ⟨_, _, _, _, _, _, hmade, _⟩ := h₃.1.2.2 hp₂
              cases hmade
            | some number =>
              refine (huse number r₃).mono fun t r₄ h₄ h₃ h₂ h₁ hr _ => ?_
              obtain ⟨rfl, hd⟩ := h₂
              have hr₂ := hr.quiet h₁.1.1 h₁.2
              -- inside a function whatever is visible is known
              rcases hr₂.scope with ⟨hframes, hg⟩ | ⟨hl, hknown⟩
              · rw [hframes] at hd
                have hmem := hp.names s d hd.symm
                have hc : p.Clear [] [] [d] := hp.clear_globals (List.singleton_sublist.2 hmem)
                have hspent := h₃.2 hr₂ hc
                rw [if_pos rfl] at hspent
                obtain ⟨_, t, _, T₂, _, _, hmade, htable⟩ := h₃.1.2.2 hr₂.pending
                have hsize : number < r₃.facts.vars.size := by
                  have : r₃.facts.table.size = T₂.size + 1 := by rw [htable]; rfl
                  cases hmade
                  exact Nat.lt_of_lt_of_eq (Nat.lt_succ_self _) this.symm
                exact .identified hs h₁.2 (hspent hframes hg hmem hnone) hsize (h₄ hsize)
              · have hfind := hl.find? hd.symm hnone
                have := hknown s d hfind (Option.isSome_iff_exists.2 ⟨v, hv⟩)
                rw [show r₂.facts.table.latest d = none from hnone] at this
                cases this
          · exact .refuse
      · next hx => exact (hfinish _ r₁).mono fun t r₂ h h₁ => hplain hx (by simp) (.nil p r₁) h h₁
      · next hx => exact (hfinish _ r₁).mono fun t r₂ h h₁ => hplain hx (by simp) (.nil p r₁) h h₁
      · next hx => exact (hfinish _ r₁).mono fun t r₂ h h₁ => hplain hx (by simp) (.nil p r₁) h h₁
      · next op lhs rhs hx =>
        refine .bind (hexpr lhs r₁) fun lt r₂ => .bind (hexpr rhs r₂) fun rt r₃ =>
          (hfinish _ r₃).mono ?_
        exact fun t r₄ h₄ h₃ h₂ h₁ => hplain hx (by simp) (.cons h₂ (.cons h₃ (.nil p r₃))) h₄ h₁
      · next op o hx =>
        refine .bind (hexpr o r₁) fun ot r₂ => (hfinish _ r₂).mono ?_
        exact fun t r₃ h₃ h₂ h₁ => hplain hx (by simp) (.cons h₂ (.nil p r₂)) h₃ h₁
      · next g args hx =>
        have hno : ∀ s, p.shape? e ≠ some (.expr (.ident s)) := fun s hs => by
          rw [show p.shape? e = _ from hx] at hs
          cases hs
        exact (ihCall e r.stmt g args r₁ hno).mono fun t r₂ h₂ h₁ =>
          hplain hx (by simp) h₂ (.refl _ _) h₁
      · next o i hx =>
        refine .bind (hexpr o r₁) fun ot r₂ => .bind (hexpr i r₂) fun it r₃ => ?_
        split
        · exact .pure fun h₃ h₂ h₁ =>
            hplain hx (by simp) (.cons h₂ (.cons h₃ (.nil p r₃))) (.refl _ _) h₁
        · exact (hfinish _ r₃).mono fun t r₄ h₄ h₃ h₂ h₁ =>
            hplain hx (by simp) (.cons h₂ (.cons h₃ (.nil p r₃))) h₄ h₁
        · exact .refuse
      · next o s hx =>
        refine .bind (hexpr o r₁) fun ot r₂ => .get ?_
        split
        · exact .pure fun h₂ h₁ => hplain hx (by simp) (.cons h₂ (.nil p r₂)) (.refl _ _) h₁
        · exact (hfinish _ r₂).mono fun t r₃ h₃ h₂ h₁ =>
            hplain hx (by simp) (.cons h₂ (.nil p r₂)) h₃ h₁
        · exact .refuse
      · have herase : Clears (mapFacts fun f => { f with exprs := f.exprs.erase e }) r₁ fun _ _ =>
            True := .mapFacts trivial
        exact .bind herase fun _ _ => .refuse
    · rw [call_succ]
      refine .bind (paid_all hexpr args r) fun ts r₁ =>
        ((clears_callTarget i stmt g ts r₁).also
          ((hush_callTarget p.scene i { stmt } g ts).quiet r₁)).mono fun t r₂ h₂ h₁ hr hc => ?_
      refine (h₁ hr hc).trans (v := fun _ => 0) (.quiet (fun j hj => ?_) h₂.2) fun _ =>
        Nat.le_refl _
      rw [List.mem_singleton.1 hj]
      exact hi

end Expressions

section Statements

variable {p : Program}

/-- Inside a function, with everything filed that was found. -/
structure Inside (p : Program) (r : Resolver) : Prop where
  pending : r.pending = []
  filed : r.facts.Filed p.toArena
  locals : LocalsKnown r.frames r.facts.table
  values : ValuesKnown p.toArena p.scene.module r.facts.table

namespace Inside

variable {w : NodeId → Nat}

theorem ready (h : Inside p r) : Ready p r := ⟨h.pending, h.filed, .inr ⟨h.locals, h.values⟩⟩

/-- Levels may be opened and closed. -/
theorem quiet (h : Inside p r) (hpending : r'.pending = r.pending)
    (hframes : ∀ L ∈ r'.frames, L = [] ∨ L ∈ r.frames) (hq : r.facts.Quiet is r'.facts) :
    Inside p r' := by
  have hlatest : r'.facts.table.latest = r.facts.table.latest := by
    funext d
    simp [Facts.table, hq.latest]
  refine ⟨hpending.trans h.pending, hq.filed h.filed, fun L hL x hx => ?_, fun s d hs hd => ?_⟩
  · rw [hlatest]
    rcases hframes L hL with rfl | hL
    · cases hx
    · exact h.locals L hL x hx
  · rw [hlatest]
    exact h.values s d hs hd

theorem expr {e : NodeId} {t : Option Ty} (h : Inside p r) (hd : ExprDone p.scene r e t r')
    (hs : p.Spends w r.facts r'.facts) : Inside p r' := by
  have hsense := hd.2 h.pending
  have hmono : ∀ x, (r.facts.table.latest x).isSome → (r'.facts.table.latest x).isSome :=
    fun x hx => hsense.latest_mono hx
  exact ⟨hd.1.pending.trans h.pending, hs.filed h.filed, hd.1.frames ▸ h.locals.mono hmono,
    h.values.mono hmono⟩

theorem part {part : Part} (h : Inside p r) (hd : PartDone p.scene r part r')
    (hs : p.Spends w r.facts r'.facts) : Inside p r' := by
  have hscope := hd.2 h.pending
  exact ⟨hd.1.trans h.pending, hs.filed h.filed, h.locals.scoping hscope,
    h.values.mono fun x hx => hscope.latest_mono hx⟩

end Inside

/-- What is resolved of some nodes inside a function. -/
def PartPaid (p : Program) (is : List NodeId) (r r' : Resolver) : Prop :=
  Inside p r → p.Clear [] [] is → p.Spends (p.weights is) r.facts r'.facts

namespace PartPaid

variable {i : NodeId} {js : List NodeId}

theorem nil (p : Program) (r : Resolver) : PartPaid p [] r r := fun _ _ => .refl p _ _

theorem expr {e : NodeId} {t : Option Ty} (h : ExprDone p.scene r e t r₁ ∧ Paid p [e] r r₁)
    (h' : PartPaid p js r₁ r') : PartPaid p (e :: js) r r' := by
  intro hr hc
  have hs := h.2 hr.ready (hc.sublist (by simp))
  exact hs.trans (h' (hr.expr h.1 hs) (hc.sublist (by simp))) fun i => by simp

theorem part {part : Part} (h : PartDone p.scene r part r₁ ∧ PartPaid p part.nodes r r₁)
    (h' : PartPaid p js r₁ r') : PartPaid p (part.nodes ++ js) r r' := by
  intro hr hc
  have hs := h.2 hr (hc.sublist (List.sublist_append_left _ _))
  exact hs.trans (h' (hr.part h.1 hs) (hc.sublist (List.sublist_append_right _ _))) fun i => by simp

/-- Before and after the nodes, levels may be opened and closed and other things noted. -/
theorem around {r₂ : Resolver} (h : PartPaid p is r₁ r₂)
    (h₁ : r₁.pending = r.pending ∧ (∀ L ∈ r₁.frames, L = [] ∨ L ∈ r.frames) ∧
      r.facts.Quiet [] r₁.facts) (h₂ : r₂.facts.Quiet [] r'.facts) : PartPaid p is r r' := by
  intro hr hc
  have hfirst : p.Spends (fun _ => 0) r.facts r₁.facts := .quiet (by simp) h₁.2.2
  have hlast : p.Spends (fun _ => 0) r₂.facts r'.facts := .quiet (by simp) h₂
  exact (hfirst.trans (h (hr.quiet h₁.1 h₁.2.1 h₁.2.2) hc) fun i =>
    Nat.le_of_eq (Nat.zero_add _)).trans hlast
    fun i => Nat.le_refl _

/-- The same with a level opened before and closed after. -/
theorem opened {r₂ : Resolver} (h : PartPaid p is { r with frames := [] :: r.frames } r₂) :
    PartPaid p is r { r₂ with frames := r₂.frames.drop 1 } := by
  have hopen : ∀ L ∈ ({ r with frames := [] :: r.frames } : Resolver).frames,
      L = [] ∨ L ∈ r.frames :=
    fun L hL => List.mem_cons.1 hL
  exact h.around ⟨rfl, hopen, .refl _ _⟩ (.refl _ _)

/-- A node of which some children are gone through, in any order. -/
theorem node (ht : p.TreeShaped) {s : Shape Symbol NodeId} {cs : List NodeId}
    (hs : p.shape? i = some s) (hcs : cs.Sublist s.slots) (his : cs.Perm is)
    (h : PartPaid p is r r') : PartPaid p [i] r r' := by
  intro hr hc
  refine (h hr ((hc.children ht hs hcs).perm his)).mono fun j => ?_
  rw [← Program.weights_perm his, Program.weights_cons, Program.weights_nil]
  exact hc.weights_children ht hs hcs j

end PartPaid

/-- What holds if a part of a body was resolved, and what was resolved of it. -/
abbrev PartDonePaid (p : Program) (part : Part) (r r' : Resolver) : Prop :=
  PartDone p.scene r part r' ∧ PartPaid p part.nodes r r'

theorem paid_inOrder {one : NodeId → Bool → Resolve Behaviors}
    (hone : ∀ i live r, Clears (one i live) r fun _ r' => PartDonePaid p (.one i) r r')
    (live : Bool) (ss : List NodeId) (sofar : Behaviors) (r : Resolver) :
    Clears (inOrder one live ss sofar) r fun _ r' => PartPaid p ss r r' := by
  induction ss generalizing sofar r with
  | nil => exact .pure (.nil p r)
  | cons s ss ih =>
    exact .bind (hone s _ r) fun b r₁ => (ih _ r₁).mono fun _ r₂ h₂ h₁ => .part h₁ h₂

theorem quiet_setStmt (i : NodeId) (live : Bool) (r : Resolver) :
    Clears (setStmt i live) r fun _ r' =>
    r'.pending = r.pending ∧ r'.frames = r.frames ∧ r.facts.Quiet [] r'.facts :=
  .modify rfl ⟨rfl, rfl, rfl, rfl, fun _ _ => rfl, fun _ => rfl⟩

theorem quiet_setBehaviors (i : NodeId) (b : Behaviors) (r : Resolver) :
    Clears (setBehaviors i b) r fun _ r' =>
    r.facts.Quiet [] r'.facts := .mapFacts ⟨rfl, rfl, fun _ _ => rfl, fun _ => rfl⟩

variable (hp : p.Rooted p.scene.module)
include hp

theorem paid_openBody {one : NodeId → Bool → Resolve Behaviors}
    (hone : ∀ i live r, Clears (one i live) r fun _ r' => PartDonePaid p (.one i) r r') (b : NodeId)
    (live : Bool) (r : Resolver) :
    Clears (openBody p.scene one b live) r fun _ r' => PartPaid p [b] r r' := by
  unfold openBody
  split
  · next ss hss =>
    refine .bind (quiet_setStmt b live r) fun _ r₁ =>
      .bind (paid_inOrder hone live ss _ r₁) fun x r₂ =>
      .bind (quiet_setBehaviors b x r₂) fun _ r₃ => .pure fun h₃ h₂ h₁ => ?_
    have hblock : PartPaid p [b] r₁ r₂ :=
      .node hp.tree (Arena.shape?_of_block? hss) (.refl _) (.refl _) h₂
    exact hblock.around ⟨h₁.1, fun L hL => .inr (h₁.2.1 ▸ hL), h₁.2.2⟩ h₃
  · exact .pure fun _ _ => .refl p _ _

theorem paid_localVariable (d : NodeId) (r : Resolver) :
    Clears (localVariable p.scene d) r fun _ r' => PartPaid p [d] r r' := by
  unfold localVariable
  split
  · next v hv =>
    refine .bind ((paid_expressions hp p.scene.fuel).2.2 d v .local r hv) fun _ r₁ =>
      .pure fun h hr hc => ?_
    have hs := h hr.ready hc
    rwa [if_neg (by decide)] at hs
  · exact .pure fun _ _ => .refl p _ _

theorem paid_inside {one : NodeId → Bool → Resolve Behaviors}
    (hone : ∀ i live r, Clears (one i live) r fun _ r' => PartDonePaid p (.one i) r r') (i : NodeId)
    (live : Bool) (r : Resolver) :
    Clears (inside p.scene one i live (p.shape? i)) r fun _ r' => PartPaid p [i] r r' := by
  have hexpr : ∀ e r, Clears (expr p.scene p.scene.fuel e) r fun t r' => ExprDone p.scene r e t r' ∧
      Paid p [e] r r' :=
    fun e r => ((clears_expressions p.scene.fuel).1 e r).and
      ((paid_expressions hp p.scene.fuel).1 e r)
  generalize hs : p.shape? i = shape
  have hnode : ∀ {s : StmtShape NodeId} (cs : List NodeId) {is : List NodeId} {r r' : Resolver},
      shape = some (.stmt s) →
      cs.Sublist (Shape.slots (ν := Symbol) (.stmt s)) → cs.Perm is → PartPaid p is r r' →
      PartPaid p [i] r r' :=
    fun _ _ _ _ h hcs his hpaid => hpaid.node hp.tree (hs.trans h) hcs his
  unfold inside
  split
  · next ss =>
    refine .bind finds_pushFrame.clears fun _ r₁ =>
      .bind (paid_inOrder hone live ss _ r₁) fun x r₂ =>
      .bind finds_popFrame.clears fun _ r₃ => .pure fun h₃ h₂ h₁ => ?_
    subst h₃ h₁
    exact hnode ss rfl (.refl _) (.refl _) h₂.opened
  · next d => exact .bind (paid_localVariable hp d r) fun _ r₁ => .pure (hnode _ rfl
      (by simp [Shape.slots]) (.refl _))
  · next lhs rhs =>
    exact .bind (hexpr lhs r) fun lt r₁ => .bind (hexpr rhs r₁) fun rt r₂ => .pure fun h₂ h₁ =>
      hnode _ rfl (by simp [Shape.slots]) (.refl _) (.expr h₁ (.expr h₂ (.nil p r₂)))
  · next lhs _ =>
    exact .bind (hexpr lhs r) fun t r₁ =>
      .pure fun h => hnode _ rfl (by simp [Shape.slots]) (.refl _) (.expr h (.nil p r₁))
  · next e =>
    exact .bind (hexpr e r) fun t r₁ =>
      .pure fun h => hnode _ rfl (by simp [Shape.slots]) (.refl _) (.expr h (.nil p r₁))
  · next cond b e =>
    exact .bind (hexpr cond r) fun t r₁ => .bind (hone b live r₁) fun x r₂ =>
      .bind (hone e live r₂) fun y r₃ =>
      .pure fun h₃ h₂ h₁ =>
        hnode _ rfl (by simp [Shape.slots]) (.refl _) (.expr h₁ (.part h₂ (.part h₃ (.nil p r₃))))
  · next init cond cont b =>
    refine .bind finds_pushFrame.clears fun _ r₀ => .bind (hone init live r₀) fun _ r₁ =>
      .bind (hexpr cond r₁) fun t r₂ => ?_
    refine .bind (hone b live r₂) fun x r₃ => .bind (hone cont live r₃) fun _ r₄ =>
      .bind finds_popFrame.clears fun _ r₅ => ?_
    refine .pure fun h₅ h₄ h₃ h₂ h₁ h₀ => ?_
    subst h₅ h₀
    refine hnode [init, cond, cont, b] rfl (by simp [Shape.slots])
      (.cons init (.cons cond (.swap b cont []))) ?_
    exact PartPaid.opened (.part h₁ (.expr h₂ (.part h₃ (.part h₄ (.nil p r₄)))))
  · next cond b =>
    exact .bind (hexpr cond r) fun t r₁ => .bind (hone b live r₁) fun x r₂ => .pure fun h₂ h₁ =>
      hnode _ rfl (by simp [Shape.slots]) (.refl _) (.expr h₁ (.part h₂ (.nil p r₂)))
  · next b cont =>
    refine .bind finds_pushFrame.clears fun _ r₀ => .bind
      ((clears_openBody (fun i live r => (hone i live r).mono fun _ _ h => h.1) b live r₀).and
        (paid_openBody hp hone b live r₀))
      fun x r₁ => ?_
    refine .bind (hone cont live r₁) fun _ r₂ => .bind finds_popFrame.clears fun _ r₃ =>
      .pure fun h₃ h₂ h₁ h₀ => ?_
    subst h₃ h₀
    have hbody : PartDonePaid p (.body b) _ r₁ := h₁
    exact hnode [b, cont] rfl (by simp [Shape.slots]) (.refl _)
      (PartPaid.opened (.part hbody (.part h₂ (.nil p r₂))))
  · exact .pure fun _ _ => .refl p _ _
  · exact .pure fun _ _ => .refl p _ _
  · exact .pure fun _ _ => .refl p _ _
  · next v =>
    exact .bind (hexpr v r) fun t r₁ =>
      .pure fun h => hnode _ rfl (by simp [Shape.slots]) (.refl _) (.expr h (.nil p r₁))
  · exact .bind (P := fun _ _ => False) .report fun _ _ => .pure False.elim

theorem paid_statement (n : Nat) (i : NodeId) (live : Bool) (r : Resolver) :
    Clears (statement p.scene n i live) r fun _ r' => PartPaid p [i] r r' := by
  induction n generalizing i live r with
  | zero =>
    unfold statement
    exact .bind (P := fun _ _ => False) .refuse fun _ _ => .pure False.elim
  | succ n ih =>
    have hone : ∀ i live r, Clears (statement p.scene n i live) r fun _ r' =>
        PartDonePaid p (.one i) r r' :=
      fun i live r => (clears_statement n i live r).and (ih i live r)
    unfold statement
    split
    · exact .pure fun _ _ => .refl p _ _
    refine .get ?_
    have henter : ∀ (x : NodeId) (r : Resolver),
        Clears (modify fun r => { r with stmt := x } : Resolve Unit) r fun _ r' =>
        r'.pending = r.pending ∧ r'.frames = r.frames ∧ r'.facts = r.facts :=
          fun x r => .modify rfl ⟨rfl, rfl, rfl⟩
    refine .bind (henter i r) fun _ r₁ => .bind (quiet_setStmt i live r₁) fun _ r₂ =>
      .bind (paid_inside hp hone i live r₂) fun b r₃ => ?_
    refine .bind (quiet_setBehaviors i b r₃) fun _ r₄ => .bind (henter r.stmt r₄) fun _ r₅ =>
      .pure fun h₅ h₄ h₃ h₂ h₁ => ?_
    refine h₃.around ⟨h₂.1.trans h₁.1, fun L hL => .inr ?_, h₁.2.2 ▸ h₂.2.2⟩ (h₅.2.2 ▸ h₄)
    rwa [h₂.2.1, h₁.2.1] at hL

end Statements

section Modules

variable {p : Program}

theorem paramsAt_summarize (f : Facts) (gs : List NodeId) (g : NodeId) :
    (f.summarize gs).paramsAt g = f.paramsAt g :=
  view_summarize (fun _ _ _ => rfl) f gs g

/-- Between functions, once the module's variables are known. -/
structure Between (p : Program) (r : Resolver) : Prop where
  still : AtModule r
  filed : r.facts.Filed p.toArena
  values : ValuesKnown p.toArena p.scene.module r.facts.table

/-- A loop over declarations resolves what each of them takes. -/
theorem paid_each {one : NodeId → PUnit → Resolve (ForInStep PUnit)} {I : Resolver → Prop}
    {S : NodeId → Table → Table → Prop} {t : NodeId → Bool} (gs : List NodeId)
    (hone : ∀ d ∈ gs, ∀ r, Clears (one d ⟨⟩) r fun o r' => o = .yield ⟨⟩ ∧ (I r → I r' ∧
      S d r.facts.table r'.facts.table ∧ p.Spends (p.weights ([d].filter t)) r.facts r'.facts))
    (r : Resolver) :
    Clears (forIn gs PUnit.unit one) r fun _ r' =>
      I r → I r' ∧ Along S gs r.facts.table r'.facts.table ∧
      p.Spends (p.weights (gs.filter t)) r.facts r'.facts := by
  induction gs generalizing r with
  | nil => exact .pure fun hr => ⟨hr, .nil, .refl p _ _⟩
  | cons d ds ih =>
    rw [List.forIn_cons]
    refine .bind (hone d List.mem_cons_self r) fun o r₁ => ?_
    cases o with
    | done _ => exact .pure fun h => by cases h.1
    | yield u =>
      refine (ih (fun d' hd' => hone d' (List.mem_cons_of_mem _ hd')) r₁).mono fun _ r₂ h₂ h₁ hr =>
        ?_
      obtain ⟨hr₁, hd, hs₁⟩ := h₁.2 hr
      obtain ⟨hr₂, hds, hs₂⟩ := h₂ hr₁
      refine ⟨hr₂, .cons hd hds, hs₁.trans hs₂ fun i => Nat.le_of_eq ?_⟩
      rw [← Program.weights_append, ← List.filter_append]
      rfl

variable (hp : p.Rooted p.scene.module)
include hp

theorem paid_declaration {d : NodeId} (hd : d ∈ p.globals) (r : Resolver) :
    Clears (declaration p.scene d) r fun _ r' =>
    AtModule r → r.facts.Filed p.toArena → r.facts.table.Underway p.toArena p.scene.module →
      p.Spends (fun _ => 0) r.facts r'.facts := by
  have htype : (p.shape? d).any Shape.isTypeDecl = true →
      Clears (do let _ ← typeDecl p.scene p.scene.fuel d) r fun _ r' =>
      AtModule r → r.facts.Filed p.toArena → r.facts.table.Underway p.toArena p.scene.module →
        p.Spends (fun _ => 0) r.facts r'.facts := fun hdecl =>
    .bind (((clears_types p.scene.fuel).2 d r hdecl).also
      ((hush_typeDecl p.scene p.scene.fuel d : Hush [] _).quiet r))
      fun _ r₁ => .pure fun h _ _ _ => .quiet (by simp) h.2
  unfold declaration
  split
  · next h => exact htype (by simp [show p.shape? d = _ from h, Shape.isTypeDecl])
  · next h => exact htype (by simp [show p.shape? d = _ from h, Shape.isTypeDecl])
  · next v hv =>
    have hv' : p.asVariable? d = some v := by
      simp [Arena.asVariable?, show p.shape? d = _ from hv, Shape.asVariable?]
    refine .get ?_
    split
    · exact .pure fun _ _ _ => .refl p _ _
    · next hnone =>
      refine .bind ((paid_expressions hp p.scene.fuel).2.2 d v .global r hv') fun _ r₁ =>
        .pure fun h hr hf hT => ?_
      have hs := h ⟨hr.1, hf, .inl ⟨hr.2, hT.grounded⟩⟩
        (hp.clear_globals (List.singleton_sublist.2 hd))
      rw [if_pos rfl] at hs
      refine hs hr.2 hT.grounded hd ?_
      simpa using hnone
  · exact .pure fun _ _ _ => .refl p _ _

omit hp in
theorem spends_updateFunction {d : NodeId} {g : FunctionFacts → FunctionFacts}
    (hg : ∀ x, (g x).params = x.params) (r : Resolver) :
    Clears (updateFunction d g) r fun _ r' => r.facts.Quiet [] r'.facts :=
  .mapFacts ⟨rfl, rfl, fun _ _ => rfl, view_modify hg d⟩

omit hp in
theorem paid_signature {d : NodeId} {f : FunctionShape Symbol NodeId} (r : Resolver) :
    Clears (signature p.scene d f) r fun _ r' => r'.facts.latest = r.facts.latest ∧
      p.Spends (fun _ => 0) r.facts r'.facts := by
  have hset : ∀ (t : Option Ty) (r : Resolver), Clears (updateFunction d fun g => { g with
      returnType := t
      stage := stageOf p.toArena f.attributes
      workgroup := workgroupOf p.toArena f.attributes }) r fun _ r' =>
        r.facts.Quiet [] r'.facts := by
    intro t r
    refine spends_updateFunction ?_ r
    exact fun _ => rfl
  -- a function without parameters so far
  have hnew : Clears (mapFacts fun fs => { fs with
      functions := fs.functions.insert d { decl := d, name := p.nameOf f.name } }) r fun _ r' =>
        r'.facts.latest = r.facts.latest ∧ p.Spends (fun _ => 0) r.facts r'.facts := by
    refine .mapFacts ⟨rfl, fun _ => Nat.le_refl _, fun _ => Nat.le_refl _, fun _ _ _ h => h,
      fun hf => ⟨hf.latest, fun g x hx n hn => ?_⟩⟩
    simp only [Std.TreeMap.getElem?_insert] at hx
    split at hx
    · cases hx
      cases hn
    · exact hf.params g x hx n hn
  have hlast : ∀ {r₁ r₂ r₃ : Resolver}, r₂.facts.Quiet [] r₃.facts → r₁.facts.Quiet [] r₂.facts →
      (r₁.facts.latest = r.facts.latest ∧ p.Spends (fun _ => 0) r.facts r₁.facts) →
      r₃.facts.latest = r.facts.latest ∧ p.Spends (fun _ => 0) r.facts r₃.facts := by
    intro r₁ r₂ r₃ h₃ h₂ h₁
    have hq := h₂.trans h₃
    exact ⟨hq.latest.trans h₁.1, h₁.2.trans (v := fun _ => 0) (.quiet (by simp) hq) fun _ =>
      Nat.le_refl _⟩
  unfold signature
  dsimp only
  refine .bind hnew fun _ r₁ => ?_
  split
  · exact .bind (((clears_types p.scene.fuel).1 f.returnType r₁).also
      ((hush_type p.scene p.scene.fuel f.returnType : Hush [] _).quiet r₁))
      fun t r₂ => (hset t r₂).mono fun _ r₃ h₃ h₂ h₁ => hlast h₃ h₂.2 h₁
  · exact .bind (P := fun t r₂ => t = some .void ∧ r₂ = r₁) (.pure ⟨rfl, rfl⟩) fun t r₂ =>
      (hset t r₂).mono
      fun _ r₃ h₃ h₂ h₁ => hlast h₃ (h₂.2 ▸ .refl _ _) h₁

/-- A parameter is resolved, and its number noted. -/
theorem paid_parameter {fn d : NodeId} {f : FunctionShape Symbol NodeId}
    (hf : p.function? fn = some f) (hd : d ∈ f.params) (r : Resolver) :
    Clears (parameter p.scene fn d) r fun _ r' =>
      PartPaid p [d] r r' ∧ (Inside p r → p.Clear [] [] [d] → Inside p r') := by
  have hlast : ∀ {n : VariableId} {r₁ : Resolver},
      (∃ v : VariableFacts, r₁.facts.vars[n]? = some v ∧ v.decl = d) →
      p.Spends (fun _ => 0) r₁.facts
      { r₁.facts with functions := r₁.facts.functions.modify fn fun g =>
                        { g with params := g.params ++ [n] } } := by
    intro n r₁ ⟨v, hv, hvd⟩
    refine ⟨fun _ => Nat.le_refl _, fun _ => Nat.le_refl _, fun _ _ _ h => h,
      fun hfiled => ⟨hfiled.latest, fun g x hx m hm => ?_⟩⟩
    simp only [Std.TreeMap.getElem?_modify] at hx
    split at hx
    · next hg =>
      rw [Nat.compare_eq_eq] at hg
      subst hg
      obtain ⟨y, hy, rfl⟩ := Option.map_eq_some_iff.1 hx
      rcases List.mem_append.1 hm with hm | hm
      · exact hfiled.params fn y hy m hm
      · cases List.mem_singleton.1 hm
        exact ⟨v, f, hv, hf, hvd ▸ hd⟩
    · exact hfiled.params g x hx m hm
  have hpaid : Clears (parameter p.scene fn d) r fun _ r' => PartPaid p [d] r r' := by
    unfold parameter
    split
    · next v hv =>
      split
      · refine .bind (((clears_expressions p.scene.fuel).2.2 d v .parameter r).and
          ((paid_expressions hp p.scene.fuel).2.2 d v .parameter r hv)) fun made r₁ => ?_
        refine .mapFacts fun h hr hc => ?_
        have hs := h.2 hr.ready hc
        rw [if_neg (by decide)] at hs
        obtain ⟨_, t, _, T₂, _, _, rfl, htable⟩ := h.1.2.2 hr.pending
        have hmade : ∃ v : VariableFacts, r₁.facts.vars[T₂.size]? = some v ∧ v.decl = d := by
          have hat : r₁.facts.table.vars T₂.size = some ⟨d, t⟩ := by
            rw [htable]
            exact Function.update_self ..
          obtain ⟨v, hv, hvd⟩ := Option.map_eq_some_iff.1 hat
          exact ⟨v, hv, congrArg Made.decl hvd⟩
        exact hs.trans (v := fun _ => 0) (hlast hmade) fun _ => Nat.le_refl _
      · exact .report
    · exact .report
  refine ((clears_parameter fn d r).and hpaid).mono fun _ r' h => ⟨h.2, fun hr hc => ?_⟩
  obtain ⟨v, hv, _, hdecl⟩ := h.1.2 hr.pending
  exact ⟨h.1.1.trans hr.pending, (h.2 hr hc).filed hr.filed, hr.locals.declaring hdecl,
    hr.values.mono fun x hx => hdecl.latest_mono hx⟩

theorem paid_parameters {fn : NodeId} {f : FunctionShape Symbol NodeId}
    (hf : p.function? fn = some f) (ds : List NodeId) (hds : ∀ d ∈ ds, d ∈ f.params)
    (r : Resolver) : Clears (ds.forM (parameter p.scene fn)) r fun _ r' =>
      PartPaid p ds r r' ∧ (Inside p r → p.Clear [] [] ds → Inside p r') := by
  induction ds generalizing r with
  | nil => exact .pure ⟨.nil p r, fun h _ => h⟩
  | cons d ds ih =>
    refine .bind (paid_parameter hp hf (hds d List.mem_cons_self) r) fun _ r₁ =>
      (ih (fun d' hd' => hds d' (List.mem_cons_of_mem _ hd')) r₁).mono fun _ r₂ h₂ h₁ =>
        ⟨fun hr hc => ?_, fun hr hc => ?_⟩
    · exact (h₁.1 hr (hc.sublist (by simp))).trans
        (h₂.1 (h₁.2 hr (hc.sublist (by simp))) (hc.sublist (by simp))) fun i => by simp
    · exact h₂.2 (h₁.2 hr (hc.sublist (by simp))) (hc.sublist (by simp))

theorem paid_body {d : NodeId} (hd : d ∈ p.globals) {f : FunctionShape Symbol NodeId}
    (hf : p.function? d = some f) (r : Resolver) :
    Clears (body p.scene d f) r fun _ r' => Between p r → Between p r' ∧
      p.Spends (p.weights [d]) r.facts r'.facts := by
  have hclear : p.Clear [] [] [d] := hp.clear_globals (List.singleton_sublist.2 hd)
  have hs := Arena.shape?_of_function? hf
  have hsub : (f.params ++ [f.body]).Sublist (Shape.slots (ν := Symbol) (.decl (.function f))) :=
    ((List.sublist_append_right f.attributes f.params).trans (List.sublist_append_left _ _)).append
      (by simp)
  have hc := hclear.children hp.tree hs hsub
  have hcp := hc.sublist (List.sublist_append_left _ _)
  have hcb := hc.sublist (List.sublist_append_right _ _)
  unfold body
  refine .bind (finds_openFunction d).clears fun _ r₁ =>
    .bind (paid_parameters hp hf f.params (fun _ h => h) r₁) fun _ r₂ => ?_
  refine .bind ((clears_statement p.scene.fuel f.body true r₂).and
    (paid_statement hp p.scene.fuel f.body true r₂)) fun b r₃ => ?_
  refine .bind
    ((finds_updateFunction (g := fun g => { g with behaviors := b }) (fun _ => rfl) d).clears.and
    (spends_updateFunction (g := fun g => { g with behaviors := b }) (fun _ => rfl) r₃)) fun _ r₄ =>
      ?_
  refine .modify rfl fun h₄ h₃ h₂ h₁ hr => ?_
  have hr₁ : Inside p r₁ := by
    refine ⟨h₁.1.trans hr.still.1, h₁.2.2 ▸ hr.filed, ?_, h₁.2.2 ▸ hr.values⟩
    rw [h₁.2.1]
    simp [LocalsKnown]
  have hr₂ := h₂.2 hr₁ hcp
  have hs₂ := h₂.1 hr₁ hcp
  have hs₃ := h₃.2 hr₂ hcb
  have hr₃ := hr₂.part h₃.1 hs₃
  have hs₄ : p.Spends (fun _ => 0) r₃.facts r₄.facts := .quiet (by simp) h₄.2
  have hvalues : ValuesKnown p.toArena p.scene.module r₄.facts.table := h₄.1.2 ▸ hr₃.values
  refine ⟨⟨⟨h₄.1.1.pending.trans hr₃.pending, rfl⟩, hs₄.filed hr₃.filed, hvalues⟩, ?_⟩
  have hspent :=
    ((hs₂.trans hs₃ fun i => Nat.le_of_eq (Program.weights_append p f.params [f.body] i).symm).trans
      hs₄ fun _ => Nat.le_refl _)
  rw [h₁.2.2] at hspent
  refine hspent.mono fun i => ?_
  rw [Program.weights_cons p d, Program.weights_nil]
  exact hclear.weights_children hp.tree hs hsub i

theorem paid_module (ha : p.toArena.TypesPresent) (r : Resolver) :
    Clears (module p.scene p.globals) r fun _ r' =>
    AtModule r → r.facts.Filed p.toArena → r.facts.table = .empty →
      p.Spends (p.weights (p.globals.filter fun d => (p.function? d).isSome)) r.facts r'.facts := by
  have hnothing : ∀ {d : NodeId} {f f' : Facts}, p.Spends (fun _ => 0) f f' →
      p.Spends (p.weights ([d].filter fun _ => false)) f f' :=
        fun h => h.mono fun _ => Nat.zero_le _
  unfold module
  refine .bind (paid_each (p := p) (I := fun r => AtModule r ∧ r.facts.Filed p.toArena ∧
    r.facts.table.Underway p.toArena p.scene.module)
    (S := Introducing p.toArena p.scene.module Anything) (t := fun _ => false) p.globals
    (fun d hd r => ?_) r) fun _ r₁ => ?_
  · split
    · next hf =>
      have hf : p.function? d = none := Option.isNone_iff_eq_none.1 hf
      refine .bind ((clears_declaration d hf r).and (paid_declaration hp hd r)) fun _ r' =>
        .pure fun h => ⟨rfl, fun hr => ?_⟩
      obtain ⟨hstill, hintro⟩ := h.1 hr.1
      have hs := h.2 hr.1 hr.2.1 hr.2.2
      exact ⟨⟨hstill, hs.filed hr.2.1, (hintro.underway hr.2.2).1⟩, hintro, hnothing hs⟩
    · next hf =>
      refine .pure ⟨rfl, fun hr => ⟨hr, .other ?_ ?_, .refl p _ _⟩⟩
      all_goals
        obtain ⟨f, hf⟩ := Option.ne_none_iff_exists'.1 (by simpa using hf)
        have hs := Arena.shape?_of_function? hf
        simp [Arena.asVariable?, show p.shape? d = _ from hs, Shape.isTypeDecl, Shape.asVariable?]
  refine .bind (paid_each (p := p) (I := Between p) (S := fun _ _ _ => True) (t := fun _ => false)
    p.globals (fun d hd r => ?_) r₁) fun _ r₂ => ?_
  · split
    · next f hf =>
      refine .bind ((clears_signature d hf r).and (paid_signature (d := d) (f := f) r)) fun _ r' =>
        .pure fun h => ⟨rfl, fun hr => ?_⟩
      refine ⟨⟨(h.1 hr.still).1, h.2.2.filed hr.filed, fun s x hs hx => ?_⟩, trivial,
        hnothing h.2.2⟩
      have := hr.values s x hs hx
      rwa [show r'.facts.table.latest x = r.facts.table.latest x from congrArg (·[x]?) h.2.1]
    · exact .pure ⟨rfl, fun hr => ⟨hr, trivial, .refl p _ _⟩⟩
  refine .bind (paid_each (p := p) (I := Between p) (S := fun _ _ _ => True)
    (t := fun d => (p.function? d).isSome) p.globals (fun d hd r => ?_) r₂) fun _ r₃ => ?_
  · split
    · next f hf =>
      have hf : p.function? d = some f := hf
      refine .bind (paid_body hp hd hf r) fun _ r' =>
        .pure fun h => ⟨rfl, fun hr => ⟨(h hr).1, trivial, ?_⟩⟩
      simpa [hf] using (h hr).2
    · exact .pure ⟨rfl, fun hr => ⟨hr, trivial, .refl p _ _⟩⟩
  refine .mapFacts fun h₃ h₂ h₁ hr hf hempty => ?_
  obtain ⟨⟨hstill, hf₁, _⟩, hintro, hs₁⟩ := h₁ ⟨hr, hf, hempty ▸ .empty _ _⟩
  have hknown : ValuesKnown p.toArena p.scene.module r₁.facts.table := fun s d hs hd =>
    (hintro.makes_known ha d (hp.names s d hs)).2 hd
  obtain ⟨hr₂, _, hs₂⟩ := h₂ ⟨hstill, hf₁, hknown⟩
  obtain ⟨_, _, hs₃⟩ := h₃ hr₂
  have hlast : r₃.facts.Quiet [] (r₃.facts.summarize p.globals) := by
    obtain ⟨functions, entryPoints, h⟩ := r₃.facts.summarize_eq p.globals
    refine ⟨?_, ?_, ?_, paramsAt_summarize r₃.facts p.globals⟩ <;> rw [h]
    exact fun _ _ => rfl
  have hs₄ : p.Spends (fun _ => 0) r₃.facts (r₃.facts.summarize p.globals) := .quiet (by simp) hlast
  have hfirst : p.Spends (fun _ => 0) r.facts r₂.facts := hs₁.trans hs₂ fun i => by simp
  exact (hfirst.trans hs₃ fun i => Nat.le_of_eq (Nat.zero_add _)).trans hs₄ fun i => Nat.le_refl _

end Modules

end Resolve

namespace Program

/-- Everything that resolution finds out about variables is accounted for: a node declares or uses
one variable at most, is then below a declaration of the module, and the record of a user says which
variable it refers to. -/
structure Accounted (p : Program) : Prop where
  filed : p.facts.Filed p.toArena
  once : ∀ i, p.facts.mentions i ≤ 1
  below : ∀ i, 0 < p.facts.mentions i → p.Mentioning i ∧ ∃ g ∈ p.globals, p.Below g i
  tied : ∀ i s, p.shape? i = some (.expr (.ident s)) → p.facts.Tied i

theorem accounted_build {b : Builder} (h : b.build.valid = true) (hfit : b.Fit)
    (ht : b.build.TreeShaped) : b.build.Accounted := by
  have hp := rooted_build hfit ht
  obtain ⟨hb, hclean⟩ := noErrors_of_valid h
  obtain ⟨_, hdone⟩ := (Resolve.paid_module hp hfit.build.typesPresent b.build.unresolved).run
  have hclean' : ¬ Resolve.Spoiled b.build.outcome := by simp [Resolve.Spoiled, hclean]
  have hs := hdone hclean' ⟨rfl, rfl⟩ (.empty _) rfl
  have hall : ∀ i, b.build.outcome.facts.mentions i ≤ b.build.weights b.build.globals i := by
    intro i
    have hspent := hs.mentions i
    have hsplit : b.build.weights (b.build.globals.filter (b.build.waiting {})) i +
        b.build.weights (b.build.globals.filter fun d => (b.build.function? d).isSome) i ≤
        b.build.weights b.build.globals i :=
      weights_filter_add_le (fun d hd => ?_) b.build.globals i
    · have hnone : b.build.unresolved.facts.mentions i = 0 := rfl
      rw [hnone, Nat.zero_add] at hspent
      exact Nat.le_trans (Nat.le_of_add_right_le hspent) hsplit
    · rw [waiting, Bool.and_eq_true] at hd
      obtain ⟨v, hv⟩ := Option.isSome_iff_exists.1 hd.1
      simp [Arena.function?, Arena.shape?_of_asVariable? hv, Shape.function?]
  have hone : ∀ i, b.build.outcome.facts.mentions i ≤ 1 := fun i =>
    Nat.le_trans (hall i) ((hp.clear_globals (.refl _)).weights_le fun e _ =>
      b.build.weight_le_one e i)
  have hfacts : b.build.facts = b.build.outcome.facts := (outcome_build hb).1
  refine ⟨hfacts ▸ hs.filed (.empty _), hfacts ▸ hone, fun i hi => ?_, fun i s hi => ?_⟩
  · rw [hfacts] at hi
    by_contra hnot
    have hnone : b.build.weights b.build.globals i = 0 := weights_eq_zero fun g hg => by
      by_contra hne
      obtain ⟨_, hb, hi⟩ := of_weight_pos (Nat.pos_of_ne_zero hne)
      exact hnot ⟨hi, g, hg, hb⟩
    have := hall i
    omega
  · rw [hfacts]
    refine (hs.tied i s hi (.inl fun n v hv => ?_)).resolve_right fun h => ?_
    · simp [unresolved] at hv
    · have : 2 ≤ b.build.outcome.facts.mentions i := h
      have := hone i
      omega

end Program

end ShaderLoom
