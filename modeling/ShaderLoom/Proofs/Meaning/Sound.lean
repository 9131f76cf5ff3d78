import ShaderLoom.Proofs.Meaning.Tables

/-! A module in which resolution finds no problem is well typed, and the tables that the rules end
with are those that resolution leaves. -/
namespace ShaderLoom.Resolve

variable {α β ι : Type}

/-- There is a problem. -/
abbrev Spoiled (r : Resolver) : Prop := r.diagnostics.hasErrors = true

/-- What holds after a step, if there is no problem then. No step takes a problem back. -/
def Clears (step : Resolve α) (r : Resolver) (Q : α → Resolver → Prop) : Prop :=
  Ends step r fun x r' => (Spoiled r → Spoiled r') ∧ (¬ Spoiled r' → Q x r')

namespace Clears

variable {r : Resolver} {Q : α → Resolver → Prop}

theorem mono {step : Resolve α} {Q' : α → Resolver → Prop} (h : Clears step r Q)
    (hq : ∀ x r', Q x r' → Q' x r') : Clears step r Q' :=
  Ends.mono h fun x r' h => ⟨h.1, fun hr => hq x r' (h.2 hr)⟩

theorem pure {x : α} (h : Q x r) : Clears (pure x : Resolve α) r Q := Ends.pure ⟨id, fun _ => h⟩

/-- What holds after the first step is known once it is known that there is no problem after the
second. -/
theorem bind {step : Resolve β} {next : β → Resolve α} {P : β → Resolver → Prop}
    (h : Clears step r P) (h' : ∀ x r₁, Clears (next x) r₁ fun y r₂ => P x r₁ → Q y r₂) :
    Clears (step >>= next) r Q := by
  refine Ends.bind (Ends.mono h fun x r₁ h₁ => Ends.mono (h' x r₁) fun y r₂ h₂ => ?_)
  exact ⟨fun hr => h₂.1 (h₁.1 hr), fun hr => h₂.2 hr (h₁.2 fun hr₁ => hr (h₂.1 hr₁))⟩

theorem get {next : Resolver → Resolve α} (h : Clears (next r) r Q) : Clears (get >>= next) r Q :=
  Ends.get h

theorem modify {g : Resolver → Resolver} {Q : Unit → Resolver → Prop}
    (hd : (g r).diagnostics = r.diagnostics) (h : Q () (g r)) :
    Clears (modify g : Resolve Unit) r Q :=
  Ends.modify ⟨fun hr => by rwa [Spoiled, hd], fun _ => h⟩

theorem mapFacts {g : Facts → Facts} {Q : Unit → Resolver → Prop}
    (h : Q () { r with facts := g r.facts }) : Clears (mapFacts g) r Q := modify rfl h

theorem report {c : Scene} {id : NodeId} {message : String} {Q : Unit → Resolver → Prop} :
    Clears (report c id message) r Q := by
  have hbad : Spoiled { r with diagnostics := r.diagnostics ++ [Diagnostic.errorAt .resolver message
    (c.arena.spanOf id)] } := by
    simp only [Spoiled, Diagnostics.hasErrors, List.any_append, Bool.or_eq_true]
    exact .inr rfl
  exact Ends.modify ⟨fun _ => hbad, fun h => absurd hbad h⟩

theorem refuse {c : Scene} {id : NodeId} {message : String} {Q : Option Ty → Resolver → Prop} :
    Clears (refuse c id message) r Q :=
  bind (P := fun _ _ => False) report fun _ _ => pure False.elim

end Clears

theorem Finds.clears {step : Resolve α} {r : Resolver} {Q : α → Resolver → Prop}
    (h : Finds step r Q) : Clears step r Q :=
  Ends.mono h fun _ _ h => ⟨fun hr => by rwa [Spoiled, h.1], fun _ => h.2⟩

section Types

variable {c : Scene} {r : Resolver}

/-- What holds if a type node was resolved. -/
def TypeDone (c : Scene) (r : Resolver) (i : NodeId) (t : Option Ty) (r' : Resolver) : Prop :=
  Steady r r' ∧ Typing c.arena c.module r.pending r.facts.table (.node i t) r'.facts.table

/-- What holds if a structure or alias was resolved. -/
def DeclDone (c : Scene) (r : Resolver) (d : NodeId) (t : Option Ty) (r' : Resolver) : Prop :=
  Steady r r' ∧ Typing c.arena c.module r.pending r.facts.table (.decl d t) r'.facts.table

theorem clears_members {one : NodeId → Resolve (Option Ty)}
    (hone : ∀ i r, Clears (one i) r (TypeDone c r i)) (ms : List (NodeId × Nat)) (r : Resolver) :
    Clears (ms.filterMapM fun (m, k) => memberFacts c one m k) r fun found r' =>
      Steady r r' ∧ Typing c.arena c.module r.pending r.facts.table (.members ms found)
      r'.facts.table := by
  induction ms generalizing r with
  | nil => exact .pure ⟨.refl r, .nil⟩
  | cons x ms ih =>
    obtain ⟨m, k⟩ := x
    rw [List.filterMapM_cons]
    have hmember : Clears (memberFacts c one m k) r fun o r₁ => Steady r r₁ ∧ ∀ rest T,
        Typing c.arena c.module r.pending r₁.facts.table (.members ms rest) T →
        Typing c.arena c.module r.pending r.facts.table (.members ((m, k) :: ms) (o.toList ++ rest))
        T := by
      unfold memberFacts
      split
      · next s ty as hs =>
        refine .bind (hone ty r) fun t r₁ => .pure fun h => ⟨h.1, fun rest T hrest => ?_⟩
        exact .member hs h.2 hrest
      · next hs =>
        refine .pure ⟨.refl r, fun rest T hrest => .stray ?_ hrest⟩
        cases hm : c.arena.shape? m with
        | none => rfl
        | some x =>
          cases x with
          | structMember s ty as => exact absurd hm (hs s ty as)
          | _ => rfl
    refine .bind hmember fun o r₁ => ?_
    cases o with
    | none =>
      refine (ih r₁).mono fun found r' h h₁ => ⟨h₁.1.trans h.1, h₁.2 _ _ ?_⟩
      rw [← h₁.1.pending]
      exact h.2
    | some f =>
      refine .bind (ih r₁) fun found r' => .pure fun h h₁ => ⟨h₁.1.trans h.1, h₁.2 _ _ ?_⟩
      rw [← h₁.1.pending]
      exact h.2

theorem clears_declared {one : NodeId → Resolve (Option Ty)}
    (hone : ∀ i r, Clears (one i) r (TypeDone c r i)) {d : NodeId}
    (hd : (c.arena.shape? d).any Shape.isTypeDecl = true) (r : Resolver) :
    Clears (declared c one d) r fun t r' =>
      Steady r r' ∧ ∀ P, r.pending = d :: P → r.facts.table.types d = none → d ∉ P →
      Typing c.arena c.module P r.facts.table (.decl d t) r'.facts.table := by
  unfold declared
  split
  · next s ms as hs =>
    dsimp only
    refine .bind (finds_openStruct d _).clears fun _ r₁ =>
      .bind (clears_members hone ms.zipIdx r₁) fun found r₂ =>
      .bind (finds_setStruct d _).clears fun _ r₃ => .pure fun h₃ h₂ h₁ => ?_
    refine ⟨h₁.1.trans (h₂.1.trans h₃.1), fun P hP hnone hnot => ?_⟩
    rw [h₃.2]
    refine .struct hs hnone hnot ?_
    rw [← hP, ← h₁.2, ← h₁.1.pending]
    exact h₂.2
  · next s ty hs =>
    refine .bind (hone ty r) fun t r₁ => (finds_keepType d t).clears.mono fun u r₂ h₂ h₁ =>
      ⟨h₁.1.trans h₂.2.1, fun P hP hnone hnot => ?_⟩
    rw [h₂.1, h₂.2.2]
    refine .typeAlias hs hnone hnot ?_
    rw [← hP]
    exact h₁.2
  · next h₁ h₂ =>
    exfalso
    rcases Arena.shape?_of_isTypeDecl hd with ⟨s, ms, as, hx⟩ | ⟨s, ty, hx⟩
    · exact h₁ s ms as hx
    · exact h₂ s ty hx

theorem clears_types (n : Nat) : (∀ i r, Clears (type c n i) r (TypeDone c r i)) ∧
    ∀ d r, (c.arena.shape? d).any Shape.isTypeDecl = true →
      Clears (typeDecl c n d) r (DeclDone c r d) := by
  induction n with
  | zero =>
    refine ⟨fun i r => ?_, fun d r _ => ?_⟩
    · unfold type
      exact .refuse
    · unfold typeDecl
      exact .refuse
  | succ n ih =>
    obtain ⟨ihType, ihDecl⟩ := ih
    refine ⟨fun i r => ?_, fun d r hd => ?_⟩
    · have hplain : ∀ {x t}, c.arena.shape? i = some (.type x) → x.plain? = some t →
          Clears (keepType i (some t)) r (TypeDone c r i) := by
        intro x t hx ht
        refine (finds_keepType i (some t)).clears.mono fun u r' h => ⟨h.2.1, ?_⟩
        rw [h.1, h.2.2]
        exact .plain hx ht
      have haround : ∀ {x e f}, c.arena.shape? i = some (.type x) → x.around? = some (e, f) →
          Clears (do keepType i ((← type c n e).map f)) r (TypeDone c r i) := by
        intro x e f hx he
        refine .bind (ihType e r) fun t r₁ =>
          (finds_keepType i (t.map f)).clears.mono fun u r₂ h h₁ => ⟨h₁.1.trans h.2.1, ?_⟩
        rw [h.1, h.2.2]
        exact .around hx he h₁.2
      unfold type
      split
      · next h0 =>
        subst h0
        exact .pure ⟨.refl r, .absent⟩
      · split
        · next h => exact hplain h rfl
        · next h => exact hplain h rfl
        · next h => exact hplain h rfl
        · next h => exact hplain h rfl
        · next h => exact haround h rfl
        · next h => exact haround h rfl
        · next h => exact haround h rfl
        · next h => exact hplain h rfl
        · next h => exact haround h rfl
        · next h => exact hplain h rfl
        · next s hs =>
          split
          · exact .refuse
          · next d hfind =>
            split
            · next hd =>
              refine .bind (finds_setName i d).clears fun _ r₁ => .bind (ihDecl d r₁ hd) fun t r₂ =>
                (finds_keepType i t).clears.mono ?_
              intro u r₃ h₃ h₂ h₁
              refine ⟨h₁.1.trans (h₂.1.trans h₃.2.1), ?_⟩
              rw [h₃.1, h₃.2.2]
              refine .named hs hfind hd ?_
              rw [← h₁.2, ← h₁.1.pending]
              exact h₂.2
            · exact .refuse
        · exact .refuse
    · unfold typeDecl
      refine .get ?_
      cases hknown : r.facts.types[d]? with
      | some t => exact .pure ⟨.refl r, .known hknown⟩
      | none =>
        dsimp only
        split
        · exact .refuse
        · next hnot =>
          refine .bind (finds_pend d).clears fun _ r₁ =>
            .bind (clears_declared ihType hd r₁) fun t r₂ =>
            .bind (finds_settle d).clears fun _ r₃ => .pure fun h₃ h₂ h₁ => ?_
          subst h₃ h₁
          refine ⟨⟨?_, h₂.1.frames⟩, h₂.2 r.pending rfl hknown (by simpa using hnot)⟩
          rw [h₂.1.pending, List.erase_cons_head]

end Types

section Expressions

variable {c : Scene} {r : Resolver}

theorem clears_makeVariable (d : NodeId) (v : VariableShape Symbol NodeId) (scope : VariableScope)
    (t : Option Ty) :
    Clears (makeVariable c d v scope t) r fun made r' => made = some r.facts.table.size ∧
      r'.pending = r.pending ∧
      declareAs scope r.frames v.name d = some r'.frames ∧
      r'.facts.table = r.facts.table.addValue d t := by
  unfold makeVariable
  split
  · next hlocal =>
    refine .bind (finds_declareLocal v.name d).clears fun new r₁ => ?_
    cases new with
    | true =>
      refine (finds_addVariable c.arena d v scope t).clears.mono fun made r₂ h₂ h₁ =>
        ⟨?_, h₂.2.1.pending.trans h₁.1, ?_, ?_⟩
      · rw [h₂.1, h₁.2.1]
      · rcases h₁.2.2 with h | h
        · rw [declareAs, if_neg hlocal, h.2, h₂.2.1.frames]
        · cases h.1
      · rw [h₂.2.2, h₁.2.1]
    | false => exact .bind (P := fun _ _ => False) .report fun _ r₂ =>
        (finds_addVariable c.arena d v scope t).clears.mono fun _ _ _ h => h.elim
  · next hglobal =>
    refine (finds_addVariable c.arena d v scope t).clears.mono fun made r' h =>
      ⟨h.1, h.2.1.pending, ?_, h.2.2⟩
    rw [declareAs, if_pos (by simpa using hglobal), h.2.1.frames]

theorem clears_variableType (d : NodeId) (v : VariableShape Symbol NodeId) (t₀ : Option Ty) :
    Clears (variableType c d v t₀) r fun t r' =>
      Steady r r' ∧ (r.pending = [] →
      Valued c.arena c.module v t₀ r.facts.table t r'.facts.table) := by
  unfold variableType
  split
  · next h =>
    refine ((clears_types c.fuel).1 v.type r).mono fun t r' ht => ⟨ht.1, fun hp => .named h ?_⟩
    rw [← hp]
    exact ht.2
  · next h =>
    split
    · next h' => exact .pure ⟨.refl r, fun _ => .inferred (by simpa using h) h'⟩
    · exact .refuse

/-- What holds if an expression was resolved with nothing pending. -/
def ExprDone (c : Scene) (r : Resolver) (e : NodeId) (t : Option Ty) (r' : Resolver) : Prop :=
  Steady r r' ∧ (r.pending = [] →
    Sensing c.arena c.module Anything r.frames r.facts.table (.one e t) r'.facts.table)

theorem clears_all {one : NodeId → Resolve (Option Ty)}
    (hone : ∀ e r, Clears (one e) r (ExprDone c r e)) (es : List NodeId) (r : Resolver) :
    Clears (es.mapM one) r fun ts r' => Steady r r' ∧
      (r.pending = [] → Sensing c.arena c.module Anything r.frames r.facts.table (.all es ts)
      r'.facts.table) := by
  induction es generalizing r with
  | nil => exact .pure ⟨.refl r, fun _ => .nil⟩
  | cons e es ih =>
    rw [List.mapM_cons]
    refine .bind (hone e r) fun t r₁ => .bind (ih r₁) fun ts r₂ => .pure fun h₂ h₁ => ?_
    refine ⟨h₁.1.trans h₂.1, fun hp => .cons (h₁.2 hp) ?_⟩
    rw [← h₁.1.frames]
    exact h₂.2 (h₁.1.pending.trans hp)

/-- The end of a call once the arguments are resolved. -/
theorem clears_callee {i stmt g : NodeId} {k : Callee} {ts : List (Option Ty)} {e : ExprFacts}
    {r₀ : Resolver} (he : ({ e with stmt := 0 } : ExprFacts) = k.sense ts)
    (hk : r₀.pending = [] → Calling c.arena c.module r₀.facts.table g k r.facts.table)
    (hs : Steady r₀ r) :
    Clears (finish i { e with stmt }) r fun t r' => Steady r₀ r' ∧ (r₀.pending = [] → ∃ k T,
      Calling c.arena c.module r₀.facts.table g k T ∧ t = (k.sense ts).type ∧
      r'.facts.table = T.note i (k.sense ts)) := by
  refine (finds_finish i _).clears.mono fun t r' h =>
    ⟨hs.trans h.2.1, fun hp => ⟨k, _, hk hp, ?_, ?_⟩⟩
  · rw [h.1, ← he]
  · rw [h.2.2, ← he]

theorem clears_callTarget (i stmt g : NodeId) (ts : List (Option Ty)) (r : Resolver) :
    Clears (callTarget c i { stmt } g ts) r fun t r' => Steady r r' ∧ (r.pending = [] → ∃ k T,
      Calling c.arena c.module r.facts.table g k T ∧ t = (k.sense ts).type ∧
      r'.facts.table = T.note i (k.sense ts)) := by
  have hbuiltin : ∀ {s}, c.arena.shape? g = some (.expr (.ident s)) →
      (∀ d, c.module.find? s = some d →
      (c.arena.shape? d).any Shape.isTypeDecl = false ∧ c.arena.function? d = none) →
      Clears (callBuiltin c i { stmt } (c.arena.nameOf s) ts) r fun t r' =>
        Steady r r' ∧ (r.pending = [] → ∃ k T,
        Calling c.arena c.module r.facts.table g k T ∧ t = (k.sense ts).type ∧
          r'.facts.table = T.note i (k.sense ts)) := by
    intro s hs hnot
    unfold callBuiltin
    split
    · next rule hrule =>
      exact clears_callee (k := .builtin (c.arena.nameOf s) rule)
        (e := { builtin := c.arena.nameOf s, type := rule.result ts })
        rfl (fun _ => .builtin hs hnot hrule) (.refl r)
    · exact .refuse
  unfold callTarget
  split
  · next x hx =>
    refine .bind ((clears_types c.fuel).1 g r) fun t r₁ => ?_
    refine (finds_finish i { type := t, stmt }).clears.mono fun u r₂ h₂ h₁ =>
      ⟨h₁.1.trans h₂.2.1, fun hp => ⟨.constructor t, _, .typed hx ?_, h₂.1, h₂.2.2⟩⟩
    rw [← hp]
    exact h₁.2
  · next s hs =>
    split
    · next hnone => exact hbuiltin hs fun d hd => by rw [hnone] at hd; cases hd
    · next d hd =>
      have htype : (c.arena.shape? d).any Shape.isTypeDecl = true →
          Clears (do finish i { type := ← typeDecl c c.fuel d, stmt }) r fun t r' => Steady r r' ∧
            (r.pending = [] → ∃ k T, Calling c.arena c.module r.facts.table g k T ∧
              t = (k.sense ts).type ∧ r'.facts.table = T.note i (k.sense ts)) := by
        intro hdecl
        refine .bind ((clears_types c.fuel).2 d r hdecl) fun t r₁ => ?_
        refine (finds_finish i { type := t, stmt }).clears.mono fun u r₂ h₂ h₁ =>
          ⟨h₁.1.trans h₂.2.1, fun hp => ⟨.constructor t, _, .declared hs hd hdecl ?_, h₂.1, h₂.2.2⟩⟩
        rw [← hp]
        exact h₁.2
      split
      · next f hf =>
        unfold callFunction
        refine .get ?_
        cases hfacts : r.facts.functions[d]? with
        | none => exact .refuse
        | some x =>
          dsimp only
          refine .bind (finds_finish i { target := some d, type := x.returnType, stmt }).clears
            fun t r₁ =>
            .bind (finds_useCallee d).clears fun _ r₂ => .pure fun h₂ h₁ => ?_
          refine ⟨h₁.2.1.trans h₂.1, fun _ => ⟨.function d x.returnType, _,
            .function (f := f) hs hd (by simp [Arena.function?, hf, Shape.function?]) ?_, h₁.1, ?_⟩⟩
          · simp [Facts.table, hfacts]
          · rw [h₂.2, h₁.2.2]
            rfl
      · next hx => exact htype (by simp [hx, Shape.isTypeDecl])
      · next hx => exact htype (by simp [hx, Shape.isTypeDecl])
      · next h₁ h₂ h₃ =>
        refine hbuiltin hs fun d' hd' => ?_
        rw [hd] at hd'
        cases hd'
        cases hx : c.arena.shape? d with
        | none => simp [Arena.function?, hx]
        | some x =>
          cases x with
          | decl x =>
            cases x with
            | function f => exact absurd hx (h₁ f)
            | struct s ms as => exact absurd hx (h₂ s ms as)
            | typeAlias s ty => exact absurd hx (h₃ s ty)
            | value v => simp [Arena.function?, hx, Shape.isTypeDecl, Shape.function?]
          | _ => simp [Arena.function?, hx, Shape.isTypeDecl, Shape.function?]
  · exact .refuse

/-- What holds if a variable was made. -/
def ValueDone (c : Scene) (scope : VariableScope) (r : Resolver) (d : NodeId)
    (v : VariableShape Symbol NodeId) (made : Option VariableId) (r' : Resolver) : Prop :=
  r'.pending = r.pending ∧ declareAs scope r.frames v.name d = some r'.frames ∧
    (r.pending = [] → ∃ t₀ t T₁ T₂,
    Sensing c.arena c.module Anything r.frames r.facts.table (.one v.initializer t₀) T₁ ∧
    Valued c.arena c.module v t₀ T₁ t T₂ ∧ made = some T₂.size ∧ r'.facts.table = T₂.addValue d t)

theorem clears_expressions (n : Nat) : (∀ e r, Clears (expr c n e) r (ExprDone c r e)) ∧
    (∀ i stmt g args r, Clears (call c n i { stmt } g args) r fun t r' => Steady r r' ∧
      (r.pending = [] → ∃ ts T k T',
      Sensing c.arena c.module Anything r.frames r.facts.table (.all args ts) T ∧
      Calling c.arena c.module T g k T' ∧
      t = (k.sense ts).type ∧ r'.facts.table = T'.note i (k.sense ts))) ∧
    ∀ d v scope r, Clears (resolveVariable c n d v scope) r (ValueDone c scope r d v) := by
  induction n with
  | zero =>
    refine ⟨fun e r => ?_, fun i stmt g args r => ?_, fun d v scope r => ?_⟩
    · unfold expr
      exact .refuse
    · unfold call
      exact .refuse
    · unfold resolveVariable
      exact .bind (P := fun _ _ => False) .refuse fun _ _ => .pure False.elim
  | succ n ih =>
    obtain ⟨ihExpr, ihCall, ihVar⟩ := ih
    refine ⟨fun e r => ?_, fun i stmt g args r => ?_, fun d v scope r => ?_⟩
    · unfold expr
      split
      · next h0 =>
        subst h0
        exact .pure ⟨.refl r, fun _ => .absent⟩
      refine .get ?_
      dsimp only
      refine .bind (finds_setExpr e { stmt := r.stmt }).clears fun _ r₁ => ?_
      -- an expression that is put together from its operands and noted
      have hplain : ∀ {x l s} {r₂ r' : Resolver} {t : Option Ty},
          c.arena.shape? e = some (.expr x) →
          (r₁.pending = [] → Sensing c.arena c.module Anything r₁.frames r₁.facts.table
            (.all x.operands l) r₂.facts.table) →
          Steady r₁ r₂ → r₂.facts.table.compose c.arena x l = some (some s) →
          (t = s.type ∧ Steady r₂ r' ∧ r'.facts.table = r₂.facts.table.note e s) →
          (Steady r r₁ ∧ r₁.facts.table = r.facts.table.note e {}) → ExprDone c r e t r' := by
        intro x l s r₂ r' t hx hall hs hcompose h h₁
        refine ⟨h₁.1.trans (hs.trans h.2.1), fun hp => ?_⟩
        rw [h.1, h.2.2]
        refine .plain (o := some s) hx ?_ hcompose trivial
        rw [← h₁.2, ← h₁.1.frames]
        exact hall (h₁.1.pending.trans hp)
      split
      · next s hs =>
        have huse : ∀ {r₂ r' : Resolver} {d n t}, visible c.module r₁.frames s = some d → r₂ = r₁ →
            r₂.facts.table.latest d = some n →
            (t = r₂.facts.table.typeAt n ∧ Steady r₂ r' ∧ r'.facts.table = r₂.facts.table.use e n) →
            (Steady r r₁ ∧ r₁.facts.table = r.facts.table.note e {}) → ExprDone c r e t r' := by
          intro r₂ r' d n t hd hr₂ hn h h₁
          subst hr₂
          refine ⟨h₁.1.trans h.2.1, fun _ => ?_⟩
          rw [h.1, h.2.2, h₁.2]
          rw [h₁.2] at hn
          rw [h₁.1.frames] at hd
          exact .known hs hd hn trivial
        have hlook : Clears (lookup c s) r₁ fun o r₂ =>
            r₂ = r₁ ∧ o = visible c.module r₁.frames s :=
          .get (.pure ⟨rfl, rfl⟩)
        refine .bind hlook fun o r₂ => ?_
        cases o with
        | none => exact .refuse
        | some d =>
          dsimp only
          refine .get ?_
          split
          · next n hn =>
            exact (finds_useVariable e r.stmt n).clears.mono fun t r₃ h₃ h₂ h₁ =>
              huse h₂.2.symm h₂.1 hn h₃ h₁
          · next v hnone hv =>
            refine .bind (ihVar d v .global r₂) fun made r₃ => ?_
            cases made with
            | none =>
              refine .pure fun h₃ h₂ h₁ => ⟨?_, fun hp => ?_⟩
              · refine h₁.1.trans ?_
                rw [← h₂.1]
                refine ⟨h₃.1, ?_⟩
                have := h₃.2.1
                rw [declareAs, if_pos rfl] at this
                exact (Option.some.inj this).symm
              · have hp₂ : r₂.pending = [] := by rw [h₂.1, h₁.1.pending, hp]
                obtain ⟨_, _, _, _, _, _, hmade, _⟩ := h₃.2.2 hp₂
                cases hmade
            | some number =>
              refine (finds_useVariable e r.stmt number).clears.mono fun t r₄ h₄ h₃ h₂ h₁ => ?_
              have hframes : r₃.frames = r₂.frames := by
                have := h₃.2.1
                rw [declareAs, if_pos rfl] at this
                exact (Option.some.inj this).symm
              refine ⟨h₁.1.trans (h₂.1 ▸ (Steady.trans ⟨h₃.1, hframes⟩ h₄.2.1)), fun hp => ?_⟩
              have hp₂ : r₂.pending = [] := by rw [h₂.1, h₁.1.pending, hp]
              obtain ⟨t₀, t', T₁, T₂, hinit, hval, hmade, htable⟩ := h₃.2.2 hp₂
              cases hmade
              rw [h₄.1, h₄.2.2, htable]
              have ht : (T₂.addValue d t').typeAt T₂.size = t' := by
                simp [Table.typeAt, Table.addValue]
              rw [ht]
              rw [h₂.1] at hinit hnone
              rw [h₁.2, h₁.1.frames] at hinit
              have hnone' : r₁.facts.table.latest d = none := hnone
              rw [h₁.2] at hnone'
              have hd := h₂.2.symm
              rw [h₁.1.frames] at hd
              exact .entered hs hd hnone' hv hinit hval trivial
          · exact .refuse
      · next v suffix hx =>
        exact (finds_finish e { stmt := r.stmt, type := some (if suffix = .u then
          .u32 else .i32) }).clears.mono fun t r₂ h h₁ =>
          hplain hx (fun _ => .nil) (.refl r₁) rfl h h₁
      · next hx =>
        exact (finds_finish e { stmt := r.stmt, type := some .f32 }).clears.mono fun t r₂ h h₁ =>
          hplain hx (fun _ => .nil) (.refl r₁) rfl h h₁
      · next hx =>
        exact (finds_finish e { stmt := r.stmt, type := some .bool }).clears.mono fun t r₂ h h₁ =>
          hplain hx (fun _ => .nil) (.refl r₁) rfl h h₁
      · next op lhs rhs hx =>
        refine .bind (ihExpr lhs r₁) fun lt r₂ => .bind (ihExpr rhs r₂) fun rt r₃ => ?_
        refine (finds_finish e { stmt := r.stmt, type := binaryType op lt rt }).clears.mono
          fun t r₄ h₄ h₃ h₂ h₁ => ?_
        refine hplain (l := [lt, rt]) (s := { type := binaryType op lt rt }) hx (fun hp => ?_)
          (h₂.1.trans h₃.1) rfl h₄ h₁
        refine .cons (h₂.2 hp) (.cons ?_ .nil)
        rw [← h₂.1.frames]
        exact h₃.2 (h₂.1.pending.trans hp)
      · next op o hx =>
        refine .bind (ihExpr o r₁) fun ot r₂ => ?_
        refine (finds_finish e { stmt := r.stmt, type := ot }).clears.mono fun t r₃ h₃ h₂ h₁ => ?_
        exact hplain hx (fun hp => .cons (h₂.2 hp) .nil) h₂.1 rfl h₃ h₁
      · next g args hx =>
        refine (ihCall e r.stmt g args r₁).mono fun t r₂ h₂ h₁ => ⟨h₁.1.trans h₂.1, fun hp => ?_⟩
        obtain ⟨ts, T, k, T', hargs, hk, ht, htable⟩ := h₂.2 (h₁.1.pending.trans hp)
        rw [ht, htable]
        rw [h₁.2, h₁.1.frames] at hargs
        exact .call hx hargs hk trivial
      · next o i hx =>
        refine .bind (ihExpr o r₁) fun ot r₂ => .bind (ihExpr i r₂) fun it r₃ => ?_
        have hall : ExprDone c r₁ o ot r₂ → ExprDone c r₂ i it r₃ → r₁.pending = [] →
            Sensing c.arena c.module Anything r₁.frames r₁.facts.table (.all [o, i] [ot, it])
            r₃.facts.table := by
          intro h₂ h₃ hp
          refine .cons (h₂.2 hp) (.cons ?_ .nil)
          rw [← h₂.1.frames]
          exact h₃.2 (h₂.1.pending.trans hp)
        cases ot with
        | none =>
          refine .pure fun h₃ h₂ h₁ => ⟨h₁.1.trans (h₂.1.trans h₃.1), fun hp => ?_⟩
          have hboth := hall h₂ h₃ (h₁.1.pending.trans hp)
          rw [h₁.2, h₁.1.frames] at hboth
          exact .plain (o := none) hx hboth rfl trivial
        | some t =>
          simp only [Option.map_some]
          split
          · next h => cases h
          · next u hu =>
            have hu := Option.some.inj hu
            refine (finds_finish e { stmt := r.stmt, type := some u }).clears.mono
              fun t' r₄ h₄ h₃ h₂ h₁ => ?_
            refine hplain (l := [some t, it]) (s := { type := some u }) hx (hall h₂ h₃)
              (h₂.1.trans h₃.1) ?_ h₄ h₁
            simp [Table.compose, hu, Except.toOption]
          · exact .refuse
      · next o s hx =>
        refine .bind (ihExpr o r₁) fun ot r₂ => .get ?_
        cases ot with
        | none =>
          refine .pure fun h₂ h₁ => ⟨h₁.1.trans h₂.1, fun hp => ?_⟩
          have hobject := h₂.2 (h₁.1.pending.trans hp)
          rw [h₁.2, h₁.1.frames] at hobject
          exact .plain (o := none) hx (.cons hobject .nil) rfl trivial
        | some t =>
          rcases r₂.facts.selected_eq (c.arena.nameOf s) t with ⟨m, h, _⟩
            | ⟨g, sense, h, hsense, hg⟩
          · simp only [Option.map_some, h]
            exact .refuse
          · simp only [Option.map_some, h, hg]
            refine (finds_finish e { sense with stmt := r.stmt }).clears.mono fun t' r₃ h₃ h₂ h₁ =>
              ?_
            have hzero : sense.stmt = 0 := Table.stmt_select hsense
            refine hplain (s := sense) (l := [some t]) hx (fun hp => .cons (h₂.2 hp) .nil) h₂.1 ?_
              ?_ h₁
            · simp [Table.compose, hsense]
            · refine ⟨h₃.1, h₃.2.1, ?_⟩
              rw [h₃.2.2, ← hzero]
      · have herase : Clears (mapFacts fun f => { f with exprs := f.exprs.erase e }) r₁ fun _ _ =>
            True := .mapFacts trivial
        exact .bind herase fun _ _ => .refuse
    · rw [call_succ]
      refine .bind (clears_all ihExpr args r) fun ts r₁ =>
        (clears_callTarget i stmt g ts r₁).mono fun t r₂ h₂ h₁ => ?_
      refine ⟨h₁.1.trans h₂.1, fun hp => ?_⟩
      obtain ⟨k, T, hk, ht, htable⟩ := h₂.2 (h₁.1.pending.trans hp)
      exact ⟨ts, _, k, T, h₁.2 hp, hk, ht, htable⟩
    · unfold resolveVariable
      refine .bind (ihExpr v.initializer r) fun t₀ r₁ =>
        .bind (clears_variableType d v t₀) fun t r₂ => ?_
      refine (clears_makeVariable d v scope t).mono fun made r₃ h₃ h₂ h₁ => ⟨?_, ?_, fun hp => ?_⟩
      · rw [h₃.2.1, h₂.1.pending, h₁.1.pending]
      · rw [← h₃.2.2.1, h₂.1.frames, h₁.1.frames]
      · exact ⟨t₀, t, _, _, h₁.2 hp, h₂.2 (h₁.1.pending.trans hp), h₃.1, h₃.2.2.2⟩

end Expressions

section Statements

variable {c : Scene} {r : Resolver}

/-- What holds if a part of a body was resolved. -/
def PartDone (c : Scene) (r : Resolver) (part : Part) (r' : Resolver) : Prop :=
  r'.pending = r.pending ∧
    (r.pending = [] → Scoping c.arena c.module Anything r.frames r.facts.table part r'.frames
      r'.facts.table)

theorem PartDone.of_sensing {r r' : Resolver} {i : NodeId} {s : StmtShape NodeId} {es : List NodeId}
    (hs : c.arena.shape? i = some (.stmt s)) (hes : s.reads? = some es) (h : Steady r r')
    (h' : r.pending = [] →
      ∃ ts, Sensing c.arena c.module Anything r.frames r.facts.table (.all es ts) r'.facts.table) :
    PartDone c r (.one i) r' := by
  refine ⟨h.pending, fun hp => ?_⟩
  obtain ⟨ts, hts⟩ := h' hp
  rw [h.frames]
  exact .simple hs hes hts

theorem clears_inOrder {one : NodeId → Bool → Resolve Behaviors}
    (hone : ∀ i live r, Clears (one i live) r fun _ => PartDone c r (.one i)) (live : Bool)
    (ss : List NodeId) (sofar : Behaviors) (r : Resolver) :
    Clears (inOrder one live ss sofar) r fun _ => PartDone c r (.all ss) := by
  induction ss generalizing sofar r with
  | nil => exact .pure ⟨rfl, fun _ => .nil⟩
  | cons s ss ih =>
    refine .bind (hone s _ r) fun b r₁ => (ih _ r₁).mono fun _ r₂ h₂ h₁ =>
      ⟨h₂.1.trans h₁.1, fun hp => ?_⟩
    exact .cons (h₁.2 hp) (h₂.2 (h₁.1.trans hp))

theorem PartDone.around {r r₁ r₂ r' : Resolver} {part : Part}
    (h₁ : Steady r r₁ ∧ r₁.facts.table = r.facts.table) (h : PartDone c r₁ part r₂)
    (h₂ : Steady r₂ r' ∧ r'.facts.table = r₂.facts.table) : PartDone c r part r' := by
  refine ⟨h₂.1.pending.trans (h.1.trans h₁.1.pending), fun hp => ?_⟩
  rw [h₂.1.frames, h₂.2, ← h₁.1.frames, ← h₁.2]
  exact h.2 (h₁.1.pending.trans hp)

theorem clears_openBody {one : NodeId → Bool → Resolve Behaviors}
    (hone : ∀ i live r, Clears (one i live) r fun _ => PartDone c r (.one i)) (b : NodeId)
    (live : Bool) (r : Resolver) :
    Clears (openBody c one b live) r fun _ => PartDone c r (.body b) := by
  unfold openBody
  split
  · next ss hss =>
    refine .bind (finds_setStmt b live).clears fun _ r₁ =>
      .bind (clears_inOrder hone live ss _ r₁) fun x r₂ =>
      .bind (finds_setBehaviors b x).clears fun _ r₃ => .pure fun h₃ h₂ h₁ => ?_
    exact .around h₁ ⟨h₂.1, fun hp => .opened hss (h₂.2 hp)⟩ h₃
  · next hnone => exact .pure ⟨rfl, fun _ => .lacking hnone⟩

theorem clears_localVariable (d : NodeId) (r : Resolver) : Clears (localVariable c d) r fun _ r' =>
    r'.pending = r.pending ∧ ∀ i, c.arena.shape? i = some (.stmt (.varDecl d)) → r.pending = [] →
      Scoping c.arena c.module Anything r.frames r.facts.table (.one i) r'.frames
      r'.facts.table := by
  unfold localVariable
  split
  · next v hv =>
    refine .bind ((clears_expressions c.fuel).2.2 d v .local r) fun _ r₁ =>
      .pure fun h => ⟨h.1, fun i hi hp => ?_⟩
    obtain ⟨t₀, t, T₁, T₂, hinit, hval, -, htable⟩ := h.2.2 hp
    have hframes := h.2.1
    rw [declareAs, if_neg (by decide)] at hframes
    rw [htable]
    exact .varDecl hi hv (.intro hinit hval hframes)
  · next hnone => exact .pure ⟨rfl, fun i hi _ => .stray hi hnone⟩

theorem clears_inside {one : NodeId → Bool → Resolve Behaviors}
    (hone : ∀ i live r, Clears (one i live) r fun _ => PartDone c r (.one i)) (i : NodeId)
    (live : Bool) (r : Resolver) :
    Clears (inside c one i live (c.arena.shape? i)) r fun _ => PartDone c r (.one i) := by
  have hexpr := fun e r => (clears_expressions (c := c) c.fuel).1 e r
  generalize hs : c.arena.shape? i = shape
  unfold inside
  split
  · next ss =>
    refine .bind finds_pushFrame.clears fun _ r₁ =>
      .bind (clears_inOrder hone live ss _ r₁) fun x r₂ =>
      .bind finds_popFrame.clears fun _ r₃ => .pure fun h₃ h₂ h₁ => ?_
    subst h₃ h₁
    exact ⟨h₂.1, fun hp => .block hs (h₂.2 hp)⟩
  · next d =>
    exact .bind (clears_localVariable d r) fun _ r₁ => .pure fun h => ⟨h.1, h.2 i hs⟩
  · next lhs rhs =>
    refine .bind (hexpr lhs r) fun lt r₁ => .bind (hexpr rhs r₁) fun rt r₂ => .pure fun h₂ h₁ => ?_
    refine .of_sensing hs rfl (h₁.1.trans h₂.1) fun hp =>
      ⟨[lt, rt], .cons (h₁.2 hp) (.cons ?_ .nil)⟩
    rw [← h₁.1.frames]
    exact h₂.2 (h₁.1.pending.trans hp)
  · next lhs _ =>
    exact .bind (hexpr lhs r) fun t r₁ =>
      .pure fun h => .of_sensing hs rfl h.1 fun hp => ⟨[t], .cons (h.2 hp) .nil⟩
  · next e =>
    exact .bind (hexpr e r) fun t r₁ =>
      .pure fun h => .of_sensing hs rfl h.1 fun hp => ⟨[t], .cons (h.2 hp) .nil⟩
  · next cond b e =>
    refine .bind (hexpr cond r) fun t r₁ => .bind (hone b live r₁) fun x r₂ =>
      .bind (hone e live r₂) fun y r₃ =>
      .pure fun h₃ h₂ h₁ => ⟨h₃.1.trans (h₂.1.trans h₁.1.pending), fun hp => ?_⟩
    have hp₁ := h₁.1.pending.trans hp
    refine .ifElse hs (h₁.2 hp) ?_ (h₃.2 (h₂.1.trans hp₁))
    rw [← h₁.1.frames]
    exact h₂.2 hp₁
  · next init cond cont b =>
    refine .bind finds_pushFrame.clears fun _ r₀ => .bind (hone init live r₀) fun _ r₁ =>
      .bind (hexpr cond r₁) fun t r₂ => ?_
    refine .bind (hone b live r₂) fun x r₃ => .bind (hone cont live r₃) fun _ r₄ =>
      .bind finds_popFrame.clears fun _ r₅ => ?_
    refine .pure fun h₅ h₄ h₃ h₂ h₁ h₀ => ?_
    subst h₅ h₀
    have hp₃ := h₃.1.trans (h₂.1.pending.trans h₁.1)
    refine ⟨h₄.1.trans hp₃, fun hp => ?_⟩
    have hp₁ := h₁.1.trans hp
    refine .forLoop hs (h₁.2 hp) (h₂.2 hp₁) ?_ (h₄.2 (hp₃.trans hp))
    rw [← h₂.1.frames]
    exact h₃.2 (h₂.1.pending.trans hp₁)
  · next cond b =>
    refine .bind (hexpr cond r) fun t r₁ => .bind (hone b live r₁) fun x r₂ => .pure fun h₂ h₁ =>
      ⟨h₂.1.trans h₁.1.pending, fun hp => .whileLoop hs (h₁.2 hp) ?_⟩
    rw [← h₁.1.frames]
    exact h₂.2 (h₁.1.pending.trans hp)
  · next b cont =>
    refine .bind finds_pushFrame.clears fun _ r₀ =>
      .bind (clears_openBody hone b live r₀) fun x r₁ =>
      .bind (hone cont live r₁) fun _ r₂ => .bind finds_popFrame.clears fun _ r₃ =>
        .pure fun h₃ h₂ h₁ h₀ => ?_
    subst h₃ h₀
    exact ⟨h₂.1.trans h₁.1, fun hp => .loop hs (h₁.2 hp) (h₂.2 (h₁.1.trans hp))⟩
  · exact .pure (.of_sensing hs rfl (.refl r) fun _ => ⟨[], .nil⟩)
  · exact .pure (.of_sensing hs rfl (.refl r) fun _ => ⟨[], .nil⟩)
  · exact .pure (.of_sensing hs rfl (.refl r) fun _ => ⟨[], .nil⟩)
  · next v =>
    exact .bind (hexpr v r) fun t r₁ =>
      .pure fun h => .of_sensing hs rfl h.1 fun hp => ⟨[t], .cons (h.2 hp) .nil⟩
  · exact .bind (P := fun _ _ => False) .report fun _ _ => .pure False.elim

theorem clears_statement (n : Nat) (i : NodeId) (live : Bool) (r : Resolver) :
    Clears (statement c n i live) r fun _ => PartDone c r (.one i) := by
  induction n generalizing i live r with
  | zero =>
    unfold statement
    exact .bind (P := fun _ _ => False) .refuse fun _ _ => .pure False.elim
  | succ n ih =>
    unfold statement
    split
    · next h0 =>
      subst h0
      exact .pure ⟨rfl, fun _ => .absent⟩
    refine .get ?_
    refine .bind (finds_enter i).clears fun _ r₁ => .bind (finds_setStmt i live).clears fun _ r₂ =>
      .bind (clears_inside ih i live r₂) fun b r₃ => ?_
    refine .bind (finds_setBehaviors i b).clears fun _ r₄ =>
      .bind (finds_enter r.stmt).clears fun _ r₅ => .pure fun h₅ h₄ h₃ h₂ h₁ => ?_
    exact .around h₁ (.around h₂ h₃ h₄) h₅

end Statements

section Modules

variable {c : Scene} {r : Resolver}

/-- The levels that there are between declarations of the module: none, with nothing pending. -/
def AtModule (r : Resolver) : Prop := r.pending = [] ∧ r.frames = []

theorem clears_declaration (d : NodeId) (hf : c.arena.function? d = none) (r : Resolver) :
    Clears (declaration c d) r fun _ r' =>
      AtModule r → AtModule r' ∧
      Introducing c.arena c.module Anything d r.facts.table r'.facts.table := by
  have htype : (c.arena.shape? d).any Shape.isTypeDecl = true →
      Clears (do let _ ← typeDecl c c.fuel d) r fun _ r' =>
      AtModule r → AtModule r' ∧
        Introducing c.arena c.module Anything d r.facts.table r'.facts.table := by
    intro hd
    refine .bind ((clears_types c.fuel).2 d r hd) fun t r₁ => .pure fun h hr => ?_
    refine ⟨⟨h.1.pending.trans hr.1, h.1.frames.trans hr.2⟩, .type (t := t) hd ?_⟩
    rw [← hr.1]
    exact h.2
  unfold declaration
  split
  · next h => exact htype (by simp [h, Shape.isTypeDecl])
  · next h => exact htype (by simp [h, Shape.isTypeDecl])
  · next v hv =>
    have hv' : c.arena.asVariable? d = some v := by simp [Arena.asVariable?, hv, Shape.asVariable?]
    refine .get ?_
    split
    · next h =>
      obtain ⟨n, hn⟩ :=
        Option.isSome_iff_exists.1 ((Std.TreeMap.contains_eq_isSome_getElem? ..).symm.trans h)
      exact .pure fun hr => ⟨hr, .known hv' hn⟩
    · next h =>
      have hnone : r.facts.table.latest d = none := by
        rw [Std.TreeMap.contains_eq_isSome_getElem?] at h
        exact Option.not_isSome_iff_eq_none.1 h
      refine .bind ((clears_expressions c.fuel).2.2 d v .global r) fun _ r₁ => .pure fun h hr => ?_
      obtain ⟨t₀, t, T₁, T₂, hinit, hval, -, htable⟩ := h.2.2 hr.1
      have hframes := h.2.1
      rw [declareAs, if_pos rfl] at hframes
      rw [hr.2] at hinit hframes
      refine ⟨⟨h.1.trans hr.1, (Option.some.inj hframes).symm⟩, ?_⟩
      rw [htable]
      exact .value hv' hnone hinit hval
  · next h₁ h₂ h₃ =>
    refine .pure fun hr => ⟨hr, ?_⟩
    cases hx : c.arena.shape? d with
    | none => exact .other (by simp [hx]) (by simp [Arena.asVariable?, hx])
    | some x =>
      cases x with
      | decl x =>
        cases x with
        | struct s ms as => exact absurd hx (h₁ s ms as)
        | typeAlias s ty => exact absurd hx (h₂ s ty)
        | value v => exact absurd hx (h₃ v)
        | function f => simp [Arena.function?, hx, Shape.function?] at hf
      | _ => exact .other (by simp [hx, Shape.isTypeDecl]) (by
          simp [Arena.asVariable?, hx, Shape.asVariable?])

theorem clears_signature (d : NodeId) {f : FunctionShape Symbol NodeId}
    (hf : c.arena.function? d = some f) (r : Resolver) :
    Clears (signature c d f) r fun _ r' =>
      AtModule r → AtModule r' ∧ Heading c.arena c.module d r.facts.table r'.facts.table := by
  unfold signature
  dsimp only
  have hset : ∀ (r : Resolver) (t : Option Ty), Clears (updateFunction d fun g => { g with
      returnType := t
      stage := stageOf c.arena f.attributes
      workgroup := workgroupOf c.arena f.attributes }) r fun _ r' => Steady r r' ∧
        ((r.facts.table.results d).isSome → r'.facts.table = r.facts.table.setResult d t) := by
    intro r t
    refine (finds_setResult ?_ d).clears
    exact fun _ => rfl
  refine .bind (finds_newFunction d _).clears fun _ r₁ => ?_
  split
  · next hret =>
    refine .bind ((clears_types c.fuel).1 f.returnType r₁) fun t r₂ =>
      (hset r₂ t).mono fun _ r₃ h₃ h₂ h₁ hr => ?_
    have hp : r₁.pending = [] := h₁.1.pending.trans hr.1
    refine ⟨⟨h₃.1.pending.trans (h₂.1.pending.trans hp), ?_⟩, ?_⟩
    · rw [h₃.1.frames, h₂.1.frames, h₁.1.frames, hr.2]
    have htyping := h₂.2
    rw [hp, h₁.2] at htyping
    rw [h₃.2 (by rw [htyping.beyond.results]; simp [Table.setResult])]
    exact .typed hf hret htyping
  · next hret =>
    refine .bind (P := fun t r₂ => t = some .void ∧ r₂ = r₁) (.pure ⟨rfl, rfl⟩) fun t r₂ => ?_
    refine (hset r₂ t).mono fun _ r₃ h₃ h₂ h₁ hr => ?_
    obtain ⟨rfl, rfl⟩ := h₂
    refine ⟨⟨h₃.1.pending.trans (h₁.1.pending.trans hr.1),
      h₃.1.frames.trans (h₁.1.frames.trans hr.2)⟩, ?_⟩
    rw [h₃.2 (by rw [h₁.2]; simp [Table.setResult]), h₁.2]
    have hsame : (r.facts.table.setResult d (some .void)).setResult d (some .void) =
        r.facts.table.setResult d (some .void) := by
      simp [Table.setResult]
    rw [hsame]
    exact .void hf (by simpa using hret)

theorem clears_parameter (fn d : NodeId) (r : Resolver) : Clears (parameter c fn d) r fun _ r' =>
    r'.pending = r.pending ∧
    (r.pending = [] → ∃ v, c.arena.asVariable? d = some v ∧ v.kind = .parameter ∧
      Declaring c.arena c.module Anything d v r.frames r.facts.table r'.frames r'.facts.table) := by
  unfold parameter
  split
  · next v hv =>
    split
    · next hkind =>
      refine .bind ((clears_expressions c.fuel).2.2 d v .parameter r) fun made r₁ => ?_
      refine (finds_updateFunction ?_ fn).clears.mono fun _ r₂ h₂ h₁ =>
        ⟨h₂.1.pending.trans h₁.1, fun hp => ⟨v, hv, hkind, ?_⟩⟩
      · exact fun _ => rfl
      obtain ⟨t₀, t, T₁, T₂, hinit, hval, -, htable⟩ := h₁.2.2 hp
      have hframes := h₁.2.1
      rw [declareAs, if_neg (by decide)] at hframes
      rw [h₂.2, h₂.1.frames, htable]
      exact .intro hinit hval hframes
    · exact .report
  · exact .report

theorem clears_parameters (fn : NodeId) (ds : List NodeId) (r : Resolver) :
    Clears (ds.forM (parameter c fn)) r fun _ r' => r'.pending = r.pending ∧ (r.pending = [] →
      Parameters c.arena c.module Anything ds r.frames r.facts.table r'.frames r'.facts.table) := by
  induction ds generalizing r with
  | nil => exact .pure ⟨rfl, fun _ => .nil⟩
  | cons d ds ih =>
    refine .bind (clears_parameter fn d r) fun _ r₁ => (ih r₁).mono fun _ r₂ h₂ h₁ =>
      ⟨h₂.1.trans h₁.1, fun hp => ?_⟩
    obtain ⟨v, hv, hkind, hdecl⟩ := h₁.2 hp
    exact .cons hv hkind hdecl (h₂.2 (h₁.1.trans hp))

theorem clears_body (d : NodeId) {f : FunctionShape Symbol NodeId}
    (hf : c.arena.function? d = some f) (r : Resolver) :
    Clears (body c d f) r fun _ r' =>
      AtModule r → AtModule r' ∧
      Containing c.arena c.module Anything d r.facts.table r'.facts.table := by
  unfold body
  refine .bind (finds_openFunction d).clears fun _ r₁ =>
    .bind (clears_parameters d f.params r₁) fun _ r₂ =>
    .bind (clears_statement c.fuel f.body true r₂) fun b r₃ => ?_
  refine .bind (P := fun _ r₄ => Steady r₃ r₄ ∧ r₄.facts.table = r₃.facts.table)
    (finds_updateFunction ?_ d).clears fun _ r₄ => ?_
  · exact fun _ => rfl
  refine .modify rfl fun h₄ h₃ h₂ h₁ hr => ?_
  have hp : r₁.pending = [] := h₁.1.trans hr.1
  have hp₂ := h₂.1.trans hp
  refine ⟨⟨h₄.1.pending.trans (h₃.1.trans hp₂), rfl⟩, ?_⟩
  have hparams := h₂.2 hp
  rw [h₁.2.1, h₁.2.2] at hparams
  have hbody := h₃.2 hp₂
  rw [← h₄.2] at hbody
  exact .function hf hparams hbody

/-- A loop over the declarations takes the tables along. -/
theorem clears_each {one : NodeId → PUnit → Resolve (ForInStep PUnit)}
    {S : NodeId → Table → Table → Prop}
    (hone : ∀ d r, Clears (one d ⟨⟩) r fun o r' => o = .yield ⟨⟩ ∧ (AtModule r → AtModule r' ∧
      S d r.facts.table r'.facts.table)) (ds : List NodeId) (r : Resolver) :
    Clears (forIn ds PUnit.unit one) r fun _ r' =>
      AtModule r → AtModule r' ∧ Along S ds r.facts.table r'.facts.table := by
  induction ds generalizing r with
  | nil => exact .pure fun hr => ⟨hr, .nil⟩
  | cons d ds ih =>
    rw [List.forIn_cons]
    refine .bind (hone d r) fun o r₁ => ?_
    cases o with
    | done _ => exact .pure fun h => by cases h.1
    | yield u =>
      refine (ih r₁).mono fun _ r₂ h₂ h₁ hr => ?_
      obtain ⟨hr₁, hd⟩ := h₁.2 hr
      obtain ⟨hr₂, hds⟩ := h₂ hr₁
      exact ⟨hr₂, .cons hd hds⟩

theorem clears_module (gs : List NodeId) (r : Resolver) :
    Clears (module c gs) r fun _ r' => AtModule r → ∃ T₁ T₂,
    Along (Introducing c.arena c.module Anything) gs r.facts.table T₁ ∧
    Along (Heading c.arena c.module) gs T₁ T₂ ∧
      Along (Containing c.arena c.module Anything) gs T₂ r'.facts.table := by
  unfold module
  refine .bind (clears_each (S := Introducing c.arena c.module Anything) (fun d r => ?_) gs r)
    fun _ r₁ => ?_
  · split
    · next hf =>
      have hf : c.arena.function? d = none := by simpa using hf
      exact .bind (clears_declaration d hf r) fun _ r' => .pure fun h => ⟨rfl, h⟩
    · next hf =>
      refine .pure ⟨rfl, fun hr => ⟨hr, .other ?_ ?_⟩⟩
      all_goals
        obtain ⟨f, hf⟩ := Option.ne_none_iff_exists'.1 (by simpa using hf)
        obtain ⟨x, hx, hxf⟩ := Option.bind_eq_some_iff.1 hf
        cases x with
        | decl x =>
          cases x with
          | function f => simp [Arena.asVariable?, hx, Shape.isTypeDecl, Shape.asVariable?]
          | _ => cases hxf
        | _ => cases hxf
  refine .bind (clears_each (S := Heading c.arena c.module) (fun d r => ?_) gs r₁) fun _ r₂ => ?_
  · split
    · next f hf => exact .bind (clears_signature d hf r) fun _ r' => .pure fun h => ⟨rfl, h⟩
    · next hf => exact .pure ⟨rfl,
        fun hr => ⟨hr, .other (by simpa [Option.eq_none_iff_forall_ne_some] using hf)⟩⟩
  refine .bind (clears_each (S := Containing c.arena c.module Anything) (fun d r => ?_) gs r₂)
    fun _ r₃ => ?_
  · split
    · next f hf => exact .bind (clears_body d hf r) fun _ r' => .pure fun h => ⟨rfl, h⟩
    · next hf => exact .pure ⟨rfl,
        fun hr => ⟨hr, .other (by simpa [Option.eq_none_iff_forall_ne_some] using hf)⟩⟩
  refine .mapFacts fun h₃ h₂ h₁ hr => ?_
  obtain ⟨hr₁, hintro⟩ := h₁ hr
  obtain ⟨hr₂, hhead⟩ := h₂ hr₁
  obtain ⟨-, hbody⟩ := h₃ hr₂
  rw [← Facts.table_summarize r₃.facts gs] at hbody
  exact ⟨_, _, hintro, hhead, hbody⟩

/-- Taking in names leaves no complaints, or problems. -/
theorem collect_clean (a : Arena) (gs : List NodeId) (x : Frame × Diagnostics)
    (hx : x.2 = [] ∨ x.2.hasErrors = true) :
    (gs.foldl (collect a) x).2 = [] ∨ (gs.foldl (collect a) x).2.hasErrors = true := by
  induction gs generalizing x with
  | nil => exact hx
  | cons g gs ih =>
    refine ih _ ?_
    have hbad : ∀ d : Diagnostic, d.isError = true → Diagnostics.hasErrors (x.2 ++ [d]) = true :=
      fun d hd => by
      simp [Diagnostics.hasErrors, hd]
    unfold collect
    dsimp only
    split
    · exact .inr (hbad _ rfl)
    · split
      · exact .inr (hbad _ rfl)
      · exact hx

end Modules

end ShaderLoom.Resolve

namespace ShaderLoom

/-- A valid program is well typed. -/
theorem Program.wellTyped_build {b : Builder} (h : b.build.valid = true) :
    WellTyped b.build.toArena Anything b.build.globals b.build.scene.module
    b.build.facts.table := by
  obtain ⟨hb, hclean⟩ := noErrors_of_valid h
  obtain ⟨hgrow, hdone⟩ :=
    (Resolve.clears_module (c := b.build.scene) b.build.globals b.build.unresolved).run
  have hclean' : ¬ Resolve.Spoiled b.build.outcome := by simp [Resolve.Spoiled, hclean]
  constructor
  · refine Prod.ext rfl ?_
    rcases Resolve.collect_clean b.build.toArena b.build.globals ([], []) (.inl rfl) with h | h
    · exact h
    · exact absurd (hgrow h) hclean'
  · rw [(outcome_build hb).1]
    exact hdone hclean' ⟨rfl, rfl⟩

end ShaderLoom
