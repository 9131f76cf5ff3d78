import ShaderLoom.Proofs.Meaning.Recorded

/-! The small steps in which resolution goes through a program, whether it finds problems or not. A
step says what it records, and of which node: in which statement and in which function the node
stands, and that nothing was recorded of it before. The expressions that were met and are still to
be settled are kept beside the state. -/
namespace ShaderLoom

/-- No expression leads back to itself, through initializers of variables of the module. -/
def Program.Founded (p : Program) : Prop :=
  ∀ e, p.inTree e = true → ¬ Relation.TransGen (Leads p.toArena p.scene.module) e e

/-- A function that the module declares. -/
def Program.IsFunction (p : Program) (g : NodeId) : Prop :=
  g ∈ p.globals ∧ (p.function? g).isSome = true

/-- What is known of the type of an expression, if there is one. -/
def Facts.sees (f : Facts) (e : NodeId) : Option Ty :=
  if e = 0 then none else (f.exprs[e]?).bind (·.type)

namespace Resolver

/-- The state with an entry for an expression. -/
def note (r : Resolver) (e : NodeId) (x : ExprFacts) : Resolver :=
  { r with facts := { r.facts with exprs := r.facts.exprs.insert e x } }

/-- The state after an expression was taken out of the record again. -/
def mistake (r : Resolver) (e : NodeId) (x : ExprFacts) : Resolver :=
  { r with facts := { r.facts with exprs := (r.facts.exprs.insert e x).erase e } }

/-- The state with one more user of a variable. -/
def addUser (r : Resolver) (n : VariableId) (e : NodeId) : Resolver :=
  { r with
    facts := { r.facts with
      vars := r.facts.vars.modify n fun v => { v with users := v.users ++ [e] } } }

/-- The state once the current function is known to use a variable of the module. -/
def noteGlobal (r : Resolver) (n : VariableId) : Resolver :=
  match r.function with
  | none => r
  | some fn =>
    if r.seenGlobals.contains n then r
    else { r with
      seenGlobals := n :: r.seenGlobals
      facts := { r.facts with
        functions := r.facts.functions.modify fn fun f =>
          { f with directGlobals := f.directGlobals ++ [n] } } }

/-- The state once the current function is known to call another. -/
def noteCallee (r : Resolver) (g : NodeId) : Resolver :=
  match r.function with
  | none => r
  | some fn =>
    if r.seenCallees.contains g then r
    else { r with
      seenCallees := g :: r.seenCallees
      facts := { r.facts with
        functions := r.facts.functions.modify fn fun f => { f with callees := f.callees ++ [g] } } }

/-- The state once an identifier is known to be a variable. -/
def useVariable (r : Resolver) (e stmt : NodeId) (n : VariableId) (v : VariableFacts) : Resolver :=
  let r := (r.note e { stmt, variableId := some n, type := v.type }).addUser n e
  if v.scope = .global then r.noteGlobal n else r

/-- The state with one more variable. -/
def make (r : Resolver) (v : VariableFacts) : Resolver := { r with facts := r.facts.addVariable v }

/-- The state with an entry for a statement. -/
def enter (r : Resolver) (i : NodeId) (reachable : Bool) : Resolver :=
  { r with
    facts := { r.facts with
      stmts := r.facts.stmts.insert i { function := r.function, reachable } } }

/-- The state with an entry for a function. -/
def head (r : Resolver) (f : FunctionFacts) : Resolver :=
  { r with facts := { r.facts with functions := r.facts.functions.insert f.decl f } }

end Resolver

namespace Resolve

/-- What the facts of a function say of variables and other functions. -/
def links (x : FunctionFacts) : List VariableId × List NodeId × List VariableId × List NodeId :=
  (x.directGlobals, x.callees, x.transitiveGlobals, x.ancestors)

/-- The same for a node, if it is a function's. -/
def linksOf (f : Facts) (g : NodeId) :
    Option (List VariableId × List NodeId × List VariableId × List NodeId) :=
  (f.functions[g]?).map links

/-- What the facts say of the function around a statement. -/
def aroundOf (f : Facts) (i : NodeId) : Option (Option NodeId) := (f.stmts[i]?).map (·.function)

/-- Nothing is new about expressions, variables and calls, nor about where statements stand. -/
structure Calm (r r' : Resolver) : Prop where
  exprs : r'.facts.exprs = r.facts.exprs
  vars : r'.facts.vars = r.facts.vars
  links : linksOf r'.facts = linksOf r.facts
  around : aroundOf r'.facts = aroundOf r.facts
  function : r'.function = r.function
  seenGlobals : r'.seenGlobals = r.seenGlobals
  seenCallees : r'.seenCallees = r.seenCallees

/-- Nothing is new but types and problems. -/
structure Idle (r r' : Resolver) : Prop extends Calm r r' where
  latest : r'.facts.latest = r.facts.latest
  frames : r'.frames = r.frames
  stmt : r'.stmt = r.stmt

theorem Calm.refl (r : Resolver) : Calm r r := ⟨rfl, rfl, rfl, rfl, rfl, rfl, rfl⟩

theorem Calm.trans {r r₁ r₂ : Resolver} (h : Calm r r₁) (h' : Calm r₁ r₂) : Calm r r₂ :=
  ⟨h'.exprs.trans h.exprs, h'.vars.trans h.vars, h'.links.trans h.links, h'.around.trans h.around,
    h'.function.trans h.function, h'.seenGlobals.trans h.seenGlobals,
    h'.seenCallees.trans h.seenCallees⟩

theorem Idle.refl (r : Resolver) : Idle r r := ⟨.refl r, rfl, rfl, rfl⟩

theorem Idle.trans {r r₁ r₂ : Resolver} (h : Idle r r₁) (h' : Idle r₁ r₂) : Idle r r₂ :=
  ⟨h.toCalm.trans h'.toCalm, h'.latest.trans h.latest, h'.frames.trans h.frames,
    h'.stmt.trans h.stmt⟩

theorem Calm.sees {r r' : Resolver} (h : Calm r r') : r'.facts.sees = r.facts.sees := by
  funext e
  simp only [Facts.sees, h.exprs]

theorem TypeTouch.idle {r r' : Resolver} (h : TypeTouch r r') : Idle r r' := by
  cases h <;> exact ⟨⟨rfl, rfl, rfl, rfl, rfl, rfl, rfl⟩, rfl, rfl, rfl⟩

theorem Moves.idle {α : Type} {step : Resolve α} (h : Moves TypeTouch step) (r : Resolver) :
    Ends step r fun _ r' => Idle r r' :=
  (h r).mono fun _ r' hr => by
    induction hr with
    | refl => exact .refl r
    | tail _ ht ih => exact ih.trans ht.idle

end Resolve

open Resolve

namespace Program

/-- Where expressions are met once: inside functions, and everywhere in a founded module. -/
def Once (p : Program) (r : Resolver) : Prop := p.Founded ∨ r.function.isSome = true

/-- Every expression of the tree that the node is an operand of is among those still to be
settled. -/
def Hosted (p : Program) (o : List NodeId) (e : NodeId) : Prop :=
  ∀ j x, p.inTree j = true → p.shape? j = some (.expr x) → e ∈ x.operands → j ∈ o

/-- An expression of the tree, in the function that the state is in. -/
structure At (p : Program) (o : List NodeId) (r : Resolver) (e : NodeId)
    (x : ExprShape Symbol NodeId) : Prop where
  inTree : p.inTree e = true
  shape : p.shape? e = some (.expr x)
  function : r.function.getD 0 = p.functionOf e
  hosted : p.Hosted o e

/-- The expression was met, and nothing but its statement is recorded of it. -/
def Blank (p : Program) (r : Resolver) (e : NodeId) : Prop :=
  p.Once r → r.facts.exprs[e]? = some { stmt := p.statementOf e }

/-- One step. The first of the expressions still to be settled is the one that is settled next. -/
inductive Advance (p : Program) : List NodeId × Resolver → List NodeId × Resolver → Prop
  | calm {o r r'} : Calm r r' → Advance p (o, r) (o, r')
  | made {o r} (v : VariableFacts) : v.users = [] → Advance p (o, r) (o, r.make v)
  | mistaken {o r e} (x : ExprFacts) : (∀ y, p.shape? e ≠ some (.expr y)) →
    Advance p (o, r) (o, r.mistake e x)
  | met {o r e x} : p.At o r e x → (p.Once r → r.facts.exprs[e]? = none) →
    Advance p (o, r) (e :: o, r.note e { stmt := p.statementOf e })
  | left {o r e x} : p.At o r e x → (∀ op l k, x ≠ .binary op l k) → Advance p (e :: o, r) (o, r)
  | found {o r e x} (y : ExprFacts) : p.At o r e x → p.Blank r e → y.stmt = p.statementOf e →
    y.variableId = none →
    y.target = none →
    (∀ op l k, x = .binary op l k → p.Once r →
      y.type = binaryType op (r.facts.sees l) (r.facts.sees k)) →
    Advance p (e :: o, r) (o, r.note e y)
  | used {o r e s n v} : p.At o r e (.ident s) → p.Blank r e → r.facts.vars[n]? = some v →
    Advance p (e :: o, r) (o, r.useVariable e (p.statementOf e) n v)
  | called {o r e g args d} (t : Option Ty) : p.At o r e (.call g args) → p.Blank r e →
    (r.facts.functions[d]?).isSome = true →
    Advance p (e :: o, r)
    (o, (r.note e { stmt := p.statementOf e, target := some d, type := t }).noteCallee d)
  | entered {o r i} (reachable : Bool) :
    (p.function? i = none → r.function = some (p.functionOf i)) →
    Advance p (o, r) (o, r.enter i reachable)
  | headed {o r} (f : FunctionFacts) : p.IsFunction f.decl → r.facts.functions[f.decl]? = none →
    links f = ([], [], [], []) → Advance p (o, r) (o, r.head f)
  | opened {o r f frames} : f ≠ 0 → (r.facts.functions[f]?).isSome →
    (∀ e, (r.facts.exprs[e]?).isSome → p.functionOf e ≠ f) →
    Advance p (o, r)
    (o, { r with function := some f, seenGlobals := [], seenCallees := [], frames })
  | closed {o r frames} : Advance p (o, r) (o, { r with function := none, frames })

/-- A course of steps. -/
abbrev Course (p : Program) : List NodeId × Resolver → List NodeId × Resolver → Prop :=
  Relation.ReflTransGen p.Advance

end Program

namespace Resolve

/-- Nothing is new but the entry of an expression, users and calls. -/
structure Alone (e : NodeId) (r r' : Resolver) : Prop where
  others : ∀ j, j ≠ e → r'.facts.exprs[j]? = r.facts.exprs[j]?
  latest : r'.facts.latest = r.facts.latest
  function : r'.function = r.function
  frames : r'.frames = r.frames
  stmt : r'.stmt = r.stmt

theorem Alone.refl (e : NodeId) (r : Resolver) : Alone e r r := ⟨fun _ _ => rfl, rfl, rfl, rfl, rfl⟩

theorem Alone.trans {e : NodeId} {r r₁ r₂ : Resolver} (h : Alone e r r₁) (h' : Alone e r₁ r₂) :
    Alone e r r₂ :=
  ⟨fun j hj => (h'.others j hj).trans (h.others j hj), h'.latest.trans h.latest,
    h'.function.trans h.function, h'.frames.trans h.frames, h'.stmt.trans h.stmt⟩

theorem Idle.alone {r r' : Resolver} (h : Idle r r') (e : NodeId) : Alone e r r' :=
  ⟨fun j _ => by rw [h.exprs], h.latest, h.function, h.frames, h.stmt⟩

theorem alone_note (r : Resolver) (e : NodeId) (x : ExprFacts) : Alone e r (r.note e x) :=
  ⟨fun j hj => by simp [Resolver.note, Std.TreeMap.getElem?_insert, Ne.symm hj], rfl, rfl, rfl, rfl⟩

theorem alone_mistake (r : Resolver) (e : NodeId) (x : ExprFacts) : Alone e r (r.mistake e x) :=
  ⟨fun j hj => by simp [Resolver.mistake, Std.TreeMap.getElem?_erase,
    Std.TreeMap.getElem?_insert, Ne.symm hj], rfl, rfl, rfl, rfl⟩

theorem noteGlobal_eq (r : Resolver) (n : VariableId) : ∃ functions seenGlobals,
    r.noteGlobal n = { r with facts := { r.facts with functions }, seenGlobals } := by
  unfold Resolver.noteGlobal
  split
  · exact ⟨_, _, rfl⟩
  · split <;> exact ⟨_, _, rfl⟩

theorem noteCallee_eq (r : Resolver) (g : NodeId) : ∃ functions seenCallees,
    r.noteCallee g = { r with facts := { r.facts with functions }, seenCallees } := by
  unfold Resolver.noteCallee
  split
  · exact ⟨_, _, rfl⟩
  · split <;> exact ⟨_, _, rfl⟩

theorem alone_noteCallee (r : Resolver) (g e : NodeId) : Alone e r (r.noteCallee g) := by
  obtain ⟨functions, seenCallees, h⟩ := noteCallee_eq r g
  rw [h]
  exact ⟨fun _ _ => rfl, rfl, rfl, rfl, rfl⟩

theorem exprs_noteCallee (r : Resolver) (g : NodeId) :
    (r.noteCallee g).facts.exprs = r.facts.exprs := by
  obtain ⟨functions, seenCallees, h⟩ := noteCallee_eq r g
  rw [h]

theorem useVariable_eq (r : Resolver) (e stmt : NodeId) (n : VariableId) (v : VariableFacts) :
    ∃ functions seenGlobals,
    r.useVariable e stmt n v = { r with
      facts := { r.facts with
        exprs := r.facts.exprs.insert e { stmt, variableId := some n, type := v.type }
        vars := r.facts.vars.modify n fun v => { v with users := v.users ++ [e] }
        functions }
      seenGlobals } := by
  unfold Resolver.useVariable
  dsimp only
  split
  · obtain ⟨functions, seenGlobals, h⟩ :=
      noteGlobal_eq ((r.note e { stmt, variableId := some n, type := v.type }).addUser n e) n
    exact ⟨functions, seenGlobals, h⟩
  · exact ⟨_, _, rfl⟩

theorem exprs_useVariable (r : Resolver) (e stmt : NodeId) (n : VariableId) (v : VariableFacts) :
    (r.useVariable e stmt n v).facts.exprs =
    r.facts.exprs.insert e { stmt, variableId := some n, type := v.type } := by
  obtain ⟨functions, seenGlobals, h⟩ := useVariable_eq r e stmt n v
  rw [h]

theorem alone_useVariable (r : Resolver) (e stmt : NodeId) (n : VariableId) (v : VariableFacts) :
    Alone e r (r.useVariable e stmt n v) := by
  obtain ⟨functions, seenGlobals, h⟩ := useVariable_eq r e stmt n v
  rw [h]
  exact ⟨(alone_note r e { stmt, variableId := some n, type := v.type }).others, rfl, rfl, rfl, rfl⟩

theorem ends_useGlobal (n : VariableId) (r : Resolver) :
    Ends (useGlobal n) r fun _ r' => r' = r.noteGlobal n := by
  unfold useGlobal
  refine .get ?_
  split
  · next fn hfn =>
    split
    · next hseen => exact .pure (by simp only [Resolver.noteGlobal, hfn, if_pos hseen])
    · next hseen =>
      refine .bind (.modify (.modify ?_))
      simp only [Resolver.noteGlobal, hfn, if_neg hseen]
  · next hfn =>
    have hnone : r.function = none := Option.eq_none_iff_forall_ne_some.2 hfn
    exact .pure (by simp only [Resolver.noteGlobal, hnone])

theorem ends_useCallee (g : NodeId) (r : Resolver) :
    Ends (useCallee g) r fun _ r' => r' = r.noteCallee g := by
  unfold useCallee
  refine .get ?_
  split
  · next fn hfn =>
    split
    · next hseen => exact .pure (by simp only [Resolver.noteCallee, hfn, if_pos hseen])
    · next hseen =>
      refine .bind (.modify (.modify ?_))
      simp only [Resolver.noteCallee, hfn, if_neg hseen]
  · next hfn =>
    have hnone : r.function = none := Option.eq_none_iff_forall_ne_some.2 hfn
    exact .pure (by simp only [Resolver.noteCallee, hnone])

theorem sees_note {r : Resolver} {e : NodeId} (h0 : e ≠ 0) (x : ExprFacts) :
    (r.note e x).facts.sees e = x.type := by
  simp [Facts.sees, h0, Resolver.note]

/-- How an expression is settled that was met: what is answered is what is recorded then. -/
structure Closes (p : Program) (o : List NodeId) (e : NodeId) (x : ExprShape Symbol NodeId)
    (r : Resolver) (t : Option Ty) (r' : Resolver) : Prop where
  course : p.At o r e x → p.Blank r e → p.Course (e :: o, r) (o, r')
  alone : Alone e r r'
  type : p.At o r e x → p.Blank r e → p.Once r → t = r'.facts.sees e

section Closes

variable {p : Program} {o : List NodeId} {e : NodeId} {x : ExprShape Symbol NodeId}
    {r r₁ r' : Resolver} {t : Option Ty}

theorem At.of_function (h : p.At o r e x) (hf : r'.function = r.function) : p.At o r' e x :=
  ⟨h.inTree, h.shape, by rw [hf, h.function], h.hosted⟩

theorem Closes.idle (hi : Idle r r₁) (h : Closes p o e x r₁ t r') : Closes p o e x r t r' := by
  have honce : p.Once r₁ ↔ p.Once r := by simp only [Program.Once, hi.function]
  have hblank : p.Blank r e → p.Blank r₁ e := fun hb ho => by rw [hi.exprs]; exact hb (honce.1 ho)
  have hat : p.At o r e x → p.At o r₁ e x := fun ha => At.of_function ha hi.function
  exact ⟨fun ha hb => .head (.calm hi.toCalm) (h.course (hat ha) (hblank hb)),
    (hi.alone e).trans h.alone, fun ha hb ho => h.type (hat ha) (hblank hb) (honce.2 ho)⟩

/-- Whatever is left as it was met has no type. -/
theorem Closes.left (hx : ∀ op l k, x ≠ .binary op l k) (r : Resolver) :
    Closes p o e x r none r where
  course ha _ := .single (.left ha hx)
  alone := .refl e r
  type ha hb ho := by simp [Facts.sees, hb ho]

theorem closes_refuse (c : Scene) (hx : ∀ op l k, x ≠ .binary op l k) (i : NodeId)
    (message : String) (r : Resolver) : Ends (refuse c i message) r (Closes p o e x r) := by
  refine .bind (.modify (.pure (Closes.idle ?_ (.left hx _))))
  exact ⟨⟨rfl, rfl, rfl, rfl, rfl, rfl, rfl⟩, rfl, rfl, rfl⟩

theorem closes_finish {y : ExprFacts} (hs : y.stmt = p.statementOf e) (hv : y.variableId = none)
    (ht : y.target = none)
    (hx : ∀ op l k, x = .binary op l k → p.Once r →
      y.type = binaryType op (r.facts.sees l) (r.facts.sees k)) :
    Ends (finish e y) r (Closes p o e x r) := by
  refine .bind (.modify (.pure ⟨fun ha hb => .single (.found y ha hb hs hv ht hx), alone_note r e y,
    fun ha _ _ => ?_⟩))
  exact (sees_note (Arena.ne_zero_of_shape ha.shape) y).symm

theorem closes_useVariable (s : Symbol) (n : VariableId) (r : Resolver) :
    Ends (useVariable e { stmt := p.statementOf e } n) r (Closes p o e (.ident s) r) := by
  unfold useVariable
  refine .get ?_
  cases hv : r.facts.vars[n]? with
  | none => exact .pure (.left (fun _ _ _ h => by cases h) r)
  | some v =>
    have hend : Closes p o e (.ident s) r v.type (r.useVariable e (p.statementOf e) n v) :=
      ⟨fun ha hb => .single (.used ha hb hv), alone_useVariable r e _ n v, fun ha _ _ => by
        simp [Facts.sees, Arena.ne_zero_of_shape ha.shape, exprs_useVariable]⟩
    unfold Resolver.useVariable at hend
    refine .bind (.modify (.bind (.modify ?_)))
    split
    · next hg =>
      rw [if_pos hg] at hend
      refine .bind ((ends_useGlobal n _).mono fun _ r' h => ?_)
      subst h
      exact .pure hend
    · next hg =>
      rw [if_neg hg] at hend
      exact .pure hend

theorem closes_callBuiltin (c : Scene) (hx : ∀ op l k, x ≠ .binary op l k) (name : String)
    (ts : List (Option Ty)) (r : Resolver) :
    Ends (callBuiltin c e { stmt := p.statementOf e } name ts) r (Closes p o e x r) := by
  unfold callBuiltin
  split
  · exact closes_finish rfl rfl rfl fun op l k h => absurd h (hx op l k)
  · exact closes_refuse c hx e _ r

theorem closes_callTarget (c : Scene) (g : NodeId) (args : List NodeId) (ts : List (Option Ty))
    (r : Resolver) :
    Ends (callTarget c e { stmt := p.statementOf e } g ts) r (Closes p o e (.call g args) r) := by
  have hx : ∀ op l k, (ExprShape.call g args : ExprShape Symbol NodeId) ≠ .binary op l k :=
    fun _ _ _ h => by cases h
  have htyped : ∀ {step : Resolve (Option Ty)}, Moves TypeTouch step →
      Ends (step >>= fun t => finish e { stmt := p.statementOf e, type := t }) r
      (Closes p o e (.call g args) r) :=
    fun hstep => .bind ((hstep.idle r).mono fun t r₁ h₁ =>
      (closes_finish rfl rfl rfl fun op l k h => absurd h (hx op l k)).mono fun _ _ h => .idle h₁ h)
  unfold callTarget
  split
  · exact htyped ((typeTouch_types c c.fuel).1 _)
  · split
    · exact closes_callBuiltin c hx _ ts r
    · next d _ =>
      split
      · unfold callFunction
        refine .get ?_
        split
        · exact closes_refuse c hx e _ r
        · next f hf =>
          refine .bind
            (.bind (.modify (.pure (.bind ((ends_useCallee d _).mono fun _ r' h => ?_)))))
          subst h
          refine .pure ⟨fun ha hb => .single (.called f.returnType ha hb (by simp [hf])),
            (alone_note r e _).trans (alone_noteCallee _ d e), fun ha _ _ => ?_⟩
          have h := sees_note (r := r) (Arena.ne_zero_of_shape ha.shape)
            { stmt := p.statementOf e, target := some d, type := f.returnType }
          unfold Facts.sees at h ⊢
          rw [exprs_noteCallee]
          exact h.symm
      · exact htyped ((typeTouch_types c c.fuel).2 _)
      · exact htyped ((typeTouch_types c c.fuel).2 _)
      · exact closes_callBuiltin c hx _ ts r
  · exact closes_refuse c hx e _ r

end Closes

end Resolve
end ShaderLoom
