import ShaderLoom.Proofs.Meaning.CallGraph
import ShaderLoom.Proofs.Meaning.Context

/-! The edges of the call graph. While a function is resolved, each of its identifiers that is a
variable of the module, and each of its calls of a function, is entered once into what is known of
the function. So the lists that summaries go by are what the expressions of the function were found
to be. -/
namespace ShaderLoom

open Resolve

/-- The function that an expression was found to call. -/
def Facts.targetOf (f : Facts) (e : NodeId) : Option NodeId := (f.exprs[e]?).bind (·.target)

/-- A variable of the module. -/
def Facts.IsGlobal (f : Facts) (n : VariableId) : Prop :=
  ∃ v, f.vars[n]? = some v ∧ v.scope = .global

/-- Lists of what functions use, by what is told of the uses. The list of the current function is
known by heart. -/
structure Tallies {α : Type} (lists : NodeId → List α) (seen : List α) (function : Option NodeId)
    (uses : NodeId → α → Prop) : Prop where
  told : ∀ g, g ≠ 0 → ∀ a, a ∈ lists g ↔ uses g a
  current : ∀ g, function = some g → ∀ a, a ∈ seen ↔ a ∈ lists g

namespace Tallies

variable {α : Type} {lists lists' : NodeId → List α} {seen seen' : List α}
    {function : Option NodeId}
  {uses uses' : NodeId → α → Prop}

theorem congr (h : Tallies lists seen function uses)
    (huses : ∀ g, g ≠ 0 → ∀ a, uses' g a ↔ uses g a) : Tallies lists seen function uses' :=
  ⟨fun g hg a => (h.told g hg a).trans (huses g hg a).symm, h.current⟩

/-- Without a current function, nothing is known by heart. -/
theorem closed (h : Tallies lists seen function uses) : Tallies lists seen none uses :=
  ⟨h.told, nofun⟩

/-- The current function has one more use. -/
theorem add {g : NodeId} {a : α} [DecidableEq α] (h : Tallies lists seen (some g) uses)
    (hlists : ∀ k, lists' k = if k = g ∧ a ∉ seen then lists k ++ [a] else lists k)
    (hseen : ∀ b, b ∈ seen' ↔ b ∈ seen ∨ b = a)
    (huses : ∀ k, k ≠ 0 → ∀ b, uses' k b ↔ uses k b ∨ k = g ∧ b = a) :
    Tallies lists' seen' (some g) uses' := by
  have hmem : ∀ k b, b ∈ lists' k ↔ b ∈ lists k ∨ k = g ∧ b = a := by
    intro k b
    rw [hlists]
    split
    · next hk => simp [hk.1]
    · next hk =>
      refine ⟨.inl, fun hb => hb.elim id ?_⟩
      rintro ⟨rfl, rfl⟩
      exact (h.current k rfl b).1 (by simpa using hk)
  refine ⟨fun k hk b => ?_, fun k hk b => ?_⟩
  · rw [hmem, huses k hk, h.told k hk]
  · cases hk
    rw [hmem, hseen, h.current g rfl]
    simp

end Tallies

namespace Resolve

variable {r : Resolver} {f f' : Facts} {fn : NodeId}

theorem directGlobalsOf_eq (f : Facts) (g : NodeId) :
    f.directGlobalsOf g = ((linksOf f g).map (·.1)).getD [] := by
  rw [Facts.directGlobalsOf, linksOf, Option.map_map]
  rfl

theorem calleesOf_eq (f : Facts) (g : NodeId) :
    f.calleesOf g = ((linksOf f g).map (·.2.1)).getD [] := by
  rw [Facts.calleesOf, linksOf, Option.map_map]
  rfl

theorem isSome_linksOf (f : Facts) (g : NodeId) : (linksOf f g).isSome = (f.functions[g]?).isSome :=
  Option.isSome_map ..

theorem directGlobalsOf_modify {k : FunctionFacts → FunctionFacts}
    (hk : ∀ x, (k x).directGlobals = x.directGlobals)
    (hf : f'.functions = f.functions.modify fn k) : f'.directGlobalsOf = f.directGlobalsOf := by
  funext g
  rw [Facts.directGlobalsOf, hf]
  exact congrArg (Option.getD · []) (view_modify (v := FunctionFacts.directGlobals) hk fn g)

theorem calleesOf_modify {k : FunctionFacts → FunctionFacts} (hk : ∀ x, (k x).callees = x.callees)
    (hf : f'.functions = f.functions.modify fn k) : f'.calleesOf = f.calleesOf := by
  funext g
  rw [Facts.calleesOf, hf]
  exact congrArg (Option.getD · []) (view_modify (v := FunctionFacts.callees) hk fn g)

/-- One list of a function that has facts is longer. -/
theorem list_modify {α : Type} {v : FunctionFacts → List α} {k : FunctionFacts → FunctionFacts}
    {a : α} {fs : NodeMap FunctionFacts} (hk : ∀ x, v (k x) = v x ++ [a])
    (hfn : (fs[fn]?).isSome = true) (g : NodeId) :
    (((fs.modify fn k)[g]?).map v).getD [] =
      if g = fn then ((fs[g]?).map v).getD [] ++ [a] else ((fs[g]?).map v).getD [] := by
  obtain ⟨x, hx⟩ := Option.isSome_iff_exists.1 hfn
  rw [Std.TreeMap.getElem?_modify]
  by_cases hg : fn = g
  · subst hg
    simp [hx, hk]
  · simp [hg, Ne.symm hg]

/-- One change at a function that has facts. -/
theorem linksOf_modify {k : FunctionFacts → FunctionFacts}
    (hf : f'.functions = f.functions.modify fn k) (g : NodeId) :
    linksOf f' g = if fn = g then (f.functions[g]?).map (links ∘ k) else linksOf f g := by
  rw [linksOf, linksOf, hf, Std.TreeMap.getElem?_modify]
  by_cases hg : fn = g
  · subst hg
    simp
  · simp [hg]

end Resolve

namespace Program

variable {p : Program} {r r' : Resolver} {o : List NodeId} {a b : List NodeId × Resolver}
    {e fn : NodeId}

/-- An identifier of a function was found to be a variable of the module. -/
def RefersIn (p : Program) (f : Facts) (g : NodeId) (n : VariableId) : Prop :=
  (∃ e, p.functionOf e = g ∧ f.variableIdOf e = some n) ∧ f.IsGlobal n

/-- An expression of a function was found to call another. -/
def CallsIn (p : Program) (f : Facts) (g d : NodeId) : Prop :=
  ∃ e, p.functionOf e = g ∧ f.targetOf e = some d

/-- What is known of functions is what is told of their uses, and nothing is summed up. -/
structure Ledger (p : Program) (r : Resolver) (refers : NodeId → VariableId → Prop)
    (calls : NodeId → NodeId → Prop) : Prop where
  globals : Tallies r.facts.directGlobalsOf r.seenGlobals r.function refers
  callees : Tallies r.facts.calleesOf r.seenCallees r.function calls
  current : ∀ g, r.function = some g → g ≠ 0 ∧ (r.facts.functions[g]?).isSome = true
  heads : ∀ g : NodeId, (r.facts.functions[g]?).isSome = true → p.IsFunction g
  plain : ∀ g l, linksOf r.facts g = some l → l.2.2 = ([], [])

/-- The uses are what expressions were found to be. -/
abbrev Linked (p : Program) (r : Resolver) : Prop :=
  p.Ledger r (p.RefersIn r.facts) (p.CallsIn r.facts)

namespace Ledger

variable {refers refers' : NodeId → VariableId → Prop} {calls calls' : NodeId → NodeId → Prop}

theorem congr (h : p.Ledger r refers calls) (hrefers : ∀ g, g ≠ 0 → ∀ n, refers' g n ↔ refers g n)
    (hcalls : ∀ g, g ≠ 0 → ∀ d, calls' g d ↔ calls g d) : p.Ledger r refers' calls' :=
  { h with globals := h.globals.congr hrefers, callees := h.callees.congr hcalls }

/-- Nothing is new about functions. -/
theorem same (h : p.Ledger r refers calls) (hlinks : linksOf r'.facts = linksOf r.facts)
    (hfunction : r'.function = r.function) (hglobals : r'.seenGlobals = r.seenGlobals)
    (hcallees : r'.seenCallees = r.seenCallees) : p.Ledger r' refers calls where
  globals := by
    have hlists : r'.facts.directGlobalsOf = r.facts.directGlobalsOf := by
      funext k
      rw [directGlobalsOf_eq, directGlobalsOf_eq, hlinks]
    rw [hlists, hglobals, hfunction]
    exact h.globals
  callees := by
    have hlists : r'.facts.calleesOf = r.facts.calleesOf := by
      funext k
      rw [calleesOf_eq, calleesOf_eq, hlinks]
    rw [hlists, hcallees, hfunction]
    exact h.callees
  current g := by
    rw [hfunction, ← isSome_linksOf, hlinks, isSome_linksOf]
    exact h.current g
  heads g := by
    rw [← isSome_linksOf, hlinks, isSome_linksOf]
    exact h.heads g
  plain := by
    rw [hlinks]
    exact h.plain

/-- A change at a function that has a head, which sums up nothing. -/
theorem modify (h : p.Ledger r refers calls) (hfn : r.function = some fn)
    {k : FunctionFacts → FunctionFacts} (hk : ∀ x, (links (k x)).2.2 = (links x).2.2)
    (hf : r'.facts.functions = r.facts.functions.modify fn k) (hfunction : r'.function = r.function)
    (hglobals : Tallies r'.facts.directGlobalsOf r'.seenGlobals (some fn) refers')
    (hcallees : Tallies r'.facts.calleesOf r'.seenCallees (some fn) calls') :
    p.Ledger r' refers' calls' := by
  have hsome : ∀ g : NodeId, (r'.facts.functions[g]?).isSome = (r.facts.functions[g]?).isSome :=
    fun g => by
    rw [hf, isSome_modify]
  refine ⟨by rwa [hfunction, hfn], by
    rwa [hfunction, hfn], fun g hg => ?_, fun g hg => h.heads g (hsome g ▸ hg), fun g l hl => ?_⟩
  · rw [hsome]
    exact h.current g (hfunction ▸ hg)
  · rw [linksOf_modify hf] at hl
    split at hl
    · next hg =>
      obtain ⟨x, hx, rfl⟩ := Option.map_eq_some_iff.1 hl
      exact (hk x).trans (h.plain g (links x) (by rw [linksOf, hx]; rfl))
    · exact h.plain g l hl

/-- The current function is told to use a variable of the module. -/
theorem noteGlobal (h : p.Ledger r refers calls) (hfn : r.function = some fn) {n : VariableId}
    (huses : ∀ g, g ≠ 0 → ∀ m, refers' g m ↔ refers g m ∨ g = fn ∧ m = n) :
    p.Ledger (r.noteGlobal n) refers' calls := by
  have hglobals := hfn ▸ h.globals
  by_cases hn : n ∈ r.seenGlobals
  · have hsame : r.noteGlobal n = r := by simp [Resolver.noteGlobal, hfn, hn]
    rw [hsame]
    exact { h with globals := hfn ▸ hglobals.add (by simp [hn]) (fun m =>
      (or_iff_left_of_imp (· ▸ hn)).symm) huses }
  · have hnew : r.noteGlobal n = { r with
        seenGlobals := n :: r.seenGlobals
        facts := { r.facts with
          functions := r.facts.functions.modify fn fun f =>
            { f with directGlobals := f.directGlobals ++ [n] } } } := by
      simp [Resolver.noteGlobal, hfn, hn]
    rw [hnew]
    have hlist := list_modify (v := (·.directGlobals))
      (k := fun f => { f with directGlobals := f.directGlobals ++ [n] })
      (fun _ => rfl) (h.current fn hfn).2
    refine h.modify hfn (k := fun f => { f with directGlobals := f.directGlobals ++ [n] })
      (fun _ => rfl) rfl rfl
      (hglobals.add (fun g => (hlist g).trans (by simp [hn, Facts.directGlobalsOf]))
        (by simp [or_comm]) huses) ?_
    rw [calleesOf_modify (f := r.facts)
      (k := fun f => { f with directGlobals := f.directGlobals ++ [n] }) (fun _ => rfl) rfl]
    exact hfn ▸ h.callees

/-- The current function is told to call another. -/
theorem noteCallee (h : p.Ledger r refers calls) (hfn : r.function = some fn) {d : NodeId}
    (huses : ∀ g, g ≠ 0 → ∀ c, calls' g c ↔ calls g c ∨ g = fn ∧ c = d) :
    p.Ledger (r.noteCallee d) refers calls' := by
  have hcallees := hfn ▸ h.callees
  by_cases hd : d ∈ r.seenCallees
  · have hsame : r.noteCallee d = r := by simp [Resolver.noteCallee, hfn, hd]
    rw [hsame]
    exact { h with callees := hfn ▸ hcallees.add (by simp [hd]) (fun m =>
      (or_iff_left_of_imp (· ▸ hd)).symm) huses }
  · have hnew : r.noteCallee d = { r with
        seenCallees := d :: r.seenCallees
        facts := { r.facts with
          functions := r.facts.functions.modify fn fun f =>
            { f with callees := f.callees ++ [d] } } } := by
      simp [Resolver.noteCallee, hfn, hd]
    rw [hnew]
    have hlist := list_modify (v := (·.callees))
      (k := fun f => { f with callees := f.callees ++ [d] }) (fun _ => rfl)
      (h.current fn hfn).2
    refine h.modify hfn (k := fun f => { f with callees := f.callees ++ [d] })
      (fun _ => rfl) rfl rfl ?_
      (hcallees.add (fun g => (hlist g).trans (by simp [hd, Facts.calleesOf]))
        (by simp [or_comm]) huses)
    rw [directGlobalsOf_modify (f := r.facts) (k := fun f => { f with callees := f.callees ++ [d] })
      (fun _ => rfl) rfl]
    exact hfn ▸ h.globals

end Ledger

/-- Inside a function an expression is in the function that the state is in. -/
theorem At.current {x : ExprShape Symbol NodeId} (he : p.At o r e x) (h0 : p.functionOf e ≠ 0) :
    r.function = some (p.functionOf e) := by
  have hfn := he.function
  cases hr : r.function with
  | none =>
    rw [hr] at hfn
    exact absurd hfn.symm h0
  | some g =>
    rw [hr] at hfn
    exact congrArg some hfn

theorem Blank.unlinked (h : p.Blank r e) (ho : p.Once r) :
    r.facts.variableIdOf e = none ∧ r.facts.targetOf e = none := by
  simp [Facts.variableIdOf, Facts.targetOf, h ho]

section Uses

variable {f f' : Facts} {y : ExprFacts} {n m : VariableId} {g d c : NodeId}

theorem targetOf_insert (h : f'.exprs = f.exprs.insert e y) (j : NodeId) :
    f'.targetOf j = if j = e then y.target else f.targetOf j := by
  by_cases hj : j = e
  · subst hj
    simp [Facts.targetOf, h]
  · simp [Facts.targetOf, h, Std.TreeMap.getElem?_insert, hj, Ne.symm hj]

theorem refersIn_congr (hids : ∀ e, p.functionOf e ≠ 0 → f'.variableIdOf e = f.variableIdOf e)
    (hglobal : ∀ n, (∃ e, f.variableIdOf e = some n) → (f'.IsGlobal n ↔ f.IsGlobal n))
    (hg : g ≠ 0) : p.RefersIn f' g n ↔ p.RefersIn f g n := by
  have hsame : (∃ e, p.functionOf e = g ∧ f'.variableIdOf e = some n) ↔
      ∃ e, p.functionOf e = g ∧ f.variableIdOf e = some n :=
    exists_congr fun e => and_congr_right fun he => by rw [hids e (he ▸ hg)]
  unfold RefersIn
  rw [hsame]
  exact and_congr_right fun ⟨e, _, he⟩ => hglobal n ⟨e, he⟩

theorem callsIn_congr (htargets : ∀ e, p.functionOf e ≠ 0 → f'.targetOf e = f.targetOf e)
    (hg : g ≠ 0) : p.CallsIn f' g d ↔ p.CallsIn f g d :=
  exists_congr fun e => and_congr_right fun he => by rw [htargets e (he ▸ hg)]

/-- One more identifier is one more reference, if the variable is the module's. -/
theorem refersIn_insert (hexprs : f'.exprs = f.exprs.insert e y) (hy : y.variableId = some n)
    (hnone : f.variableIdOf e = none) (hglobal : ∀ k, f'.IsGlobal k ↔ f.IsGlobal k) :
    p.RefersIn f' g m ↔ p.RefersIn f g m ∨ g = p.functionOf e ∧ m = n ∧ f.IsGlobal n := by
  have hids : (∃ j, p.functionOf j = g ∧ f'.variableIdOf j = some m) ↔
      (∃ j, p.functionOf j = g ∧ f.variableIdOf j = some m) ∨ g = p.functionOf e ∧ m = n := by
    simp only [variableIdOf_insert hexprs, hy]
    constructor
    · rintro ⟨j, hj, hm⟩
      split at hm
      · next hje => exact .inr ⟨by rw [← hj, hje], (Option.some.inj hm).symm⟩
      · exact .inl ⟨j, hj, hm⟩
    · rintro (⟨j, hj, hm⟩ | ⟨hg, rfl⟩)
      · refine ⟨j, hj, ?_⟩
        rw [if_neg, hm]
        rintro rfl
        rw [hnone] at hm
        cases hm
      · exact ⟨e, hg.symm, if_pos rfl⟩
  unfold RefersIn
  rw [hids, hglobal, or_and_right]
  refine or_congr_right ⟨?_, ?_⟩
  · rintro ⟨⟨hg, rfl⟩, hm⟩
    exact ⟨hg, rfl, hm⟩
  · rintro ⟨hg, rfl, hm⟩
    exact ⟨⟨hg, rfl⟩, hm⟩

/-- One more call is one more edge. -/
theorem callsIn_insert (hexprs : f'.exprs = f.exprs.insert e y) (hy : y.target = some d)
    (hnone : f.targetOf e = none) :
    p.CallsIn f' g c ↔ p.CallsIn f g c ∨ g = p.functionOf e ∧ c = d := by
  unfold CallsIn
  simp only [targetOf_insert hexprs, hy]
  constructor
  · rintro ⟨j, hj, hc⟩
    split at hc
    · next hje => exact .inr ⟨by rw [← hj, hje], (Option.some.inj hc).symm⟩
    · exact .inl ⟨j, hj, hc⟩
  · rintro (⟨j, hj, hc⟩ | ⟨hg, rfl⟩)
    · refine ⟨j, hj, ?_⟩
      rw [if_neg, hc]
      rintro rfl
      rw [hnone] at hc
      cases hc
    · exact ⟨e, hg.symm, if_pos rfl⟩

/-- Whoever uses a variable does not change where it is declared. -/
theorem isGlobal_modify (h : f'.vars = f.vars.modify n fun v => { v with users := v.users ++ [e] })
    (k : VariableId) : f'.IsGlobal k ↔ f.IsGlobal k := by
  unfold Facts.IsGlobal
  rw [h, Array.getElem?_modify]
  split
  · next hk =>
    subst hk
    cases f.vars[n]? <;> simp
  · rfl

end Uses

namespace Linked

variable {y : ExprFacts} {x : ExprShape Symbol NodeId}

/-- Outside functions the state is in none. -/
theorem outside (h : p.Linked r) (he : p.At o r e x) (h0 : p.functionOf e = 0) :
    r.function = none := by
  refine Option.eq_none_iff_forall_ne_some.2 fun g hg => (h.current g hg).1 ?_
  have hfn := he.function
  rw [hg, h0] at hfn
  exact hfn

/-- Entries of expressions outside functions do not matter. -/
theorem aside (h : p.Linked r) (h0 : p.functionOf e = 0)
    (hexprs : r'.facts.exprs = r.facts.exprs.insert e y)
    (hglobal : ∀ n, r'.facts.IsGlobal n ↔ r.facts.IsGlobal n)
    (hlinks : linksOf r'.facts = linksOf r.facts) (hfunction : r'.function = r.function)
    (hglobals : r'.seenGlobals = r.seenGlobals) (hcallees : r'.seenCallees = r.seenCallees) :
    p.Linked r' := by
  have hne : ∀ {j}, p.functionOf j ≠ 0 → j ≠ e := fun hj hje => hj (by rw [hje, h0])
  refine (h.same hlinks hfunction hglobals hcallees).congr
    (fun g hg n => refersIn_congr (fun j hj => ?_) (fun n _ => hglobal n) hg)
    fun g hg d => callsIn_congr (fun j hj => ?_) hg
  · rw [variableIdOf_insert hexprs, if_neg (hne hj)]
  · rw [targetOf_insert hexprs, if_neg (hne hj)]

/-- Nor do entries that say of no variable and of no call, of expressions that were blank. -/
theorem note (h : p.Linked r) (he : p.At o r e x)
    (hnone : p.Once r → r.facts.variableIdOf e = none ∧ r.facts.targetOf e = none)
    (hv : y.variableId = none) (ht : y.target = none) : p.Linked (r.note e y) := by
  by_cases h0 : p.functionOf e = 0
  · exact h.aside h0 rfl (fun _ => .rfl) rfl rfl rfl rfl
  · obtain ⟨hid, htarget⟩ := hnone (.inr (by simp [he.current h0]))
    have htargets : ∀ j, (r.note e y).facts.targetOf j = r.facts.targetOf j := by
      intro j
      rw [targetOf_insert (f := r.facts) (y := y) rfl, ht]
      split
      · next hje => rw [hje, htarget]
      · rfl
    have hids : (r.note e y).facts.variableIdOf = r.facts.variableIdOf :=
      variableIdOf_note hid hv rfl
    have hledger : p.Ledger (r.note e y) (p.RefersIn r.facts) (p.CallsIn r.facts) :=
      h.same rfl rfl rfl rfl
    exact hledger.congr
      (fun g hg n => refersIn_congr (fun j _ => congrFun hids j) (fun _ _ => .rfl) hg)
      fun g hg d => callsIn_congr (fun j _ => htargets j) hg

/-- An identifier of a function was found to be a variable. -/
theorem used (h : p.Linked r) {s : Symbol} (he : p.At o r e (.ident s)) (hb : p.Blank r e)
    {n : VariableId} {v : VariableFacts} (hv : r.facts.vars[n]? = some v) :
    p.Linked (r.useVariable e (p.statementOf e) n v) := by
  -- the state once the user is entered, and the function is not yet told
  let y : ExprFacts := { stmt := p.statementOf e, variableId := some n, type := v.type }
  let r₁ := (r.note e y).addUser n e
  have hglobal : ∀ k, r₁.facts.IsGlobal k ↔ r.facts.IsGlobal k := isGlobal_modify rfl
  have hscope : r.facts.IsGlobal n ↔ v.scope = .global := by simp [Facts.IsGlobal, hv]
  have huse : r.useVariable e (p.statementOf e) n v = if v.scope = .global then
      r₁.noteGlobal n else r₁ := rfl
  rw [huse]
  by_cases h0 : p.functionOf e = 0
  · have hnote : r₁.noteGlobal n = r₁ := by
      simp only [Resolver.noteGlobal, show r₁.function = none from h.outside he h0]
    rw [hnote, ite_self]
    exact h.aside h0 rfl hglobal rfl rfl rfl rfl
  · have hfn := he.current h0
    obtain ⟨hid, htarget⟩ := hb.unlinked (.inr (by simp [hfn]))
    have hrefers : ∀ g m, p.RefersIn r₁.facts g m ↔ p.RefersIn r.facts g m ∨ g = p.functionOf e ∧
        m = n ∧ v.scope = .global := by
      intro g m
      rw [refersIn_insert (y := y) rfl rfl hid hglobal, hscope]
    have hcalls : ∀ g, g ≠ 0 → ∀ d, p.CallsIn r₁.facts g d ↔ p.CallsIn r.facts g d :=
      fun g hg d => by
      refine callsIn_congr (fun j _ => ?_) hg
      rw [targetOf_insert (f := r.facts) (y := y) rfl]
      split
      · next hje => rw [hje, htarget]
      · rfl
    have hledger : p.Ledger r₁ (p.RefersIn r.facts) (p.CallsIn r.facts) := h.same rfl rfl rfl rfl
    split
    · next hs =>
      obtain ⟨functions, seenGlobals, heq⟩ := noteGlobal_eq r₁ n
      have hnoted : p.Ledger (r₁.noteGlobal n) (p.RefersIn r₁.facts) (p.CallsIn r.facts) :=
        hledger.noteGlobal hfn fun g _ m => by simp [hrefers, hs]
      rw [heq] at hnoted ⊢
      exact hnoted.congr (fun _ _ _ => .rfl) hcalls
    · next hs => exact hledger.congr (fun g _ m => by simp [hrefers, hs]) hcalls

/-- A call of a function was found to be one. -/
theorem called (h : p.Linked r) (he : p.At o r e x) (hb : p.Blank r e) (d : NodeId)
    (t : Option Ty) :
    p.Linked ((r.note e { stmt := p.statementOf e, target := some d, type := t }).noteCallee
      d) := by
  let y : ExprFacts := { stmt := p.statementOf e, target := some d, type := t }
  let r₁ := r.note e y
  change p.Linked (r₁.noteCallee d)
  by_cases h0 : p.functionOf e = 0
  · have hnote : r₁.noteCallee d = r₁ := by
      simp only [Resolver.noteCallee, show r₁.function = none from h.outside he h0]
    rw [hnote]
    exact h.aside (y := y) h0 rfl (fun _ => .rfl) rfl rfl rfl rfl
  · have hfn := he.current h0
    obtain ⟨hid, htarget⟩ := hb.unlinked (.inr (by simp [hfn]))
    have hids : r₁.facts.variableIdOf = r.facts.variableIdOf := variableIdOf_note hid rfl rfl
    have hledger : p.Ledger r₁ (p.RefersIn r.facts) (p.CallsIn r.facts) := h.same rfl rfl rfl rfl
    obtain ⟨functions, seenCallees, heq⟩ := noteCallee_eq r₁ d
    have hnoted : p.Ledger (r₁.noteCallee d) (p.RefersIn r.facts) (p.CallsIn r₁.facts) :=
      hledger.noteCallee hfn fun g _ c => callsIn_insert (y := y) rfl rfl htarget
    rw [heq] at hnoted ⊢
    exact hnoted.congr (fun g hg n => refersIn_congr (fun j _ => congrFun hids j) (fun _ _ => .rfl)
      hg) fun _ _ _ => .rfl

/-- A function gets a head without uses. -/
theorem head (h : p.Linked r) {f : FunctionFacts} (hf : p.IsFunction f.decl)
    (hnone : r.facts.functions[f.decl]? = none) (hlinks : links f = ([], [], [], [])) :
    p.Linked (r.head f) := by
  have hmap : ∀ g, linksOf (r.head f).facts g = if g = f.decl then some ([], [], [], [])
      else linksOf r.facts g := by
    intro g
    rw [linksOf, linksOf, Resolver.head, Std.TreeMap.getElem?_insert]
    by_cases hg : f.decl = g
    · subst hg
      simp [hlinks]
    · simp [hg, Ne.symm hg]
  have hold : linksOf r.facts f.decl = none := by simp [linksOf, hnone]
  have hglobals : (r.head f).facts.directGlobalsOf = r.facts.directGlobalsOf := by
    funext g
    rw [directGlobalsOf_eq, directGlobalsOf_eq, hmap]
    split
    · next hg => simp [hg, hold]
    · rfl
  have hcallees : (r.head f).facts.calleesOf = r.facts.calleesOf := by
    funext g
    rw [calleesOf_eq, calleesOf_eq, hmap]
    split
    · next hg => simp [hg, hold]
    · rfl
  refine ⟨hglobals ▸ h.globals, hcallees ▸ h.callees, fun g hg => ?_, fun g hg => ?_,
    fun g l hl => ?_⟩
  · obtain ⟨h0, hs⟩ := h.current g hg
    refine ⟨h0, ?_⟩
    rw [← isSome_linksOf, hmap]
    split
    · rfl
    · rwa [isSome_linksOf]
  · rw [← isSome_linksOf, hmap] at hg
    split at hg
    · next he => exact he ▸ hf
    · exact h.heads g (by rwa [isSome_linksOf] at hg)
  · rw [hmap] at hl
    split at hl
    · cases hl
      rfl
    · exact h.plain g l hl

/-- A function is entered of which nothing is recorded: it uses nothing so far. -/
theorem opened (h : p.Linked r) {f : NodeId} (h0 : f ≠ 0)
    (hhead : (r.facts.functions[f]?).isSome = true)
    (hnone : ∀ e : NodeId, (r.facts.exprs[e]?).isSome → p.functionOf e ≠ f) (frames : List Frame) :
    p.Linked { r with function := some f, seenGlobals := [], seenCallees := [], frames } := by
  refine { h with
    globals := ⟨h.globals.told, fun g hg n => ?_⟩
    callees := ⟨h.callees.told, fun g hg d => ?_⟩
    current := fun g hg => ?_ }
  · cases hg
    rw [h.globals.told f h0]
    refine iff_of_false List.not_mem_nil ?_
    rintro ⟨⟨e, he, hn⟩, -⟩
    obtain ⟨x, hx, -⟩ := Option.bind_eq_some_iff.1 hn
    exact hnone e (by simp [hx]) he
  · cases hg
    rw [h.callees.told f h0]
    refine iff_of_false List.not_mem_nil ?_
    rintro ⟨e, he, hd⟩
    obtain ⟨x, hx, -⟩ := Option.bind_eq_some_iff.1 hd
    exact hnone e (by simp [hx]) he
  · cases hg
    exact ⟨h0, hhead⟩

end Linked

/-- One step keeps what is known of functions in agreement with their expressions. -/
theorem Advance.linked (hstep : p.Advance a b) (hp : p.Placed a.2) (h : p.Linked a.2) :
    p.Linked b.2 := by
  cases hstep with
  | calm hc =>
    refine (h.same hc.links hc.function hc.seenGlobals hc.seenCallees).congr
      (fun g hg n => refersIn_congr (fun e _ => ?_) (fun n _ => ?_) hg)
      fun g hg d => callsIn_congr (fun e _ => ?_) hg
    · rw [Facts.variableIdOf, hc.exprs, Facts.variableIdOf]
    · rw [Facts.IsGlobal, hc.vars, Facts.IsGlobal]
    · rw [Facts.targetOf, hc.exprs, Facts.targetOf]
  | @made o r v _ =>
    have hledger : p.Ledger (r.make v) (p.RefersIn r.facts) (p.CallsIn r.facts) :=
      h.same rfl rfl rfl rfl
    refine hledger.congr
      (fun g hg n => refersIn_congr (fun _ _ => rfl) (fun n hn => ?_) hg) fun _ _ _ => .rfl
    obtain ⟨e, he⟩ := hn
    have hlt := (hp.ident e n he).1
    simp [Facts.IsGlobal, Resolver.make, Facts.addVariable, Array.getElem?_push, Nat.ne_of_lt hlt]
  | @mistaken o r e x he =>
    have hledger : p.Ledger (r.mistake e x) (p.RefersIn r.facts) (p.CallsIn r.facts) :=
      h.same rfl rfl rfl rfl
    refine hledger.congr
      (fun g hg n => refersIn_congr (fun e _ => ?_) (fun _ _ => .rfl) hg)
      fun g hg d => callsIn_congr (fun e _ => ?_) hg
    · rw [Facts.variableIdOf, hp.mistake he x e, Facts.variableIdOf]
    · rw [Facts.targetOf, hp.mistake he x e, Facts.targetOf]
  | met he hnone =>
    exact h.note he (fun ho => by simp [Facts.variableIdOf, Facts.targetOf, hnone ho]) rfl rfl
  | left => exact h
  | found y he hb _ hv ht _ => exact h.note he hb.unlinked hv ht
  | used he hb hv => exact h.used he hb hv
  | called t he hb _ => exact h.called he hb _ t
  | entered => exact h.same rfl rfl rfl rfl
  | headed f hf hnone hlinks => exact h.head hf hnone hlinks
  | opened h0 hhead hnone => exact h.opened h0 hhead hnone _
  | closed => exact { h with globals := h.globals.closed, callees := h.callees.closed,
                             current := fun _ hg => by cases hg }

theorem Linked.unresolved (p : Program) : p.Linked p.unresolved where
  globals := ⟨fun g _ n => by simp [Facts.directGlobalsOf, RefersIn, Facts.variableIdOf,
    Program.unresolved], nofun⟩
  callees :=
    ⟨fun g _ d => by simp [Facts.calleesOf, CallsIn, Facts.targetOf, Program.unresolved], nofun⟩
  current := nofun
  heads g hg := by simp [Program.unresolved] at hg
  plain g l hl := by simp [linksOf, Program.unresolved] at hl

theorem Course.linked (hc : p.Course a b) (hp : p.Placed a.2) (h : p.Linked a.2) :
    p.Linked b.2 := by
  induction hc with
  | refl => exact h
  | tail hc hstep ih => exact hstep.linked (Course.placed hc hp) ih

/-- Calls are of functions that the module declares. -/
def Aimed (p : Program) (f : Facts) : Prop := ∀ e d, f.targetOf e = some d → p.IsFunction d

theorem Advance.aimed (hstep : p.Advance a b) (hp : p.Placed a.2) (hl : p.Linked a.2)
    (h : p.Aimed a.2.facts) : p.Aimed b.2.facts := by
  have hinsert : ∀ {f f' : Facts} {e : NodeId} {y : ExprFacts},
      p.Aimed f → f'.exprs = f.exprs.insert e y →
      (∀ d, y.target = some d → p.IsFunction d) → p.Aimed f' := by
    intro f f' e y h hexprs hy j d hd
    rw [targetOf_insert hexprs] at hd
    split at hd
    · exact hy d hd
    · exact h j d hd
  cases hstep with
  | calm hc =>
    intro e d hd
    rw [Facts.targetOf, hc.exprs] at hd
    exact h e d hd
  | mistaken x he =>
    intro e d hd
    rw [Facts.targetOf, hp.mistake he x e] at hd
    exact h e d hd
  | met => exact hinsert h rfl fun _ hd => by cases hd
  | found y _ _ _ _ ht _ => exact hinsert h rfl fun d hd => by simp [ht] at hd
  | used => exact hinsert h (exprs_useVariable ..) fun _ hd => by cases hd
  | called t _ _ hd =>
    exact hinsert h (exprs_noteCallee ..) fun d' hd' => Option.some.inj hd' ▸ hl.heads _ hd
  | made | left | entered | headed | opened | closed => exact h

theorem Course.aimed (hc : p.Course a b) (hp : p.Placed a.2) (hl : p.Linked a.2)
    (h : p.Aimed a.2.facts) : p.Aimed b.2.facts := by
  induction hc with
  | refl => exact h
  | tail hc hstep ih => exact hstep.aimed (Course.placed hc hp) (Course.linked hc hp hl) ih

/-- A function refers to a variable of the module: one of its identifiers is the variable. -/
abbrev RefersTo (p : Program) : NodeId → VariableId → Prop := p.RefersIn p.facts

/-- A function calls another: one of its calls is of the other. -/
abbrev Calls (p : Program) : NodeId → NodeId → Prop := p.CallsIn p.facts

/-- A function with a stage. -/
def IsEntryPoint (p : Program) (e : NodeId) : Prop :=
  ∃ x, p.facts.functions[e]? = some x ∧ x.isEntryPoint = true

theorem IsFunction.ne_zero {g : NodeId} (h : p.IsFunction g) : g ≠ 0 := by
  rintro rfl
  have hf := h.2
  simp [Arena.function?, Arena.shape?] at hf

/-- Chains of calls are what the lists of callees lead to. -/
theorem Linked.reaches_iff (h : p.Linked r) (ha : p.Aimed r.facts) {g d : NodeId}
    (hg : p.IsFunction g) :
    r.facts.Reaches g d ↔ Relation.ReflTransGen (p.CallsIn r.facts) g d := by
  have hend : ∀ {d}, Relation.ReflTransGen (p.CallsIn r.facts) g d → p.IsFunction d := fun hd => by
    induction hd with
    | refl => exact hg
    | tail _ hstep _ =>
      obtain ⟨e, -, he⟩ := hstep
      exact ha e _ he
  constructor
  · intro hd
    induction hd with
    | refl => exact .refl
    | tail _ hstep ih => exact ih.tail ((h.callees.told _ (hend ih).ne_zero _).1 hstep)
  · intro hd
    induction hd with
    | refl => exact .refl
    | tail hd hstep ih => exact ih.tail ((h.callees.told _ (hend hd).ne_zero _).2 hstep)

namespace Resolved

variable (h : p.Resolved r)
include h

theorem linked : p.Linked r := Course.linked h.course (.unresolved p) (.unresolved p)

theorem aimed : p.Aimed r.facts :=
  Course.aimed h.course (.unresolved p) (.unresolved p) fun e d hd => by
    simp [Facts.targetOf, Program.unresolved] at hd

theorem nodup_globals : p.globals.Nodup :=
  h.rooted.tree.globals_nodup fun g hg => Arena.ne_zero_of_mem_children (h.rooted.globals g hg)

/-! Summaries leave alone what expressions were found to be, and whatever else is known of
functions. -/

theorem calls_eq : p.Calls = p.CallsIn r.facts := by
  obtain ⟨functions, entryPoints, hsummary⟩ := r.facts.summarize_eq p.globals
  rw [Calls, h.facts, hsummary]
  rfl

theorem refersTo_eq : p.RefersTo = p.RefersIn r.facts := by
  obtain ⟨functions, entryPoints, hsummary⟩ := r.facts.summarize_eq p.globals
  rw [RefersTo, h.facts, hsummary]
  rfl

theorem sameCalls : r.facts.SameCalls p.facts := h.facts ▸ r.facts.sameCalls_summarize _

theorem view {β : Type} {v : FunctionFacts → β}
    (hv : ∀ f globals ancestors, v { f with transitiveGlobals := globals, ancestors } = v f)
    (g : NodeId) : (p.facts.functions[g]?).map v = (r.facts.functions[g]?).map v := by
  rw [h.facts]
  exact Resolve.view_summarize hv r.facts p.globals g

theorem isFunction_iff (g : NodeId) : (p.facts.functions[g]?).isSome = true ↔ p.IsFunction g := by
  have hsome := congrArg Option.isSome (h.view (v := fun _ => ()) (fun _ _ _ => rfl) g)
  rw [Option.isSome_map, Option.isSome_map] at hsome
  rw [hsome]
  exact ⟨h.linked.heads g, h.heads g⟩

theorem isEntryPoint_iff (e : NodeId) :
    (r.facts.functions[e]?).any (·.isEntryPoint) = true ↔ p.IsEntryPoint e := by
  have hany := congrArg (Option.any id) (h.view (v := (·.isEntryPoint)) (fun _ _ _ => rfl) e)
  simp only [Option.any_map, id_eq] at hany
  rw [← hany, Option.any_eq_true]
  rfl

theorem isFunction_of_isEntryPoint {e : NodeId} (he : p.IsEntryPoint e) : p.IsFunction e :=
  (h.isFunction_iff e).1 (Option.isSome_iff_exists.2 (he.imp fun _ hx => hx.1))

theorem mem_globals_of_callees {i : NodeId} (hi : r.facts.calleesOf i ≠ []) : i ∈ p.globals := by
  refine (h.linked.heads i ?_).1
  cases hx : r.facts.functions[i]? with
  | none => simp [Facts.calleesOf, hx] at hi
  | some x => rfl

/-- The summary of a function lists what it reaches, and the entry points that told it so. -/
theorem summary {g : NodeId} {x : FunctionFacts} (hx : p.facts.functions[g]? = some x) :
    x.transitiveGlobals = r.facts.summaryOf p.globals g ∧
    x.ancestors = r.facts.tellers p.globals p.globals g := by
  have hg : p.IsFunction g := (h.isFunction_iff g).1 (by simp [hx])
  obtain ⟨y, hy⟩ := Option.isSome_iff_exists.1 (h.heads g hg)
  have hplain := h.linked.plain g (links y) (by rw [linksOf, hy]; rfl)
  have hglobals := (r.facts.summarize_spec p.globals h.nodup_globals).1 g
  have hancestors := r.facts.ancestors_summarize p.globals p.globals g
  rw [← Facts.summarize, ← h.facts, hx, hy] at hglobals hancestors
  exact ⟨by simpa [hg.1, (Prod.mk.inj hplain).1] using hglobals, by
    simpa [(Prod.mk.inj hplain).2] using hancestors⟩

theorem mem_summaryOf {g : NodeId} (hg : p.IsFunction g) (n : VariableId) :
    n ∈ r.facts.summaryOf p.globals g ↔ ∃ d, Relation.ReflTransGen p.Calls g d ∧
      p.RefersTo d n := by
  rw [Facts.mem_summaryOf fun _ => h.mem_globals_of_callees, h.calls_eq, h.refersTo_eq]
  refine exists_congr fun d => ?_
  rw [h.linked.reaches_iff h.aimed hg]
  refine and_congr_right fun hd => h.linked.globals.told d ?_ n
  rcases Relation.ReflTransGen.cases_tail hd with rfl | ⟨_, -, e, -, he⟩
  · exact hg.ne_zero
  · exact (h.aimed e d he).ne_zero

theorem mem_tellers (g e : NodeId) : e ∈ r.facts.tellers p.globals p.globals g ↔
    e ≠ g ∧ p.IsEntryPoint e ∧ Relation.ReflTransGen p.Calls e g := by
  have hreaches : p.IsEntryPoint e →
      (r.facts.Reaches e g ↔ Relation.ReflTransGen (p.CallsIn r.facts) e g) := fun he =>
    h.linked.reaches_iff h.aimed (h.isFunction_of_isEntryPoint he)
  rw [Facts.tellers, List.mem_filter, decide_eq_true_iff, h.isEntryPoint_iff,
    Facts.mem_reachedFunctions fun _ => h.mem_globals_of_callees, h.calls_eq]
  constructor
  · rintro ⟨-, hentry, hne, hreach⟩
    exact ⟨hne.symm, hentry, (hreaches hentry).1 hreach⟩
  · rintro ⟨hne, hentry, hreach⟩
    exact ⟨(h.isFunction_of_isEntryPoint hentry).1, hentry, hne.symm, (hreaches hentry).2 hreach⟩

end Resolved

/-- Summaries are closures. The functions that have facts are those that the module declares. The
walk from a function ends by itself, even if calls go round in circles. Its summary lists, each
once, the variables of the module that some function refers to which a chain of calls leads to, and
the other entry points from which a chain of calls leads to it. -/
theorem summaries_close {m : Document.Module} (h : m.decode = .ok p) :
    (∀ g : NodeId, (p.facts.functions[g]?).isSome = true ↔ p.IsFunction g) ∧
    ∀ (g : NodeId) x, p.facts.functions[g]? = some x →
      Strolls p.facts.calleesOf [g] [] (p.facts.reachedFunctions p.globals g) ∧
      x.transitiveGlobals.Nodup ∧
      (∀ n, n ∈ x.transitiveGlobals ↔ ∃ d, Relation.ReflTransGen p.Calls g d ∧ p.RefersTo d n) ∧
      x.ancestors.Nodup ∧
      ∀ e, e ∈ x.ancestors ↔ e ≠ g ∧ p.IsEntryPoint e ∧ Relation.ReflTransGen p.Calls e g := by
  obtain ⟨r, hr⟩ := exists_resolved h
  refine ⟨hr.isFunction_iff, fun g x hx => ?_⟩
  obtain ⟨hglobals, hancestors⟩ := hr.summary hx
  rw [hglobals, hancestors]
  refine ⟨?_, (r.facts.globalsOf_spec _).1,
    hr.mem_summaryOf ((hr.isFunction_iff g).1 (by simp [hx])),
    hr.nodup_globals.filter _, hr.mem_tellers g⟩
  exact Facts.strolls_reachedFunctions
    (fun i hi => hr.mem_globals_of_callees (by rwa [hr.sameCalls.callees] at hi)) g

/-- The module `var<private> x : i32; fn ping() { pong(); } fn pong() { ping(); x = 1; }
@compute @workgroup_size(1) fn main() { ping(); }`. -/
def circling : Document.Module where
  globals := [
    some { kind := "Var", name := "x", type := some { kind := "I32" }, addressSpace := "private" },
    function "ping" [calls "pong"] [],
    function "pong" [
      calls "ping",
      some { kind := "Assign", lhs := some { kind := "Ident", name := "x" }
             rhs := some { kind := "IntLiteral", int := some 1 } }] [],
    function "main" [calls "ping"] [
      some { kind := "StageAttribute", stage := "compute" },
      some { kind := "WorkgroupAttribute", x := some { kind := "IntLiteral", int := some 1 } }]]
where
  function (name : String) (statements attributes : List (Option Document.Record)) :
    Option Document.Record :=
    some { kind := "Function", name, attributes, body := some { kind := "Block", statements } }
  calls (name : String) : Option Document.Record :=
    some { kind := "CallStatement",
           call := some { kind := "Call", target := some { kind := "Ident", name } } }

/-- Two functions that call each other refer to what either refers to, and are reached from the
stage that calls one. -/
theorem summaries_close_circling : ∃ p, circling.decode = .ok p ∧ p.IsFunction 7 ∧
    Strolls p.facts.calleesOf [7] [] (p.facts.reachedFunctions p.globals 7) ∧
    (∃ d, Relation.ReflTransGen p.Calls 7 d ∧ p.RefersTo d 0) ∧ p.IsEntryPoint 23 ∧
    Relation.ReflTransGen p.Calls 23 7 := by
  have hok : (circling.decode.toOption.any fun p =>
      (p.facts.functions[7]?).any fun x =>
        x.transitiveGlobals == [0] && x.ancestors == [23]) = true := by
    decide +kernel
  cases hp : circling.decode with
  | error e => simp [hp, Except.toOption] at hok
  | ok p =>
    simp only [hp, Except.toOption, Option.any_some] at hok
    obtain ⟨x, hx, hlists⟩ := (Option.any_eq_true _ _).1 hok
    simp only [Bool.and_eq_true, beq_iff_eq] at hlists
    obtain ⟨hheads, hclosed⟩ := summaries_close hp
    obtain ⟨hstrolls, -, hglobals, -, hancestors⟩ := hclosed 7 x hx
    obtain ⟨-, hentry, hcalls⟩ := (hancestors 23).1 (by simp [hlists.2])
    exact ⟨p, rfl, (hheads 7).1 (by simp [hx]), hstrolls, (hglobals 0).1 (by simp [hlists.1]),
      hentry, hcalls⟩

end Program
end ShaderLoom
