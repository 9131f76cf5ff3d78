import ShaderLoom.Proofs.Meaning.ModuleSteps
import ShaderLoom.Proofs.Meaning.Termination

/-! Where expressions and statements stand, and who uses a variable. Resolution writes down the
statement that it is in with every expression, the function that it is in with every statement, and
every identifier with its variable. Each small step keeps what is written down in agreement with the
parents of the nodes. -/
namespace ShaderLoom

open Resolve

/-- The variable that an expression was found to refer to. -/
def Facts.variableIdOf (f : Facts) (u : NodeId) : Option VariableId :=
  (f.exprs[u]?).bind (·.variableId)

namespace Program

variable {p : Program} {r r' : Resolver} {o : List NodeId}
    {a b : List NodeId × Resolver} {e : NodeId}

/-- Whatever is recorded agrees with where it stands, and identifiers alone refer to variables that
there are. -/
structure Placed (p : Program) (r : Resolver) : Prop where
  expr : ∀ (e : NodeId) x, r.facts.exprs[e]? = some x →
    p.inTree e = true ∧ (∃ y, p.shape? e = some (.expr y)) ∧ x.stmt = p.statementOf e
  ident : ∀ e n, r.facts.variableIdOf e = some n →
    n < r.facts.vars.size ∧ ∃ s, p.shape? e = some (.expr (.ident s))
  stmt : ∀ i fn, aroundOf r.facts i = some fn → p.function? i = none → fn = some (p.functionOf i)

/-- Every variable lists the identifiers that refer to it, each once. -/
def Listed (r : Resolver) : Prop := ∀ (n : VariableId) v, r.facts.vars[n]? = some v →
  v.users.Nodup ∧ ∀ u, u ∈ v.users ↔ r.facts.variableIdOf u = some n

namespace Placed

theorem same (h : p.Placed r) (hexprs : ∀ j : NodeId, r'.facts.exprs[j]? = r.facts.exprs[j]?)
    (hvars : r.facts.vars.size ≤ r'.facts.vars.size)
    (haround : aroundOf r'.facts = aroundOf r.facts) : p.Placed r' where
  expr e x hx := h.expr e x (hexprs e ▸ hx)
  ident e n hn := by
    rw [Facts.variableIdOf, hexprs] at hn
    exact (h.ident e n hn).imp_left fun hlt => Nat.lt_of_lt_of_le hlt hvars
  stmt := haround ▸ h.stmt

/-- An expression is recorded in its statement. -/
theorem note (h : p.Placed r) {x : ExprShape Symbol NodeId} (he : p.At o r e x) {y : ExprFacts}
    (hexprs : r'.facts.exprs = r.facts.exprs.insert e y)
    (hvars : r.facts.vars.size ≤ r'.facts.vars.size)
    (haround : aroundOf r'.facts = aroundOf r.facts) (hstmt : y.stmt = p.statementOf e)
    (hvar : ∀ n, y.variableId = some n → n < r.facts.vars.size ∧ ∃ s, x = .ident s) :
    p.Placed r' where
  expr j z hz := by
    rw [hexprs, Std.TreeMap.getElem?_insert] at hz
    split at hz
    · next hj =>
      obtain rfl : e = j := by simpa using hj
      cases hz
      exact ⟨he.inTree, ⟨x, he.shape⟩, hstmt⟩
    · exact h.expr j z hz
  ident j n hn := by
    rw [Facts.variableIdOf, hexprs, Std.TreeMap.getElem?_insert] at hn
    split at hn
    · next hj =>
      obtain rfl : e = j := by simpa using hj
      obtain ⟨hlt, s, rfl⟩ := hvar n hn
      exact ⟨Nat.lt_of_lt_of_le hlt hvars, s, he.shape⟩
    · exact (h.ident j n hn).imp_left fun hlt => Nat.lt_of_lt_of_le hlt hvars
  stmt := haround ▸ h.stmt

/-- What was mistaken for an expression is not recorded, before and after. -/
theorem mistake (h : p.Placed r) (he : ∀ y, p.shape? e ≠ some (.expr y)) (x : ExprFacts)
    (j : NodeId) : (r.mistake e x).facts.exprs[j]? = r.facts.exprs[j]? := by
  by_cases hj : j = e
  · subst hj
    have hnone : r.facts.exprs[j]? = none := by
      by_contra hs
      obtain ⟨z, hz⟩ := Option.ne_none_iff_exists'.1 hs
      obtain ⟨-, ⟨y, hy⟩, -⟩ := h.expr j z hz
      exact he y hy
    simp [Resolver.mistake, hnone]
  · exact (alone_mistake r e x).others j hj

end Placed

/-- One step keeps what is recorded in its place. -/
theorem Advance.placed (hstep : p.Advance a b) (h : p.Placed a.2) : p.Placed b.2 := by
  cases hstep with
  | calm hc =>
    exact h.same (fun j => by rw [hc.exprs])
      (Nat.le_of_eq (congrArg Array.size hc.vars.symm)) hc.around
  | made v _ => exact h.same (fun _ => rfl) (by simp [Resolver.make, Facts.addVariable]) rfl
  | mistaken x he => exact h.same (h.mistake he x) (Nat.le_refl _) rfl
  | met he _ => exact h.note he rfl (Nat.le_refl _) rfl rfl fun _ hn => by cases hn
  | left => exact h
  | found y he _ hstmt hvar _ _ =>
    exact h.note he rfl (Nat.le_refl _) rfl hstmt fun n hn => by simp [hvar] at hn
  | @used o r e s n v he _ hv =>
    obtain ⟨functions, seenGlobals, heq⟩ := useVariable_eq r e (p.statementOf e) n v
    dsimp only
    rw [heq]
    refine h.note he rfl (by simp) rfl rfl fun n' hn => ⟨?_, s, rfl⟩
    cases hn
    exact (Array.getElem?_eq_some_iff.1 hv).1
  | @called o r e g args d t he _ _ =>
    obtain ⟨functions, seenCallees, heq⟩ :=
      noteCallee_eq (r.note e { stmt := p.statementOf e, target := some d, type := t }) d
    dsimp only
    rw [heq]
    exact h.note he rfl (Nat.le_refl _) rfl rfl fun _ hn => by cases hn
  | @entered o r i reachable hi =>
    refine ⟨h.expr, h.ident, fun j fn hj hf => ?_⟩
    rw [aroundOf, Resolver.enter, Std.TreeMap.getElem?_insert] at hj
    split at hj
    · next hij =>
      obtain rfl : i = j := by simpa using hij
      cases hj
      exact hi hf
    · exact h.stmt j fn hj hf
  | headed | opened | closed => exact h.same (fun _ => rfl) (Nat.le_refl _) rfl

theorem Placed.unresolved (p : Program) : p.Placed p.unresolved where
  expr e x hx := by simp [Program.unresolved] at hx
  ident e n hn := by simp [Facts.variableIdOf, Program.unresolved] at hn
  stmt i fn hi := by simp [aroundOf, Program.unresolved] at hi

/-- So does a course of steps. -/
theorem Course.placed (hc : p.Course a b) (h : p.Placed a.2) : p.Placed b.2 := by
  induction hc with
  | refl => exact h
  | tail _ hstep ih => exact hstep.placed ih

theorem Listed.same (h : Listed r) (hexprs : r'.facts.variableIdOf = r.facts.variableIdOf)
    (hvars : r'.facts.vars = r.facts.vars) : Listed r' := by
  intro n v hv
  rw [hvars] at hv
  rw [hexprs]
  exact h n v hv

theorem variableIdOf_insert {f f' : Facts} {y : ExprFacts} (h : f'.exprs = f.exprs.insert e y)
    (j : NodeId) : f'.variableIdOf j = if j = e then y.variableId else f.variableIdOf j := by
  by_cases hj : j = e
  · subst hj
    simp [Facts.variableIdOf, h]
  · simp [Facts.variableIdOf, h, Std.TreeMap.getElem?_insert, hj, Ne.symm hj]

/-- An entry without a variable is no new use where there was none before. -/
theorem variableIdOf_note (hnone : r.facts.variableIdOf e = none) {y : ExprFacts}
    (hy : y.variableId = none) (hexprs : r'.facts.exprs = r.facts.exprs.insert e y) :
    r'.facts.variableIdOf = r.facts.variableIdOf := by
  funext j
  rw [variableIdOf_insert hexprs, hy]
  split
  · next hj => rw [hj, hnone]
  · rfl

/-- An identifier that referred to nothing is one more user of a variable. -/
theorem Listed.used (h : Listed r) (hnone : r.facts.variableIdOf e = none) {n : VariableId}
    {y : ExprFacts} (hy : y.variableId = some n)
    (hexprs : r'.facts.exprs = r.facts.exprs.insert e y)
    (hvars : r'.facts.vars = r.facts.vars.modify n fun v => { v with users := v.users ++ [e] }) :
    Listed r' := by
  have hnot : ∀ {k}, r.facts.variableIdOf e ≠ some k := fun hk => by simp [hnone] at hk
  intro k w hw
  rw [hvars, Array.getElem?_modify] at hw
  split at hw
  · next hn =>
    subst hn
    obtain ⟨v, hv, rfl⟩ := Option.map_eq_some_iff.1 hw
    obtain ⟨hnodup, hmem⟩ := h n v hv
    refine ⟨List.nodup_append.2 ⟨hnodup, List.nodup_singleton _, ?_⟩, fun u => ?_⟩
    · rintro u hu _ hu' rfl
      rw [List.mem_singleton.1 hu'] at hu
      exact hnot ((hmem e).1 hu)
    · rw [List.mem_append, hmem, List.mem_singleton, variableIdOf_insert hexprs]
      by_cases hu : u = e <;> simp [hu, hy]
  · next hn =>
    obtain ⟨hnodup, hmem⟩ := h k w hw
    refine ⟨hnodup, fun u => (hmem u).trans ?_⟩
    rw [variableIdOf_insert hexprs]
    by_cases hu : u = e
    · simp [hu, hnot, hy, hn]
    · simp [hu]

/-- In a founded module, one step keeps the users of variables in agreement with what identifiers
refer to. -/
theorem Advance.listed (hf : p.Founded) (hstep : p.Advance a b) (hp : p.Placed a.2)
    (h : Listed a.2) : Listed b.2 := by
  have hblank : ∀ {r : Resolver} {e : NodeId}, p.Blank r e → r.facts.variableIdOf e = none :=
    fun hb => by
    simp [Facts.variableIdOf, hb (.inl hf)]
  cases hstep with
  | calm hc => exact h.same (by funext j; simp only [Facts.variableIdOf, hc.exprs]) hc.vars
  | @made o r v hv =>
    intro n w hw
    simp only [Resolver.make, Facts.addVariable, Array.getElem?_push] at hw
    split at hw
    · next hn =>
      cases hw
      subst hn
      -- nobody refers to a variable that there was not yet
      refine ⟨by simp [hv], fun u => ?_⟩
      rw [hv, iff_false_intro List.not_mem_nil, false_iff]
      exact fun hu => Nat.lt_irrefl _ (hp.ident u _ hu).1
    · exact h n w hw
  | mistaken x he =>
    exact h.same (by funext j; simp only [Facts.variableIdOf, hp.mistake he x j]) rfl
  | met _ hnone =>
    exact h.same (variableIdOf_note (by simp [Facts.variableIdOf, hnone (.inl hf)]) rfl rfl) rfl
  | left => exact h
  | found y _ hb _ hvar _ _ => exact h.same (variableIdOf_note (hblank hb) hvar rfl) rfl
  | @used o r e s n v _ hb hv =>
    obtain ⟨functions, seenGlobals, heq⟩ := useVariable_eq r e (p.statementOf e) n v
    dsimp only
    rw [heq]
    exact h.used (hblank hb) rfl rfl rfl
  | @called o r e g args d t _ hb _ =>
    obtain ⟨functions, seenCallees, heq⟩ :=
      noteCallee_eq (r.note e { stmt := p.statementOf e, target := some d, type := t }) d
    dsimp only
    rw [heq]
    exact h.same (variableIdOf_note (hblank hb) rfl rfl) rfl
  | entered | headed | opened | closed => exact h.same rfl rfl

theorem Course.listed (hf : p.Founded) (hc : p.Course a b) (hp : p.Placed a.2) (h : Listed a.2) :
    Listed b.2 := by
  induction hc with
  | refl => exact h
  | tail hc hstep ih => exact hstep.listed hf (Course.placed hc hp) ih

/-- A valid program is founded: what leads back to itself cannot be resolved. -/
theorem founded_of_valid {m : Document.Module} (h : m.decode = .ok p) (hv : p.valid = true) :
    p.Founded := by
  obtain ⟨b, hgood, _, _, _, rfl⟩ := Document.decode_good h
  have hfit := hgood.toFit
  have htree := hfit.build.treeShaped (hgood.counted_build trivial)
  have hroot : b.build.root ≤ b.build.size :=
    Nat.le_of_eq (by rw [Builder.root_build, Builder.size_build])
  obtain ⟨rank, hcharted⟩ := htree.charted hroot fun g hg =>
    Nat.ne_of_gt (hfit.build.globals g hg).1
  obtain ⟨hnames, T₁, T₂, hvalues, -⟩ := wellTyped_build hv
  obtain ⟨hgrounded, -, hknown⟩ := grounded_along hvalues (Table.Underway.empty _ _).grounded
  exact fun e he => not_lead_back (grounded_of_tree hcharted hgrounded hknown (.inr he))

/-- An expression comprises itself and its operands, at any depth. -/
def Comprises (p : Program) : NodeId → NodeId → Prop :=
  Relation.ReflTransGen fun i e => ∃ x, p.shape? i = some (.expr x) ∧ e ∈ x.operands

/-- A parameter of a function that the module declares. -/
def IsParameter (p : Program) (d : NodeId) : Prop :=
  ∃ g f, p.IsFunction g ∧ p.function? g = some f ∧ d ∈ f.params

/-- What an expression comprises is in the same statement. -/
theorem Rooted.statementOf_comprised (hp : p.Rooted p.scene.module) (hw : p.Walked) {i : NodeId}
    (hi : p.inTree i = true) (h : p.Comprises i e) :
    e = 0 ∨ p.inTree e = true ∧ p.statementOf e = p.statementOf i := by
  induction h with
  | refl => exact .inr ⟨hi, rfl⟩
  | @tail j e _ hstep ih =>
    obtain ⟨x, hx, he⟩ := hstep
    obtain ⟨hj, hstmt⟩ := ih.resolve_left (Arena.ne_zero_of_shape hx)
    refine or_iff_not_imp_left.2 fun h0 => ?_
    have hchild := mem_children_of_slot hx (x.operands_slots.subset he) h0
    have hparent := hp.tree.parent hj hchild
    refine ⟨hp.tree.inTree_child hj hchild, ?_⟩
    rw [hw.statementOf_child (hparent ▸ Arena.ne_zero_of_shape hx), hparent, hx]
    exact hstmt

/-- No expression of a variable of the module, or of a parameter, is in a statement. -/
theorem Rooted.statementOf_outer (hp : p.Rooted p.scene.module) (hw : p.Walked) {d : NodeId}
    (hd : p.IsValue d ∨ p.IsParameter d) {v : VariableShape Symbol NodeId}
    (hv : p.asVariable? d = some v) (he : p.Comprises v.initializer e) (h0 : e ≠ 0) :
    p.statementOf e = 0 := by
  have hs := Arena.shape?_of_asVariable? hv
  have houter : p.inTree d = true ∧ p.statementOf d = 0 := by
    rcases hd with hd | ⟨g, f, hg, hf, hd⟩
    · exact ⟨hp.tree.inTree_child p.inTree_root (hp.globals d hd.1),
        hp.statementOf_declared hw hd.1⟩
    · have hin := hp.tree.inTree_child p.inTree_root (hp.globals g hg.1)
      have hslot := mem_children_of_slot (c := d) (Arena.shape?_of_function? hf)
        (by simp [Shape.slots, hd])
        (Arena.ne_zero_of_shape hs)
      exact ⟨hp.tree.inTree_child hin hslot,
        hp.statementOf_parameter hw hg hf hd (Arena.ne_zero_of_shape hs)⟩
  have hi0 : v.initializer ≠ 0 := by
    intro hz
    rcases Relation.ReflTransGen.cases_head he with heq | ⟨_, ⟨x, hx, -⟩, -⟩
    · exact h0 (heq ▸ hz)
    · exact Arena.ne_zero_of_shape hx hz
  have hchild := mem_children_of_slot (c := v.initializer) hs (by simp [Shape.slots]) hi0
  have hparent := hp.tree.parent houter.1 hchild
  obtain ⟨-, hstmt⟩ :=
    (hp.statementOf_comprised hw (hp.tree.inTree_child houter.1 hchild) he).resolve_left h0
  rw [hstmt, hw.statementOf_child (hparent ▸ Arena.ne_zero_of_shape hs), hparent, hs]
  exact houter.2

/-- Resolution and the parents agree on where things stand. Every expression that is recorded has
the statement that the parents lead to, none in variables of the module and in parameters; every
statement that is recorded, unless a function stands in its place, has the function that the parents
lead to. Every variable lists just the identifiers that were found to be it, each once. -/
theorem context_agrees {m : Document.Module} (h : m.read = .ok p) :
    (∀ (e : NodeId) x, p.facts.exprs[e]? = some x → x.stmt = p.statementOf e) ∧
    (∀ d v, p.IsValue d ∨ p.IsParameter d → p.asVariable? d = some v →
      ∀ e x, p.Comprises v.initializer e →
      p.facts.exprs[e]? = some x → x.stmt = 0) ∧
    (∀ (i : NodeId) s, p.facts.stmts[i]? = some s → p.function? i = none →
      s.function = some (p.functionOf i)) ∧
    (∀ (n : VariableId) v, p.facts.vars[n]? = some v → v.users.Nodup ∧ ∀ u, u ∈ v.users ↔
      ∃ s x, p.shape? u = some (.expr (.ident s)) ∧ p.facts.exprs[u]? = some x ∧
        x.variableId = some n) := by
  obtain ⟨hdecode, hf⟩ := Document.read_ok_iff.1 h
  obtain ⟨r, hr⟩ := exists_resolved hdecode
  have hplaced : p.Placed r := Course.placed hr.course (.unresolved p)
  obtain ⟨functions, entryPoints, hsummary⟩ := r.facts.summarize_eq p.globals
  rw [hr.facts, hsummary]
  refine ⟨fun e x hx => (hplaced.expr e x hx).2.2, fun d v hd hv e x he hx => ?_,
    fun i s hs hi => ?_, fun n v hv => ?_⟩
  · obtain ⟨-, ⟨y, hy⟩, hstmt⟩ := hplaced.expr e x hx
    rw [hstmt, hr.rooted.statementOf_outer hr.walked hd hv he (Arena.ne_zero_of_shape hy)]
  · exact hplaced.stmt i s.function (congrArg (Option.map StmtFacts.function) hs) hi
  · have hnone : Listed p.unresolved := fun n v hv => by simp [Program.unresolved] at hv
    obtain ⟨hnodup, hmem⟩ := Course.listed hf hr.course (.unresolved p) hnone n v hv
    refine ⟨hnodup, fun u => (hmem u).trans ⟨fun hu => ?_, fun hu => ?_⟩⟩
    · obtain ⟨x, hx, hn⟩ := Option.bind_eq_some_iff.1 hu
      obtain ⟨s, hs⟩ := (hplaced.ident u n hu).2
      exact ⟨s, x, hs, hx, hn⟩
    · obtain ⟨s, x, -, hx, hn⟩ := hu
      exact Option.bind_eq_some_iff.2 ⟨x, hx, hn⟩

/-- The module `const twice = step; const step = 1; fn run() { for (let i = step; ; ) { break; }
}`. -/
def counting : Document.Module where
  globals := [
    some { kind := "Const", name := "twice", initializer := some step },
    some { kind := "Const", name := "step",
           initializer := some { kind := "IntLiteral", int := some 1 } },
    some { kind := "Function", name := "run",
           body := some { kind := "Block", statements := [
             some { kind := "For"
                    initializer := some { kind := "VarDecl"
                                          var := some { kind := "Let", name := "i",
                                                        initializer := some step } }
                    body := some { kind := "Block"
                                   statements := [some { kind := "Break" }] } }] } }]
where
  step : Document.Record := { kind := "Ident", name := "step" }

theorem context_agrees_counting : ∃ p v, counting.read = .ok p ∧ p.facts.vars[0]? = some v ∧
    v.users.map (p.statementOf · ≠ 0) = [false, true] ∧ v.users.Nodup ∧
    ∀ u ∈ v.users, ∃ x, p.facts.exprs[u]? = some x ∧ x.variableId = some 0 ∧
      x.stmt = p.statementOf u := by
  have hok : (counting.read.toOption.any fun p =>
      (p.facts.vars[0]?).any fun v =>
        v.users.map (p.statementOf · ≠ 0) == [false, true]) = true := by
    decide +kernel
  cases hp : counting.read with
  | error e => simp [hp, Except.toOption] at hok
  | ok p =>
    simp only [hp, Except.toOption, Option.any_some] at hok
    obtain ⟨v, hvar, husers⟩ := (Option.any_eq_true _ _).1 hok
    obtain ⟨hstmt, -, -, hlisted⟩ := context_agrees hp
    obtain ⟨hnodup, hmem⟩ := hlisted 0 v hvar
    refine ⟨p, v, rfl, hvar, by simpa using husers, hnodup, fun u hu => ?_⟩
    obtain ⟨_, x, _, hx, hn⟩ := (hmem u).1 hu
    exact ⟨x, hx, hn, hstmt u x hx⟩

/-- The module `fn outer() { fn inner() {} }`. -/
def nestedFunction : Document.Module where
  globals := [
    some { kind := "Function", name := "outer"
           body := some { kind := "Block", statements := [
             some { kind := "Function", name := "inner", body := some { kind := "Block" } }] } }]

/-- A function that stands in the place of a statement is recorded as a statement of the function
around it. The parents lead to itself. -/
theorem context_disagrees : ∃ p i s, nestedFunction.read = .ok p ∧ p.facts.stmts[i]? = some s ∧
    (p.function? i).isSome = true ∧ s.function ≠ some i ∧ p.functionOf i = i := by
  have hok : (nestedFunction.read.toOption.any fun p =>
    p.ids.any fun i => (p.facts.stmts[i]?).any fun s =>
      (p.function? i).isSome && s.function != some i && p.functionOf i == i) = true := by
    decide +kernel
  cases hp : nestedFunction.read with
  | error e => simp [hp, Except.toOption] at hok
  | ok p =>
    simp only [hp, Except.toOption, Option.any_some] at hok
    obtain ⟨i, -, hi⟩ := List.any_eq_true.1 hok
    obtain ⟨s, hs, hi⟩ := (Option.any_eq_true _ _).1 hi
    simp only [Bool.and_eq_true, bne_iff_ne, beq_iff_eq] at hi
    exact ⟨p, i, s, rfl, hs, hi.1.1, hi.1.2, hi.2⟩

end Program
end ShaderLoom
