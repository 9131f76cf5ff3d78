import ShaderLoom.Proofs.Copy.Regime
import ShaderLoom.Proofs.Meaning.Changes

/-! Whatever resolution records is about the node under which it is recorded, and the entry points
are declarations of the module. -/
namespace ShaderLoom.Resolve

/-- What resolution of a module with some declarations may change at all. -/
inductive Step (a : Arena) (gs : List NodeId) : Resolver → Resolver → Prop
  | change {r r'} : Change a r r' → Step a gs r r'
  | stmts {r : Resolver} (stmts) : Step a gs r { r with facts := { r.facts with stmts } }
  | summary {r : Resolver} : Step a gs r { r with facts := r.facts.summarize gs }

section Steps

variable {c : Scene} {gs : List NodeId}

theorem Moves.steps {α : Type} {a : Arena} {step : Resolve α} (h : Moves (Change a) step) :
    Moves (Step a gs) step :=
  h.mono fun _ _ => .change

theorem statementCovers_step : StatementCovers c (fun _ => True) (Step c.arena gs) where
  toCovers := (covers_change c).mono fun _ _ => .change
  entered _ _ := .change (.noted rfl rfl)
  recorded _ _ := .stmts _

theorem steps_body (id : NodeId) (f : FunctionShape Symbol NodeId) :
    Moves (Step c.arena gs) (body c id f) :=
  .bind (.modify fun _ => .change (.noted rfl rfl)) fun _ =>
    .bind (.forM _ fun p => (moves_parameter c id p).steps) fun _ =>
    .bind (statementCovers_step.moves_statement _ _ _) fun b =>
    .bind (moves_updateFunction c id (g := ({ · with behaviors := b })) fun _ => rfl).steps fun _ =>
    .modify fun _ => .change (.noted rfl rfl)

end Steps
end Resolve

namespace Facts

/-- Only what is gone through is noted as an entry point. -/
theorem entryPoints_summarize (f : Facts) {gs : List NodeId} (hf : f.entryPoints ⊆ gs) :
    (f.summarize gs).entryPoints ⊆ gs := by
  have hall : ∀ (ids : List NodeId) (f : Facts), ids ⊆ gs → f.entryPoints ⊆ gs →
      (ids.foldl (summarizeOne gs) f).entryPoints ⊆ gs := by
    intro ids
    induction ids with
    | nil => exact fun _ _ h => h
    | cons id ids ih =>
      intro f hids hf
      refine ih _ (fun x hx => hids (List.mem_cons_of_mem _ hx)) ?_
      unfold summarizeOne
      split
      · exact hf
      · dsimp only
        split
        · exact List.append_subset.2
            ⟨hf, List.cons_subset.2 ⟨hids List.mem_cons_self, List.nil_subset _⟩⟩
        · exact hf
  exact hall gs f (fun _ h => h) hf

/-- Variables are found under their declarations, expressions alone have facts of expressions and
refer to variables, and structures are found under their declarations. -/
structure Sound (a : Arena) (f : Facts) : Prop where
  latest : ∀ {i : NodeId} {n : VariableId}, f.latest[i]? = some n →
    ∃ v : VariableFacts, f.vars[n]? = some v ∧ v.decl = i
  expr : ∀ {i : NodeId} {e : ExprFacts}, f.exprs[i]? = some e → ∃ x, a.shape? i = some (.expr x)
  user : ∀ {n : VariableId} {v : VariableFacts}, f.vars[n]? = some v → ∀ u ∈ v.users,
    ∃ x, a.shape? u = some (.expr x)
  struct : ∀ {i : NodeId} {st : StructFacts}, f.structs[i]? = some st →
    st.decl = i ∧ ∃ s ms as, a.shape? i = some (.decl (.struct s ms as))
  made : ∀ {n : VariableId} {v : VariableFacts}, f.vars[n]? = some v →
    ∃ w, a.asVariable? v.decl = some w ∧
    v = { Resolve.variableFacts a v.decl w v.scope v.type with users := v.users }

theorem Sound.empty (a : Arena) : Sound a {} := ⟨by simp, by simp, by simp, by simp, by simp⟩

variable {a : Arena} {f : Facts}

theorem Sound.addVariable (h : f.Sound a) {id : NodeId} {w : VariableShape Symbol NodeId}
    (hw : a.asVariable? id = some w) (scope : VariableScope) (t : Option Ty) :
    (f.addVariable (Resolve.variableFacts a id w scope t)).Sound a where
  latest {i n} hi := by
    simp only [Facts.addVariable, Std.TreeMap.getElem?_insert] at hi ⊢
    split at hi
    · next hc =>
      cases hi
      exact ⟨Resolve.variableFacts a id w scope t, by simp, by simpa using hc⟩
    · obtain ⟨u, hu, hd⟩ := h.latest hi
      obtain ⟨hlt, hget⟩ := Array.getElem?_eq_some_iff.1 hu
      exact ⟨u, by rw [Array.getElem?_push_lt hlt, hget], hd⟩
  expr := h.expr
  user {n u} hu x hx := by
    simp only [Facts.addVariable, Array.getElem?_push] at hu
    split at hu
    · cases hu
      simp [Resolve.users_variableFacts] at hx
    · exact h.user hu x hx
  struct := h.struct
  made {n u} hu := by
    simp only [Facts.addVariable, Array.getElem?_push] at hu
    split at hu
    · cases hu
      refine ⟨w, by rwa [Resolve.decl_variableFacts], ?_⟩
      rw [Resolve.decl_variableFacts, Resolve.scope_variableFacts, Resolve.type_variableFacts]
    · exact h.made hu

end Facts

namespace Resolve

variable {a : Arena} {r r' : Resolver}

theorem Change.sound (h : Change a r r') (hr : r.facts.Sound a) : r'.facts.Sound a := by
  cases h with
  | noted h _ => rwa [h]
  | reported _ _ => exact hr
  | typed | called => exact ⟨hr.latest, hr.expr, hr.user, hr.struct, hr.made⟩
  | structured st types hs hd =>
    refine ⟨hr.latest, hr.expr, hr.user, fun {i st'} hi => ?_, hr.made⟩
    simp only [Std.TreeMap.getElem?_insert] at hi
    split at hi
    · next hc =>
      cases hi
      obtain rfl : _ = i := by simpa using hc
      exact ⟨hd, _, _, _, hs⟩
    · exact hr.struct hi
  | @expr id x e hx =>
    refine ⟨hr.latest, fun {i e'} hi => ?_, hr.user, hr.struct, hr.made⟩
    simp only [Std.TreeMap.getElem?_insert] at hi
    split at hi
    · next hc => exact ⟨x, by simpa using (show id = i by simpa using hc) ▸ hx⟩
    · exact hr.expr hi
  | mistaken id e =>
    refine ⟨hr.latest, fun {i e'} hi => ?_, hr.user, hr.struct, hr.made⟩
    simp only [Std.TreeMap.getElem?_erase, Std.TreeMap.getElem?_insert] at hi
    split at hi
    · cases hi
    · exact hr.expr hi
  | made scope t hw => exact hr.addVariable hw scope t
  | @used id x number hx =>
    have hmodify : ∀ (n : VariableId) (v : VariableFacts), r.facts.vars[n]? = some v →
        ∃ u : VariableFacts,
        (r.facts.vars.modify number fun v => { v with users := v.users ++ [id] })[n]? = some u ∧
          u.decl = v.decl := by
      intro n v hv
      rw [Array.getElem?_modify, hv]
      split
      · exact ⟨{ v with users := v.users ++ [id] }, rfl, rfl⟩
      · exact ⟨v, rfl, rfl⟩
    refine ⟨fun {i n} hi => ?_, hr.expr, fun {n v} hv u hu => ?_, hr.struct, fun {n v} hv => ?_⟩
    · obtain ⟨v, hv, hd⟩ := hr.latest hi
      obtain ⟨u, hu, hud⟩ := hmodify n v hv
      exact ⟨u, hu, hud.trans hd⟩
    · rw [Array.getElem?_modify] at hv
      split at hv
      · obtain ⟨v', hv', rfl⟩ := Option.map_eq_some_iff.1 hv
        rcases List.mem_append.1 hu with hu | hu
        · exact hr.user hv' u hu
        · exact ⟨x, List.mem_singleton.1 hu ▸ hx⟩
      · exact hr.user hv u hu
    · rw [Array.getElem?_modify] at hv
      split at hv
      · obtain ⟨v', hv', rfl⟩ := Option.map_eq_some_iff.1 hv
        obtain ⟨w, hw, hsame⟩ := hr.made hv'
        exact ⟨w, hw, congrArg (fun v : VariableFacts => { v with users := v.users ++ [id] }) hsame⟩
      · exact hr.made hv

variable {gs : List NodeId}

theorem Step.sound (h : Step a gs r r') (hr : r.facts.Sound a) : r'.facts.Sound a := by
  cases h with
  | change h => exact h.sound hr
  | stmts => exact ⟨hr.latest, hr.expr, hr.user, hr.struct, hr.made⟩
  | summary =>
    obtain ⟨functions, entryPoints, h⟩ := r.facts.summarize_eq gs
    dsimp only
    rw [h]
    exact ⟨hr.latest, hr.expr, hr.user, hr.struct, hr.made⟩

theorem sound_of_steps (h : Relation.ReflTransGen (Step a gs) r r') (hr : r.facts.Sound a) :
    r'.facts.Sound a := by
  induction h with
  | refl => exact hr
  | tail _ hs ih => exact hs.sound ih

theorem Change.entryPoints (h : Change a r r') : r'.facts.entryPoints = r.facts.entryPoints := by
  cases h with
  | noted h _ => rw [h]
  | _ => rfl

/-- Entry points are declarations of the module. -/
theorem Step.entryPoints (h : Step a gs r r') (hr : r.facts.entryPoints ⊆ gs) :
    r'.facts.entryPoints ⊆ gs := by
  cases h with
  | change h => rwa [h.entryPoints]
  | stmts => exact hr
  | summary => exact Facts.entryPoints_summarize r.facts hr

theorem entryPoints_of_steps (h : Relation.ReflTransGen (Step a gs) r r')
    (hr : r.facts.entryPoints ⊆ gs) : r'.facts.entryPoints ⊆ gs := by
  induction h with
  | refl => exact hr
  | tail _ hs ih => exact hs.entryPoints ih

/-- All problems are errors. -/
abbrev Blaming (r : Resolver) : Prop := ∀ d ∈ r.diagnostics, d.isError = true

theorem Change.blaming (h : Change a r r') (hr : Blaming r) : Blaming r' := by
  cases h with
  | noted _ h =>
    intro d hd
    exact hr d (h ▸ hd)
  | reported d hd => exact List.forall_mem_append.2 ⟨hr, List.forall_mem_singleton.2 hd⟩
  | _ => exact hr

theorem blaming_of_steps (h : Relation.ReflTransGen (Step a gs) r r') (hr : Blaming r) :
    Blaming r' := by
  induction h with
  | refl => exact hr
  | tail _ hs ih =>
    cases hs with
    | change h => exact h.blaming ih
    | _ => exact ih

/-- Names that cannot be told apart are errors too. -/
theorem isError_of_mem_collect (a : Arena) (gs : List NodeId) {x : Frame × Diagnostics}
    (hx : ∀ d ∈ x.2, d.isError = true) : ∀ d ∈ (gs.foldl (collect a) x).2, d.isError = true := by
  induction gs generalizing x with
  | nil => exact hx
  | cons g gs ih =>
    refine ih ?_
    have hmore : ∀ d : Diagnostic, d.isError = true → ∀ e ∈ x.2 ++ [d],
        e.isError = true := fun d hd =>
      List.forall_mem_append.2 ⟨hx, List.forall_mem_singleton.2 hd⟩
    unfold collect
    dsimp only
    split
    · exact hmore _ rfl
    · split
      · exact hmore _ rfl
      · exact hx

/-- What comes after the declarations other than functions. -/
theorem steps_functions (c : Scene) (globals : List NodeId) : Moves (Step c.arena globals) (do
    for id in globals do
      if let some f := c.arena.function? id then signature c id f
    for id in globals do
      if let some f := c.arena.function? id then body c id f
    mapFacts (·.summarize globals)) := by
  refine .bind (.forIn _ fun id _ => ?_) fun _ => .bind (.forIn _ fun id _ => ?_) fun _ =>
    .modify fun r => ?_
  · split
    · exact .bind (moves_signature c id _).steps fun _ => .pure _
    · exact .pure _
  · split
    · exact .bind (steps_body id _) fun _ => .pure _
    · exact .pure _
  · exact .summary

theorem steps_module (c : Scene) (globals : List NodeId) :
    Moves (Step c.arena globals) (module c globals) := by
  unfold module
  refine .bind (.forIn _ fun id _ => ?_) fun _ => steps_functions c globals
  split
  · exact .bind (moves_declaration c id).steps fun _ => .pure _
  · exact .pure _

end Resolve

theorem sound_resolve (a : Arena) (globals : List NodeId) (held : Nat) :
    (resolve a globals held).1.Sound a := by
  have hstart : ({ diagnostics := (globals.foldl (Resolve.collect a) ([], [])).2 } :
    Resolver).facts.Sound a :=
    .empty a
  exact Resolve.sound_of_steps (Resolve.steps_module ⟨a, _, _⟩ globals _).run hstart

/-- Resolution reports nothing but errors. -/
theorem isError_of_mem_resolve (a : Arena) (globals : List NodeId) (held : Nat) :
    ∀ d ∈ (resolve a globals held).2, d.isError = true := by
  have hstart : Resolve.Blaming { diagnostics := (globals.foldl (Resolve.collect a) ([], [])).2 } :=
    Resolve.isError_of_mem_collect a globals fun _ hd => absurd hd List.not_mem_nil
  exact Resolve.blaming_of_steps (Resolve.steps_module ⟨a, _, _⟩ globals _).run hstart

namespace Program

/-- A valid program that had no problems before it was resolved has none. -/
theorem diagnostics_build {b : Builder} (hv : b.build.valid = true) (h : b.diagnostics = []) :
    b.build.diagnostics = [] := by
  have hb : b.build.diagnostics = (resolve b.build.toArena b.globals b.build.treeIds.length).2 := by
    simp only [Builder.build, h]
    rfl
  rw [valid, Diagnostics.hasErrors, Bool.not_eq_true', List.any_eq_false] at hv
  refine List.eq_nil_iff_forall_not_mem.2 fun d hd => hv d hd ?_
  rw [hb] at hd
  exact isError_of_mem_resolve _ _ _ d hd

/-- The entry points of a program are declarations of its module. -/
theorem entryPoints_build (b : Builder) : b.build.facts.entryPoints ⊆ b.build.globals := by
  rw [Builder.globals_build]
  unfold Builder.build
  dsimp only
  split
  · exact List.nil_subset _
  · exact Resolve.entryPoints_of_steps (Resolve.steps_module ⟨_, _, _⟩ b.globals _).run
      (List.nil_subset _)

/-- A program that was built, possibly with more diagnostics since. -/
def Built (p : Program) : Prop := ∃ b : Builder, ∃ ds, p = b.build.withDiagnostics ds

theorem Built.sound {p : Program} (h : p.Built) : p.facts.Sound p.toArena := by
  obtain ⟨b, ds, rfl⟩ := h
  change b.build.facts.Sound b.build.toArena
  unfold Builder.build
  dsimp only
  split
  · exact .empty _
  · exact sound_resolve _ _ _

theorem Built.recorded {p : Program} (h : p.Built) : p.Recorded where
  decl {i v} hv := by
    obtain ⟨n, hn, hv⟩ := Option.bind_eq_some_iff.1 hv
    obtain ⟨u, hu, hd⟩ := h.sound.latest hn
    exact Option.some.inj (hv.symm.trans hu) ▸ hd
  expr he := by
    obtain ⟨x, hx⟩ := h.sound.expr he
    simp [Arena.NoStatement, hx, Shape.isStatement]
  user {i v u} hv hu := by
    obtain ⟨n, _, hv⟩ := Option.bind_eq_some_iff.1 hv
    obtain ⟨x, hx⟩ := h.sound.user hv u hu
    simp [Arena.NoStatement, hx, Shape.isStatement]

end Program
end ShaderLoom
