import ShaderLoom.Proofs.Meaning.ExpressionSteps
import ShaderLoom.Proofs.Meaning.ModuleTypes
import ShaderLoom.Proofs.Meaning.Records

/-! Which modules are resolved to an end. A variable of the module is resolved where it is first
used, and one whose initializer leads back to it is looked for again and again. Within its bound
resolution breaks off just then: in a founded module it never does, and where it never does the
module is founded. -/
namespace ShaderLoom

/-- Resolution was broken off. -/
def Resolver.Endless (r : Resolver) : Prop := ∃ d ∈ r.diagnostics, d.message = Resolve.endless

theorem Resolver.Endless.later {r r' : Resolver} (h : r.Endless)
    (hd : r.diagnostics <+: r'.diagnostics) : r'.Endless :=
  h.imp fun _ hx => ⟨hd.subset hx.1, hx.2⟩

theorem Program.endless_iff {p : Program} :
    p.endless = true ↔ ∃ d ∈ p.diagnostics, d.message = Resolve.endless := by
  simp [Program.endless]

namespace Resolve

variable {α β ι : Type} {r r' : Resolver}

/-- What is told apart by its first letter from the sign of a resolution that never ends. -/
theorem ne_endless {message : String} (h : message.toList.head? ≠ some 'd') :
    message ≠ endless := by
  rintro rfl
  exact h (by decide)

theorem endless_report {d : Diagnostic} (hd : d.message ≠ endless)
    (h : Resolver.Endless { r with diagnostics := r.diagnostics ++ [d] }) : r.Endless := by
  obtain ⟨x, hx, hmessage⟩ := h
  rcases List.mem_append.1 hx with hx | hx
  · exact ⟨x, hx, hmessage⟩
  · rw [List.mem_singleton.1 hx] at hmessage
    exact absurd hmessage hd

theorem head_indexed {t : Option Ty} {message : String}
    (h : t.map indexed = some (.error message)) : message.toList.head? ≠ some 'd' := by
  obtain ⟨t, _, h⟩ := Option.map_eq_some_iff.1 h
  unfold indexed at h
  split at h <;> cases h
  simp [toString]

theorem head_selected {f : Facts} {name : String} {t : Option Ty} {message : String}
    (h : t.map (selected f name) = some (.error message)) : message.toList.head? ≠ some 'd' := by
  obtain ⟨t, _, h⟩ := Option.map_eq_some_iff.1 h
  unfold selected at h
  split at h
  · split at h <;> cases h
    simp [toString]
  · split at h <;> cases h
    simp [toString]
  · cases h
    simp [toString]

/-- Nothing is pending and local names are known: where expressions are resolved. -/
structure Poised (r : Resolver) : Prop where
  pending : r.pending = []
  known : LocalsKnown r.frames r.facts.table

/-- From where expressions are resolved the step leads to where they are, and is not broken off. -/
def Sober (step : Resolve α) : Prop :=
  ∀ r, Poised r → Ends step r fun _ r' => Poised r' ∧ (r'.Endless → r.Endless)

theorem Poised.mono (h : Poised r) (hpending : r'.pending = r.pending)
    (hframes : r'.frames = r.frames)
    (hlatest : ∀ x, (r.facts.table.latest x).isSome → (r'.facts.table.latest x).isSome) :
    Poised r' :=
  ⟨hpending.trans h.pending, hframes ▸ h.known.mono hlatest⟩

namespace Sober

theorem pure (a : α) : Sober (pure a : Resolve α) := fun _ h => .pure ⟨h, id⟩

theorem bind {step : Resolve β} {next : β → Resolve α} (h : Sober step) (h' : ∀ b, Sober (next b)) :
    Sober (step >>= next) := fun r hr =>
  .bind ((h r hr).mono fun b r₁ h₁ => (h' b r₁ h₁.1).mono fun _ _ h₂ => ⟨h₂.1, h₁.2 ∘ h₂.2⟩)

theorem get {next : Resolver → Resolve α} (h : ∀ r, Sober (next r)) :
    Sober (get >>= next) := fun r hr =>
  .get (h r r hr)

theorem mapM {step : ι → Resolve β} {xs : List ι} (h : ∀ x ∈ xs, Sober (step x)) :
    Sober (xs.mapM step) := by
  induction xs with
  | nil => exact .pure _
  | cons x xs ih =>
    rw [List.mapM_cons]
    exact .bind (h x List.mem_cons_self) fun _ =>
      .bind (ih fun y hy => h y (List.mem_cons_of_mem _ hy)) fun _ => .pure _

theorem forM {step : ι → Resolve PUnit} {xs : List ι} (h : ∀ x ∈ xs, Sober (step x)) :
    Sober (xs.forM step) := by
  induction xs with
  | nil => exact .pure _
  | cons x xs ih =>
    exact .bind (h x List.mem_cons_self) fun _ => ih fun y hy => h y (List.mem_cons_of_mem _ hy)

theorem forIn {body : ι → PUnit → Resolve (ForInStep PUnit)} {xs : List ι}
    (h : ∀ x ∈ xs, ∀ u, Sober (body x u)) : Sober (forIn xs PUnit.unit body) := by
  induction xs with
  | nil => exact .pure _
  | cons x xs ih =>
    rw [List.forIn_cons]
    refine .bind (h x List.mem_cons_self ⟨⟩) fun o => ?_
    cases o with
    | done _ => exact .pure _
    | yield _ => exact ih fun y hy => h y (List.mem_cons_of_mem _ hy)

/-- A step that finds no problem and forgets no variable. -/
theorem of_finds {step : Resolve α}
    (h : ∀ r, Finds step r fun _ r' => Steady r r' ∧ ∀ x, (r.facts.table.latest x).isSome →
      (r'.facts.table.latest x).isSome) : Sober step := fun r hr =>
  Ends.mono (h r) fun _ _ ⟨hdiagnostics, hsteady, hlatest⟩ =>
    ⟨hr.mono hsteady.pending hsteady.frames hlatest, fun ⟨d, hd, hmessage⟩ =>
      ⟨d, hdiagnostics ▸ hd, hmessage⟩⟩

theorem report (c : Scene) (id : NodeId) {message : String} (h : message.toList.head? ≠ some 'd') :
    Sober (report c id message) :=
  fun _ hr => .modify ⟨hr.mono rfl rfl fun _ h => h, endless_report (ne_endless h)⟩

theorem refuse (c : Scene) (id : NodeId) {message : String} (h : message.toList.head? ≠ some 'd') :
    Sober (refuse c id message) := .bind (.report c id h) fun _ => .pure _

end Sober

section Types

variable {c : Scene}

theorem endless_keepType {i : NodeId} {t : Option Ty} (h : (after (keepType i t) r).Endless) :
    r.Endless := by
  cases t <;> exact h

theorem endless_refuse {i : NodeId} {message : String} (hm : message.toList.head? ≠ some 'd')
    (h : (after (refuse c i message) r).Endless) : r.Endless := endless_report (ne_endless hm) h

/-- What is found out about types is found out without breaking off. -/
theorem Settles.endless {f : TypeFinding} (h : Settles c r f r') : r'.Endless → r.Endless := by
  induction h with
  | plain => exact endless_keepType
  | around _ _ _ ih => exact ih ∘ endless_keepType
  | named _ _ _ _ ih => exact ih ∘ endless_keepType
  | unknown => exact endless_refuse (by simp [toString])
  | untyped => exact endless_refuse (by simp [toString])
  | other => exact endless_refuse (by simp)
  | cyclic => exact endless_refuse (by simp)
  | struct _ _ _ _ ih => exact ih
  | typeAlias _ _ _ _ ih => exact ih ∘ endless_keepType
  | member _ _ _ ih₁ ih₂ => exact ih₁ ∘ ih₂
  | stray _ _ ih => exact ih
  | _ => exact id

/-- Steps of the resolution of types that settle something are sober. -/
theorem sober_settling {step : Resolve α} (hmoves : Moves TypeTouch step)
    (h : ∀ r, Poised r → Ends step r fun _ r' => ∃ f, Settles c r f r') : Sober step := fun r hr =>
  ((h r hr).and (hmoves.idle r)).mono fun _ r' ⟨⟨_, hf⟩, hidle⟩ =>
    ⟨hr.mono hf.pending hidle.frames (by simp only [Facts.table, hidle.latest]; exact fun _ h => h),
      hf.endless⟩

end Types

section Expressions

open Relation (TransGen)

variable {p : Program} {rank : NodeId → Nat}
  (hc : Charted p.scene (fun i => p.inTree i = true) rank p.globals p.treeIds.length)
  (htree : ∀ i x, p.shape? i = some x → p.inTree i = true)
include hc htree

theorem sober_type (i : NodeId) : Sober (type p.scene p.scene.fuel i) :=
  sober_settling ((typeTouch_types p.scene _).1 i) fun _ hr =>
    (settles_type hc (Nat.le_refl _) (by simp [hr.pending]) (by simp [hr.pending]) htree i).mono
      fun _ _ h => ⟨_, h⟩

omit htree in
theorem sober_typeDecl {d : NodeId} (hd : d ∈ p.globals)
    (hdecl : (p.shape? d).any Shape.isTypeDecl = true) : Sober (typeDecl p.scene p.scene.fuel d) :=
  sober_settling ((typeTouch_types p.scene _).2 d) fun _ hr =>
    (settles_typeDecl hc (Nat.le_refl _) (by simp [hr.pending]) (by simp [hr.pending])
      hd hdecl).mono
      fun _ _ h => ⟨_, h⟩

theorem sober_variableType (d : NodeId) (v : VariableShape Symbol NodeId) (t : Option Ty) :
    Sober (variableType p.scene d v t) := by
  unfold variableType
  split
  · exact sober_type hc htree _
  · split
    · exact .pure _
    · exact .refuse _ _ (by simp [toString])

omit hc htree

theorem sober_setExpr (i : NodeId) (e : ExprFacts) : Sober (setExpr i e) :=
  .of_finds fun _ => (finds_setExpr i e).mono fun _ _ h =>
    ⟨h.1, fun _ hx => by rwa [h.2, Table.latest_note]⟩

theorem sober_finish (i : NodeId) (e : ExprFacts) : Sober (finish i e) :=
  .bind (sober_setExpr i e) fun _ => .pure _

theorem sober_useVariable (i stmt : NodeId) (n : VariableId) : Sober (useVariable i { stmt } n) :=
  .of_finds fun _ => (finds_useVariable i stmt n).mono fun _ _ h =>
    ⟨h.2.1, fun _ hx => by rwa [h.2.2, Table.latest_use]⟩

theorem sober_updateFunction {g : FunctionFacts → FunctionFacts} (d : NodeId) :
    Sober (updateFunction d g) :=
  .of_finds fun _ => .mapFacts ⟨⟨rfl, rfl⟩, fun _ h => h⟩

theorem sober_callBuiltin (c : Scene) (i : NodeId) (e : ExprFacts) (name : String)
    (ts : List (Option Ty)) : Sober (callBuiltin c i e name ts) := by
  unfold callBuiltin
  split
  · exact sober_finish i _
  · exact .refuse c i (by simp [toString])

theorem sober_callFunction (c : Scene) (i : NodeId) (e : ExprFacts) (name : String) (d : NodeId) :
    Sober (callFunction c i e name d) := by
  unfold callFunction
  refine .get fun r => ?_
  split
  · exact .refuse c i (by simp [toString])
  · exact .bind (sober_finish i _) fun _ => .bind
      (.of_finds fun _ => (finds_useCallee d).mono fun _ _ h => ⟨h.1, fun _ hx => by rwa [h.2]⟩)
      fun _ => .pure _

include hc htree

theorem sober_callTarget (i : NodeId) (e : ExprFacts) (g : NodeId) (ts : List (Option Ty)) :
    Sober (callTarget p.scene i e g ts) := by
  unfold callTarget
  split
  · exact .bind (sober_type hc htree g) fun _ => sober_finish i _
  · split
    · exact sober_callBuiltin _ i e _ ts
    · next hfind =>
      have hd := hc.module hfind
      split
      · exact sober_callFunction _ i e _ _
      · next hs => exact .bind (sober_typeDecl hc hd
          (by simp [show p.shape? _ = _ from hs, Shape.isTypeDecl])) fun _ => sober_finish i _
      · next hs => exact .bind (sober_typeDecl hc hd
          (by simp [show p.shape? _ = _ from hs, Shape.isTypeDecl])) fun _ => sober_finish i _
      · exact sober_callBuiltin _ i e _ ts
  · exact .refuse _ i (by simp)

/-- A variable is made soberly after a sober initializer: its name is known as soon as it is
declared. -/
theorem sober_variable {n : Nat} (d : NodeId) {v : VariableShape Symbol NodeId}
    (scope : VariableScope) (h : Sober (expr p.scene n v.initializer)) :
    Sober (resolveVariable p.scene (n + 1) d v scope) := by
  unfold resolveVariable
  refine .bind h fun t r hr => ?_
  have hmake : ∀ (t : Option Ty) (r : Resolver),
      Ends (makeVariable p.scene d v scope t) r fun _ r' =>
      r'.pending = r.pending ∧ (r'.Endless → r.Endless) := by
    intro t r
    have hlast : ∀ r₁ : Resolver, r₁.pending = r.pending ∧ (r₁.Endless → r.Endless) → Ends (do
        let number := (← MonadState.get).facts.vars.size
        mapFacts (·.addVariable (variableFacts p.scene.arena d v scope t))
        return some number) r₁ fun _ r' => r'.pending = r.pending ∧ (r'.Endless → r.Endless) :=
      fun r₁ h₁ => .get (.bind (.modify (.pure h₁)))
    unfold makeVariable
    split
    · refine .bind ((Program.ends_declareLocal v.name d r).mono fun new r₁ ⟨frames, hr₁, _⟩ => ?_)
      subst hr₁
      cases new with
      | true => exact hlast _ ⟨rfl, id⟩
      | false =>
        have hmessage : s!"redeclaration of '{p.scene.arena.nameOf v.name}'" ≠ endless :=
          ne_endless (by simp [toString])
        exact .bind (.modify (hlast _ ⟨rfl, endless_report hmessage⟩))
    · exact hlast r ⟨rfl, id⟩
  have hboth : Ends (variableType p.scene d v t >>= makeVariable p.scene d v scope) r fun _ r' =>
      r'.pending = r.pending ∧ (r'.Endless → r.Endless) :=
    .bind ((sober_variableType hc htree d v t r hr).mono fun u r₁ h₁ =>
      (hmake u r₁).mono fun _ _ h₂ =>
      ⟨h₂.1.trans (h₁.1.pending.trans hr.pending.symm), h₁.2 ∘ h₂.2⟩)
  have hknown : Ends (variableType p.scene d v t >>= makeVariable p.scene d v scope) r fun _ r' =>
      p.Makes [] d r r' := Program.makes_variable p.scene d v scope t r
  exact (hboth.and hknown).mono fun _ r' h' =>
    ⟨⟨h'.1.1.trans hr.pending, h'.2.known hr.known⟩, h'.1.2⟩

/-- In a founded module no expression is broken off. Those that resolution is inside of lead to it,
so that it is none of them, and the bound leaves room for all that there are. -/
theorem sober_expressions (hf : p.Founded) (n : Nat) (e : NodeId) (S : List NodeId)
    (hnodup : S.Nodup) (hS : ∀ y ∈ S, p.inTree y = true)
    (hlead : ∀ y ∈ S, TransGen (Leads p.toArena p.scene.module) y e)
    (hn : 2 * (p.treeIds.length - S.length) + 2 ≤ n) : Sober (expr p.scene n e) := by
  induction n using Nat.strongRecOn generalizing e S with
  | ind n ih =>
    -- one level deeper, or two below a call or a variable, with the expression among those outside
    have hdeeper : ∀ {x}, p.shape? e = some (.expr x) → ∃ k, n = k + 2 ∧
        (∀ i, Leads p.toArena p.scene.module e i → Sober (expr p.scene k i) ∧
          Sober (expr p.scene (k + 1) i)) := by
      intro x hx
      have he : p.inTree e = true := htree e _ hx
      have hnot : e ∉ S := fun h => hf e he (hlead e h)
      have hnodup' := List.nodup_cons.2 ⟨hnot, hnodup⟩
      have hS' : ∀ y ∈ e :: S, p.inTree y = true := List.forall_mem_cons.2 ⟨he, hS⟩
      have hlen := hc.nodes _ hnodup' hS'
      rw [List.length_cons] at hlen
      refine ⟨n - 2, by omega, fun i hi => ?_⟩
      have hlead' : ∀ y ∈ e :: S, TransGen (Leads p.toArena p.scene.module) y i :=
        List.forall_mem_cons.2 ⟨.single hi, fun y hy => (hlead y hy).tail hi⟩
      exact ⟨ih (n - 2) (by omega) i (e :: S) hnodup' hS' hlead' (by rw [List.length_cons]; omega),
        ih (n - 2 + 1) (by omega) i (e :: S) hnodup' hS' hlead' (by rw [List.length_cons]; omega)⟩
    obtain ⟨m, rfl⟩ : ∃ m, n = m + 1 := ⟨n - 1, by omega⟩
    have hoperand : ∀ {x i}, p.shape? e = some (.expr x) → i ∈ x.operands →
        Sober (expr p.scene m i) := by
      intro x i hx hi
      obtain ⟨k, hk, h⟩ := hdeeper hx
      obtain rfl : m = k + 1 := by omega
      exact (h i (.inl ⟨x, hx, hi⟩)).2
    unfold expr
    split
    · exact .pure _
    refine .get fun r₀ => .bind (sober_setExpr e _) fun _ => ?_
    split
    · next s hs =>
      intro r hr
      refine .bind (.get (.pure ?_))
      split
      · exact Sober.refuse _ e (by simp [toString]) r hr
      · next d hd =>
        have hd : visible p.scene.module r.frames s = some d := hd
        refine .get ?_
        split
        · exact sober_useVariable e _ _ r hr
        · next v hnone hv =>
          have hfind : p.scene.module.find? s = some d := hr.known.find? hd hnone
          obtain ⟨k, hk, h⟩ := hdeeper hs
          obtain rfl : m = k + 1 := by omega
          have hinit := (h v.initializer (.inr ⟨s, d, v, hs, hfind, hv, rfl⟩)).1
          refine Sober.bind (sober_variable hc htree d .global hinit) (fun made => ?_) r hr
          split
          · exact sober_useVariable e _ _
          · exact .pure _
        · exact Sober.refuse _ e (by simp [toString]) r hr
    · exact sober_finish e _
    · exact sober_finish e _
    · exact sober_finish e _
    · next op l k hx =>
      have hl : Sober (expr p.scene m l) := hoperand hx (by simp [ExprShape.operands])
      have hk : Sober (expr p.scene m k) := hoperand hx (by simp [ExprShape.operands])
      exact .bind hl fun _ => .bind hk fun _ => sober_finish e _
    · next op i hx =>
      have hi : Sober (expr p.scene m i) := hoperand hx (by simp [ExprShape.operands])
      exact .bind hi fun _ => sober_finish e _
    · next g args hx =>
      obtain ⟨k, hk, h⟩ := hdeeper hx
      obtain rfl : m = k + 1 := by omega
      rw [call_succ]
      exact .bind (.mapM fun i hi => (h i (.inl ⟨_, hx, by simpa [ExprShape.operands] using hi⟩)).1)
        fun ts =>
        sober_callTarget hc htree e _ g ts
    · next o i hx =>
      have ho : Sober (expr p.scene m o) := hoperand hx (by simp [ExprShape.operands])
      have hi : Sober (expr p.scene m i) := hoperand hx (by simp [ExprShape.operands])
      refine .bind ho fun t => .bind hi fun _ => ?_
      split
      · exact .pure _
      · exact sober_finish e _
      · next message hmessage => exact .refuse _ e (head_indexed hmessage)
    · next o s hx =>
      have ho : Sober (expr p.scene m o) := hoperand hx (by simp [ExprShape.operands])
      refine .bind ho fun t => .get fun r => ?_
      split
      · exact .pure _
      · exact sober_finish e _
      · next message hmessage => exact .refuse _ e (head_selected hmessage)
    · exact .bind (.of_finds fun _ => .mapFacts ⟨⟨rfl, rfl⟩, fun _ h => h⟩) fun _ =>
        .refuse _ e (by simp)

end Expressions
section Statements

variable {p : Program} {rank : NodeId → Nat}
  (hc : Charted p.scene (fun i => p.inTree i = true) rank p.globals p.treeIds.length)
  (htree : ∀ i x, p.shape? i = some x → p.inTree i = true) (hf : p.Founded)

theorem sober_setStmt (i : NodeId) (live : Bool) : Sober (setStmt i live) :=
  .of_finds fun _ => (finds_setStmt i live).mono fun _ _ h => ⟨h.1, fun _ hx => by rwa [h.2]⟩

theorem sober_setBehaviors (i : NodeId) (b : Behaviors) : Sober (setBehaviors i b) :=
  .of_finds fun _ => (finds_setBehaviors i b).mono fun _ _ h => ⟨h.1, fun _ hx => by rwa [h.2]⟩

theorem sober_enter (i : NodeId) : Sober (modify fun r => { r with stmt := i } : Resolve Unit) :=
  fun _ hr => .modify ⟨⟨hr.pending, hr.known⟩, id⟩

theorem sober_pushFrame : Sober pushFrame := fun r hr => .modify ⟨⟨hr.pending, fun L hL x hx => by
  rcases List.mem_cons.1 hL with rfl | hL
  · cases hx
  · exact hr.known L hL x hx⟩, id⟩

theorem sober_popFrame : Sober popFrame := fun _ hr =>
  .modify ⟨⟨hr.pending, fun L hL => hr.known L (List.mem_of_mem_drop hL)⟩, id⟩

theorem sober_inOrder {one : NodeId → Bool → Resolve Behaviors} {is : List NodeId}
    (h : ∀ i ∈ is, ∀ live, Sober (one i live)) (live : Bool) (sofar : Behaviors) :
    Sober (inOrder one live is sofar) := by
  induction is generalizing sofar with
  | nil => exact .pure _
  | cons i is ih =>
    exact .bind (h i List.mem_cons_self _) fun _ =>
      ih (fun j hj => h j (List.mem_cons_of_mem _ hj)) _

include hc htree hf

theorem sober_expr (e : NodeId) : Sober (expr p.scene p.scene.fuel e) := by
  obtain ⟨m, hm, hdeep⟩ := hc.deep
  exact sober_expressions hc htree hf _ e [] .nil (by simp) (by simp)
    (by simp only [List.length_nil]; omega)

theorem sober_resolveVariable (d : NodeId) (v : VariableShape Symbol NodeId)
    (scope : VariableScope) : Sober (resolveVariable p.scene p.scene.fuel d v scope) := by
  obtain ⟨m, hm, hdeep⟩ := hc.deep
  rw [hm]
  exact sober_variable hc htree d scope
    (sober_expressions hc htree hf m v.initializer [] .nil (by simp) (by simp)
      (by simp only [List.length_nil]; omega))

theorem sober_localVariable (d : NodeId) : Sober (localVariable p.scene d) := by
  unfold localVariable
  split
  · exact .bind (sober_resolveVariable hc htree hf d _ .local) fun _ => .pure _
  · exact .pure _

theorem sober_inside {one : NodeId → Bool → Resolve Behaviors} {i : NodeId} {live : Bool}
    (h : ∀ s, p.shape? i = some s → ∀ k ∈ s.slots, (∀ live, Sober (one k live)) ∧
      ∀ ss, p.block? k = some ss → ∀ j ∈ ss, ∀ live, Sober (one j live)) :
    Sober (inside p.scene one i live (p.shape? i)) := by
  have hexpr := sober_expr hc htree hf
  have hone : ∀ {s k}, p.shape? i = some s → k ∈ s.slots → ∀ live, Sober (one k live) :=
    fun hs hk => (h _ hs _ hk).1
  unfold inside
  split
  · next ss hs =>
    have hall := sober_inOrder (fun k hk => hone hs (show k ∈ _ by simpa [Shape.slots] using hk))
      live (.only .next)
    exact .bind sober_pushFrame fun _ => .bind hall fun _ => .bind sober_popFrame fun _ => .pure _
  · exact .bind (sober_localVariable hc htree hf _) fun _ => .pure _
  · exact .bind (hexpr _) fun _ => .bind (hexpr _) fun _ => .pure _
  · exact .bind (hexpr _) fun _ => .pure _
  · exact .bind (hexpr _) fun _ => .pure _
  · next cond body otherwise hs =>
    have hbody := hone hs (k := body) (by simp [Shape.slots]) live
    have hother := hone hs (k := otherwise) (by simp [Shape.slots]) live
    exact .bind (hexpr _) fun _ => .bind hbody fun _ => .bind hother fun _ => .pure _
  · next init cond continuing body hs =>
    have hinit := hone hs (k := init) (by simp [Shape.slots]) live
    have hbody := hone hs (k := body) (by simp [Shape.slots]) live
    have hcontinuing := hone hs (k := continuing) (by simp [Shape.slots]) live
    exact .bind sober_pushFrame fun _ =>
      .bind hinit fun _ => .bind (hexpr _) fun _ => .bind hbody fun _ =>
      .bind hcontinuing fun _ => .bind sober_popFrame fun _ => .pure _
  · next cond body hs =>
    have hbody := hone hs (k := body) (by simp [Shape.slots]) live
    exact .bind (hexpr _) fun _ => .bind hbody fun _ => .pure _
  · next body continuing hs =>
    have hcontinuing := hone hs (k := continuing) (by simp [Shape.slots]) live
    have hopen : Sober (openBody p.scene one body live) := by
      unfold openBody
      split
      · next ss hss =>
        have hall := sober_inOrder ((h _ hs body (by simp [Shape.slots])).2 ss hss)
          live (.only .next)
        exact .bind (sober_setStmt _ _) fun _ =>
          .bind hall fun _ => .bind (sober_setBehaviors _ _) fun _ => .pure _
      · exact .pure _
    exact .bind sober_pushFrame fun _ =>
      .bind hopen fun _ => .bind hcontinuing fun _ => .bind sober_popFrame fun _ =>
      .pure _
  · exact .pure _
  · exact .pure _
  · exact .pure _
  · exact .bind (hexpr _) fun _ => .pure _
  · exact .bind (.report _ i (by simp)) fun _ => .pure _

theorem sober_statement (n : Nat) (i : NodeId) (live : Bool)
    (hi : Level (fun i => p.inTree i = true) rank p.treeIds.length i n) :
    Sober (statement p.scene n i live) := by
  induction n generalizing i live with
  | zero => exact absurd hi (by simp [Level])
  | succ n ih =>
    unfold statement
    split
    · exact .pure _
    · refine .get fun r => .bind (sober_enter i) fun _ => .bind (sober_setStmt i live) fun _ =>
        .bind ?_ fun b =>
        .bind (sober_setBehaviors i b) fun _ => .bind (sober_enter _) fun _ => .pure _
      refine sober_inside hc htree hf fun s hs k hk => ?_
      have hlevel := hc.level_slot hi hs hk
      refine ⟨fun live => ih k live hlevel, fun ss hss j hj live => ih j live ?_⟩
      -- what is in the body of a loop lies one level deeper than the body
      have hshape := Arena.shape?_of_block? hss
      obtain ⟨n, rfl⟩ : ∃ k, n = k + 1 := ⟨n - 1, by rcases hlevel with h | h <;> omega⟩
      rcases hc.level_slot hlevel hshape (show j ∈ _ by simpa [Shape.slots] using hj)
        with ⟨h0, _⟩ | ⟨hj, hdeep⟩
      · exact .inl ⟨h0, by omega⟩
      · exact .inr ⟨hj, by omega⟩

theorem sober_declaration {d : NodeId} (hd : d ∈ p.globals) : Sober (declaration p.scene d) := by
  unfold declaration
  split
  · next hs => exact .bind (sober_typeDecl hc hd
      (by simp [show p.shape? _ = _ from hs, Shape.isTypeDecl])) fun _ => .pure _
  · next hs => exact .bind (sober_typeDecl hc hd
      (by simp [show p.shape? _ = _ from hs, Shape.isTypeDecl])) fun _ => .pure _
  · refine .get fun r => ?_
    split
    · exact .pure _
    · exact .bind (sober_resolveVariable hc htree hf d _ .global) fun _ => .pure _
  · exact .pure _

omit hf in
theorem sober_signature (g : NodeId) (f : FunctionShape Symbol NodeId) :
    Sober (signature p.scene g f) := by
  unfold signature
  refine .bind (.of_finds fun _ => .mapFacts ⟨⟨rfl, rfl⟩, fun _ h => h⟩) fun _ => ?_
  split
  · exact .bind (sober_type hc htree _) fun _ => sober_updateFunction g
  · exact .bind (.pure _) fun _ => sober_updateFunction g

theorem sober_parameter (g d : NodeId) : Sober (parameter p.scene g d) := by
  unfold parameter
  split
  · split
    · exact .bind (sober_resolveVariable hc htree hf d _ .parameter) fun _ => sober_updateFunction g
    · exact .report _ d (by simp)
  · exact .report _ d (by simp)

theorem sober_body {g : NodeId} {f : FunctionShape Symbol NodeId} (hg : g ∈ p.globals)
    (hfun : p.function? g = some f) : Sober (body p.scene g f) := by
  have hslot : f.body = 0 ∨ p.inTree f.body = true :=
    (hc.slot (hc.globals g hg) (Arena.shape?_of_function? hfun) (by simp [Shape.slots])).imp_right
      And.left
  have hlevel : Level (fun i => p.inTree i = true) rank p.treeIds.length f.body p.scene.fuel := by
    obtain ⟨m, hm, hdeep⟩ := hc.deep
    exact hslot.imp (fun h => ⟨h, by omega⟩) fun h => ⟨h, by omega⟩
  unfold body
  refine .bind (fun r hr => .modify ⟨⟨hr.pending, by simp [LocalsKnown]⟩, id⟩) fun _ =>
    .bind (.forM fun d _ => sober_parameter hc htree hf g d) fun _ =>
    .bind (sober_statement hc htree hf _ _ _ hlevel) fun _ =>
      .bind (sober_updateFunction g) fun _ =>
    fun r hr => .modify ⟨⟨hr.pending, by simp [LocalsKnown]⟩, id⟩

/-- Resolution of a founded module is not broken off. -/
theorem sober_module : Sober (module p.scene p.globals) := by
  unfold module
  refine .bind (.forIn fun d hd _ => ?_) fun _ => .bind (.forIn fun d hd _ => ?_) fun _ =>
    .bind (.forIn fun d hd _ => ?_) fun _ => fun r hr => .modify ?_
  · split
    · exact .bind (sober_declaration hc htree hf hd) fun _ => .pure _
    · exact .pure _
  · split
    · exact .bind (sober_signature hc htree d _) fun _ => .pure _
    · exact .pure _
  · split
    · next f hfun => exact .bind (sober_body hc htree hf hd hfun) fun _ => .pure _
    · exact .pure _
  · exact ⟨hr.mono rfl rfl (by rw [Facts.table_summarize]; exact fun _ h => h), id⟩

end Statements
section Groundings

/-- That something was broken off is not taken back by steps none of which takes it back. -/
theorem Moves.endless {change : Resolver → Resolver → Prop} {step : Resolve α}
    (h : Moves change step) (hchange : ∀ {r r'}, change r r' → r.Endless → r'.Endless)
    (r : Resolver) : Ends step r fun _ r' => r.Endless → r'.Endless :=
  (h r).mono fun _ r' hr he => by
    induction hr with
    | refl => exact he
    | tail _ ht ih => exact hchange ht ih

theorem TypeTouch.endless (h : TypeTouch r r') (hr : r.Endless) : r'.Endless := by
  cases h with
  | report d _ => exact hr.later (List.prefix_append _ _)
  | _ => exact hr

theorem Step.endless {a : Arena} {gs : List NodeId} (h : Step a gs r r') (hr : r.Endless) :
    r'.Endless := by
  cases h with
  | change h =>
    cases h with
    | reported d _ => exact hr.later (List.prefix_append _ _)
    | noted _ hd => exact hr.later (hd ▸ List.prefix_rfl)
    | _ => exact hr
  | _ => exact hr

variable {p : Program} {es es' : List NodeId}

/-- If it starts at module scope the step grounds some expressions and the variables that it makes,
unless it is broken off. -/
def GroundsFrom (p : Program) (es : List NodeId) (step : Resolve α) (r : Resolver) : Prop :=
  Ends step r fun _ r' => (r.Endless → r'.Endless) ∧
    (r.frames = [] → GroundedIn p.toArena p.scene.module r.facts.table → r'.Endless ∨
      r'.frames = [] ∧ GroundedIn p.toArena p.scene.module r'.facts.table ∧
        ∀ e ∈ es, Grounded p.toArena p.scene.module e)

/-- The step grounds the expressions wherever it starts. -/
def Grounds (p : Program) (es : List NodeId) (step : Resolve α) : Prop :=
  ∀ r, GroundsFrom p es step r

namespace Grounds

theorem pure (a : α) : Grounds p [] (pure a : Resolve α) := fun _ =>
  .pure ⟨id, fun hr hg => .inr ⟨hr, hg, by simp⟩⟩

theorem bind {step : Resolve β} {next : β → Resolve α} (h : Grounds p es step)
    (h' : ∀ b, Grounds p es' (next b)) : Grounds p (es ++ es') (step >>= next) := fun r =>
  .bind ((h r).mono fun b r₁ ⟨hkept, h₁⟩ => (h' b r₁).mono fun _ _ ⟨hkept', h₂⟩ =>
    ⟨hkept' ∘ hkept, fun hr hg => (h₁ hr hg).elim (.inl ∘ hkept') fun ⟨hr₁, hg₁, hes⟩ =>
      (h₂ hr₁ hg₁).imp_right fun ⟨hr₂, hg₂, hes'⟩ =>
        ⟨hr₂, hg₂, fun e he => (List.mem_append.1 he).elim (hes e) (hes' e)⟩⟩)

theorem get {next : Resolver → Resolve α} (h : ∀ r, Grounds p es (next r)) :
    Grounds p es (get >>= next) := fun r =>
  .get (h r r)

/-- What is grounded if some expressions and the variables known before are, is grounded too. -/
theorem also {step : Resolve α} (h : Grounds p es step) {r : Resolver}
    (hes : r.frames = [] → GroundedIn p.toArena p.scene.module r.facts.table →
      (∀ e ∈ es, Grounded p.toArena p.scene.module e) →
      ∀ e ∈ es', Grounded p.toArena p.scene.module e) : GroundsFrom p es' step r :=
  Ends.mono (h r) fun _ _ ⟨hkept, h'⟩ =>
    ⟨hkept, fun hr hg => (h' hr hg).imp_right fun ⟨hr', hg', he⟩ =>
    ⟨hr', hg', hes hr hg he⟩⟩

theorem mono {step : Resolve α} (h : Grounds p es step)
    (hes : (∀ e ∈ es, Grounded p.toArena p.scene.module e) →
      ∀ e ∈ es', Grounded p.toArena p.scene.module e) : Grounds p es' step :=
  fun _ => h.also fun _ _ => hes

theorem mapM {step : NodeId → Resolve β} {xs : List NodeId} (h : ∀ x ∈ xs, Grounds p [x] (step x)) :
    Grounds p xs (xs.mapM step) := by
  induction xs with
  | nil => exact .pure _
  | cons x xs ih =>
    rw [List.mapM_cons]
    have hrest := ih fun y hy => h y (List.mem_cons_of_mem _ hy)
    have hall : Grounds p ([x] ++ (xs ++ []))
        (step x >>= fun y => xs.mapM step >>= fun ys => Pure.pure (y :: ys)) :=
      .bind (h x List.mem_cons_self) fun _ => .bind hrest fun _ => .pure _
    simpa using hall

/-- A step that keeps levels and variables, and does not take back that something was broken off. -/
theorem of_kept {step : Resolve α}
    (h : ∀ r, Ends step r fun _ r' => r'.frames = r.frames ∧
      r'.facts.table.latest = r.facts.table.latest ∧ (r.Endless → r'.Endless)) :
    Grounds p [] step := fun r =>
  (h r).mono fun _ r' ⟨hframes, hlatest, hendless⟩ => ⟨hendless,
    fun hr hg => .inr ⟨hframes.trans hr, hg.of_latest hlatest, by simp⟩⟩

theorem of_finds {step : Resolve α} (h : ∀ r, Finds step r fun _ r' => Steady r r' ∧
    r'.facts.table.latest = r.facts.table.latest) : Grounds p [] step :=
  .of_kept fun r => Ends.mono (h r) fun _ _ ⟨hd, hs, hl⟩ =>
    ⟨hs.frames, hl, fun ⟨d, hmem, hm⟩ => ⟨d, hd ▸ hmem, hm⟩⟩

theorem of_types {step : Resolve α} (h : Moves TypeTouch step) : Grounds p [] step :=
  .of_kept fun r => ((h.idle r).and (h.endless TypeTouch.endless r)).mono fun _ r' h' =>
    ⟨h'.1.frames, by simp only [Facts.table, h'.1.latest], h'.2⟩

theorem refuse (c : Scene) (id : NodeId) (message : String) : Grounds p [] (refuse c id message) :=
  .of_types (typeTouch_refuse c id message)

/-- Breaking off grounds whatever one likes. -/
theorem tooDeep (c : Scene) (id : NodeId) : Grounds p es (tooDeep c id) := fun r =>
  have hend : Resolver.Endless { r with
      diagnostics :=
        r.diagnostics ++ [Diagnostic.errorAt .resolver endless (c.arena.spanOf id)] } :=
    ⟨_, List.mem_append_right _ (List.mem_singleton.2 rfl), rfl⟩
  .bind (.modify (.pure ⟨fun _ => hend, fun _ _ => .inl hend⟩))

end Grounds

theorem grounds_finish (i : NodeId) (e : ExprFacts) : Grounds p [] (finish i e) :=
  .of_finds fun _ => (finds_finish i e).mono fun _ _ h => ⟨h.2.1, by rw [h.2.2, Table.latest_note]⟩

theorem grounds_useVariable (i stmt : NodeId) (n : VariableId) :
    Grounds p [] (useVariable i { stmt } n) :=
  .of_finds fun _ => (finds_useVariable i stmt n).mono fun _ _ h =>
    ⟨h.2.1, by rw [h.2.2, Table.latest_use]⟩

theorem grounds_callTarget (i : NodeId) (e : ExprFacts) (g : NodeId) (ts : List (Option Ty)) :
    Grounds p [] (callTarget p.scene i e g ts) := by
  have hbuiltin : ∀ name, Grounds p [] (callBuiltin p.scene i e name ts) := by
    intro name
    unfold callBuiltin
    split
    · exact grounds_finish i _
    · exact .refuse _ i _
  unfold callTarget
  split
  · exact .bind (.of_types ((typeTouch_types _ _).1 g)) fun _ => grounds_finish i _
  · split
    · exact hbuiltin _
    · split
      · unfold callFunction
        refine .get fun r => ?_
        split
        · exact .refuse _ i _
        · exact .bind (grounds_finish i _) fun _ => .bind
            (.of_finds fun _ => (finds_useCallee _).mono fun _ _ h => ⟨h.1, by rw [h.2]⟩) fun _ =>
              .pure _
      · exact .bind (.of_types ((typeTouch_types _ _).2 _)) fun _ => grounds_finish i _
      · exact .bind (.of_types ((typeTouch_types _ _).2 _)) fun _ => grounds_finish i _
      · exact hbuiltin _
  · exact .refuse _ i _

theorem grounds_variable {n : Nat} {d : NodeId} {v : VariableShape Symbol NodeId}
    (hv : p.asVariable? d = some v) (h : Grounds p [v.initializer] (expr p.scene n v.initializer)) :
    Grounds p [v.initializer] (resolveVariable p.scene (n + 1) d v .global) := by
  unfold resolveVariable
  have hinit : Grounds p ([v.initializer] ++ [])
      (expr p.scene n v.initializer >>= variableType p.scene d v) :=
    .bind h fun t => .of_types (typeTouch_variableType p.scene d v t)
  intro r
  have hboth : Ends ((expr p.scene n v.initializer >>= variableType p.scene d v) >>=
    makeVariable p.scene d v .global) r
      fun _ r' => (r.Endless → r'.Endless) ∧
        (r.frames = [] → GroundedIn p.toArena p.scene.module r.facts.table →
        r'.Endless ∨ r'.frames = [] ∧ GroundedIn p.toArena p.scene.module r'.facts.table ∧
          ∀ e ∈ [v.initializer], Grounded p.toArena p.scene.module e) := by
    refine .bind ((hinit r).mono fun t r₁ ⟨hkept, h₁⟩ => ?_)
    refine Ends.mono (finds_makeVariable (Γ := r₁.frames) r₁ (by rw [declareAs, if_pos rfl])) ?_
    rintro _ r₂ ⟨hdiagnostics, _, _, hframes, htable⟩
    have hlater : r₁.Endless → r₂.Endless := fun he => he.later (hdiagnostics ▸ List.prefix_rfl)
    refine ⟨hlater ∘ hkept, fun hr hg => (h₁ hr hg).imp hlater fun h => ?_⟩
    obtain ⟨hr₁, hg₁, hes⟩ := h
    refine ⟨hframes.trans hr₁, ?_, by simpa using hes⟩
    rw [htable]
    refine hg₁.addValue fun w hw => ?_
    cases hv.symm.trans hw
    simpa using hes
  rwa [bind_assoc] at hboth

/-- Expressions at module scope are grounded once they are resolved. -/
theorem grounds_expressions (n : Nat) :
    (∀ e, Grounds p [e] (expr p.scene n e)) ∧
    (∀ i x g args, Grounds p args (call p.scene n i x g args)) ∧
    ∀ d v, p.asVariable? d = some v →
      Grounds p [v.initializer] (resolveVariable p.scene n d v .global) := by
  induction n with
  | zero =>
    refine ⟨fun e => ?_, fun i x g args => ?_, fun d v _ => ?_⟩
    · unfold expr
      exact .tooDeep _ e
    · unfold call
      exact .tooDeep _ i
    · unfold resolveVariable
      have hbreak : Grounds p [v.initializer] (tooDeep p.scene d) := .tooDeep p.scene d
      simpa using hbreak.bind fun _ => Grounds.pure (none : Option VariableId)
  | succ n ih =>
    obtain ⟨ihExpr, ihCall, ihVariable⟩ := ih
    refine ⟨fun e => ?_, fun i x g args => ?_,
      fun d v hv => grounds_variable hv (ihExpr v.initializer)⟩
    · -- an expression other than an identifier is grounded by its operands
      have hnode : ∀ {x : ExprShape Symbol NodeId}, p.shape? e = some (.expr x) →
          (∀ s, x ≠ .ident s) →
          (∀ i ∈ x.operands, Grounded p.toArena p.scene.module i) →
          ∀ i ∈ [e], Grounded p.toArena p.scene.module i := by
        intro x hx hnot h i hi
        rw [List.mem_singleton.1 hi]
        exact grounded_of_operands hx hnot h
      unfold expr
      split
      · next h0 => exact (Grounds.pure _).mono fun _ => by simpa [h0] using grounded_zero _ _
      refine .get fun r₀ => ?_
      have hset : Grounds p [] (setExpr e { stmt := r₀.stmt }) :=
        .of_finds fun _ => (finds_setExpr e _).mono fun _ _ h =>
          ⟨h.1, by rw [h.2, Table.latest_note]⟩
      refine .bind hset fun _ => ?_
      split
      · next s hs =>
        -- what the name stands for is known from the levels where the step starts
        intro r
        refine .bind (.get (.pure ?_))
        have hvisible : r.frames = [] → visible p.scene.module r.frames s =
            p.scene.module.find? s := fun h => by
          rw [h]; rfl
        split
        · next hd =>
          have hd : visible p.scene.module r.frames s = none := hd
          refine (Grounds.refuse _ e _).also fun hr _ _ i hi => ?_
          rw [List.mem_singleton.1 hi]
          refine grounded_ident hs fun d v hfind _ => ?_
          simp [← hvisible hr, hd] at hfind
        · next d hd =>
          have hd : visible p.scene.module r.frames s = some d := hd
          have hident : (r.frames = [] → ∀ v, p.asVariable? d = some v →
            Grounded p.toArena p.scene.module v.initializer) →
              r.frames = [] → ∀ i ∈ [e], Grounded p.toArena p.scene.module i := by
            intro h hr i hi
            rw [List.mem_singleton.1 hi]
            exact grounded_of_find? hs ((hvisible hr).symm.trans hd) (h hr)
          refine .get ?_
          split
          · next number hnumber =>
            have hlatest : (r.facts.table.latest d).isSome := by simp [Facts.table, hnumber]
            exact (grounds_useVariable e _ _).also fun hr hg _ =>
              hident (fun _ v hv => hg d v hlatest hv) hr
          · next v hnone hv =>
            refine Grounds.also (?_ : Grounds p ([v.initializer] ++ []) _) fun hr _ h =>
              hident (fun _ w hw => ?_) hr
            · refine .bind (ihVariable d v hv) fun made => ?_
              split
              · exact grounds_useVariable e _ _
              · exact .pure _
            · cases hv.symm.trans hw
              exact h _ (by simp)
          · next hnone =>
            have hnone : p.asVariable? d = none := hnone
            exact (Grounds.refuse _ e _).also fun hr _ _ =>
              hident (fun _ v hv => by simp [hnone] at hv) hr
      · next hx =>
          exact (grounds_finish e _).mono fun _ => hnode hx (by simp) (by simp [ExprShape.operands])
      · next hx =>
          exact (grounds_finish e _).mono fun _ => hnode hx (by simp) (by simp [ExprShape.operands])
      · next hx =>
          exact (grounds_finish e _).mono fun _ => hnode hx (by simp) (by simp [ExprShape.operands])
      · next op l k hx =>
        have hall := Grounds.bind (ihExpr l) fun lt => .bind (ihExpr k) fun kt =>
          grounds_finish e { ({ stmt := r₀.stmt } : ExprFacts) with type := binaryType op lt kt }
        exact hall.mono fun h => hnode hx (by simp) (by simpa [ExprShape.operands] using h)
      · next op i hx =>
        have hall := Grounds.bind (ihExpr i) fun t =>
          grounds_finish e { ({ stmt := r₀.stmt } : ExprFacts) with type := t }
        exact hall.mono fun h => hnode hx (by simp) (by simpa [ExprShape.operands] using h)
      · next g args hx =>
        exact (ihCall e _ g args).mono fun h =>
          hnode hx (by simp) (by simpa [ExprShape.operands] using h)
      · next o i hx =>
        refine Grounds.mono (?_ : Grounds p ([o] ++ ([i] ++ [])) _) fun h =>
          hnode hx (by simp) (by simpa [ExprShape.operands] using h)
        refine .bind (ihExpr o) fun t => .bind (ihExpr i) fun _ => ?_
        split
        · exact .pure _
        · exact grounds_finish e _
        · exact .refuse _ e _
      · next o s hx =>
        refine Grounds.mono (?_ : Grounds p ([o] ++ []) _) fun h =>
          hnode hx (by simp) (by simpa [ExprShape.operands] using h)
        refine .bind (ihExpr o) fun t => .get fun r => ?_
        split
        · exact .pure _
        · exact grounds_finish e _
        · exact .refuse _ e _
      · next hident hint hfloat hbool hbinary hunary hcall hindex hmember =>
        have hother : ∀ x, p.shape? e ≠ some (.expr x) := by
          intro x hx
          cases x with
          | ident s => exact hident s hx
          | int n suffix => exact hint n suffix hx
          | float x => exact hfloat x hx
          | bool b => exact hbool b hx
          | binary op l r => exact hbinary op l r hx
          | unary op i => exact hunary op i hx
          | call g args => exact hcall g args hx
          | index o i => exact hindex o i hx
          | member o s => exact hmember o s hx
        have herase : Grounds p [] (mapFacts fun f => { f with exprs := f.exprs.erase e }) :=
          .of_finds fun _ => .mapFacts ⟨⟨rfl, rfl⟩, rfl⟩
        refine .mono (.bind herase fun _ => .refuse _ e _) fun _ i hi => ?_
        rw [List.mem_singleton.1 hi]
        exact grounded_of_no_expr hother
    · rw [call_succ]
      simpa using Grounds.bind (.mapM fun i _ => ihExpr i) fun ts => grounds_callTarget i x g ts

theorem grounds_declaration (d : NodeId) : Grounds p [] (declaration p.scene d) := by
  have htype : Grounds p [] (typeDecl p.scene p.scene.fuel d) :=
    .of_types ((typeTouch_types _ _).2 d)
  unfold declaration
  split
  · exact .bind htype fun _ => .pure _
  · exact .bind htype fun _ => .pure _
  · next v hs =>
    refine .get fun r => ?_
    split
    · exact .pure _
    · have hv : p.asVariable? d = some v := by
        rw [Arena.asVariable?, show p.shape? d = _ from hs]; rfl
      have hmade : Grounds p [] (resolveVariable p.scene p.scene.fuel d v .global) :=
        ((grounds_expressions _).2.2 d v hv).mono fun _ => by simp
      exact .bind hmade fun _ => .pure _
  · exact .pure _

/-- A variable that is known stays known. -/
theorem Moves.known {a : Arena} {step : Resolve α} (h : Moves (Change a) step) (r : Resolver) :
    Ends step r fun _ r' =>
      ∀ x, (r.facts.table.latest x).isSome → (r'.facts.table.latest x).isSome :=
  (h r).mono fun _ r' hr x hx => by
    induction hr with
    | refl => exact hx
    | tail _ hstep ih =>
      cases hstep with
      | noted hfacts _ => rwa [hfacts]
      | made scope t hw =>
        rw [Facts.table_addVariable, Table.latest_addValue, Function.update_apply]
        split
        · rfl
        · exact ih
      | _ => exact ih

/-- A variable of the module is known after its turn. -/
theorem known_declaration {d : NodeId} {v : VariableShape Symbol NodeId}
    (hv : p.asVariable? d = some v) (r : Resolver) :
    Ends (declaration p.scene d) r fun _ r' => (r'.facts.table.latest d).isSome := by
  have hs := Arena.shape?_of_asVariable? hv
  unfold declaration
  rw [show p.scene.arena.shape? d = _ from hs]
  refine .get ?_
  split
  · next h => exact .pure (by simpa [Facts.table] using h)
  · obtain ⟨n, hn⟩ : ∃ n, p.scene.fuel = n + 1 :=
      ⟨p.scene.fuel - 1, by have := p.length_lt_fuel; omega⟩
    rw [hn, resolveVariable]
    refine .bind (.bind ((ends_after _ r).mono fun t r₁ _ => ?_))
    exact (Program.makes_variable (p := p) (o := []) p.scene d v .global t r₁).mono fun _ _ h =>
      .pure ((h.latest d).2 (.inl rfl))

/-- At module scope, with some declarations to come: what is known is grounded, and the variables of
the others are known. -/
structure BetweenTurns (p : Program) (rest : List NodeId) (r : Resolver) : Prop where
  frames : r.frames = []
  grounded : GroundedIn p.toArena p.scene.module r.facts.table
  known : ∀ d ∈ p.globals,
    ∀ v, p.asVariable? d = some v → d ∈ rest ∨ (r.facts.table.latest d).isSome

theorem turn_declaration {d : NodeId} {rest : List NodeId} {r : Resolver}
    (h : r.Endless ∨ BetweenTurns p (d :: rest) r) :
    Ends (declaration p.scene d) r fun _ r' => r'.Endless ∨ BetweenTurns p rest r' := by
  rcases h with h | h
  · exact (grounds_declaration d r).mono fun _ _ h' => .inl (h'.1 h)
  · have hknown : Ends (declaration p.scene d) r fun _ r' => ∀ v, p.asVariable? d = some v →
        (r'.facts.table.latest d).isSome := by
      by_cases hv : ∃ v, p.asVariable? d = some v
      · obtain ⟨v, hv⟩ := hv
        exact (known_declaration hv r).mono fun _ _ h _ _ => h
      · exact (ends_after _ r).mono fun _ _ _ v hv' => absurd ⟨v, hv'⟩ hv
    refine (((grounds_declaration d r).and ((moves_declaration p.scene d).known r)).and hknown).mono
      fun _ r' ⟨⟨hgrounds, hkept⟩, hknown⟩ =>
        (hgrounds.2 h.frames h.grounded).imp_right fun ⟨hframes, hgrounded, _⟩ =>
        ⟨hframes, hgrounded, fun x hx v hv => ?_⟩
    rcases h.known x hx v hv with hmem | hlatest
    · rcases List.mem_cons.1 hmem with rfl | hmem
      · exact .inr (hknown v hv)
      · exact .inl hmem
    · exact .inr (hkept x hlatest)

/-- Resolution of a module is broken off, or the module is founded: when the declarations have had
their turns, whatever is known of them is grounded. -/
theorem endless_or_founded {rank : NodeId → Nat}
    (hc : Charted p.scene (fun i => p.inTree i = true) rank p.globals p.treeIds.length) :
    Ends (module p.scene p.globals) p.unresolved fun _ r' => r'.Endless ∨ p.Founded := by
  unfold module
  refine .bind (.forIn (fun rest r => r.Endless ∨ BetweenTurns p rest r)
    (.inr ⟨rfl, ?_, fun d hd _ _ => .inl hd⟩) (fun d rest r hd h => ?_) fun r h => ?_)
  · exact fun d v hd _ => by simp [Program.unresolved, Facts.table] at hd
  · split
    · exact .bind ((turn_declaration h).mono fun _ _ h' => .pure ⟨rfl, h'⟩)
    · next hf =>
      -- a function has no turn here, and declares no variable
      refine .pure ⟨rfl, h.imp_right fun h => ⟨h.frames, h.grounded, fun x hx v hv => ?_⟩⟩
      refine (h.known x hx v hv).imp_left fun hmem => (List.mem_cons.1 hmem).resolve_left ?_
      rintro rfl
      obtain ⟨f, hf⟩ := Option.ne_none_iff_exists'.1 (by simpa using hf)
      have hs : p.shape? x = _ := Arena.shape?_of_function? hf
      simp [Arena.asVariable?, hs, Shape.asVariable?] at hv
  · refine ((steps_functions p.scene p.globals).endless Step.endless r).mono fun _ r' hlater =>
      h.imp hlater fun h => ?_
    have hknown : ∀ d ∈ p.globals,
        ∀ v, p.asVariable? d = some v → (r.facts.table.latest d).isSome :=
      fun d hd v hv => (h.known d hd v hv).resolve_left List.not_mem_nil
    exact fun e he => not_lead_back (grounded_of_tree hc h.grounded hknown (.inr he))

end Groundings

/-- Among names nothing is found that never ends. -/
theorem collect_sober (a : Arena) (gs : List NodeId) (found : Frame × Diagnostics)
    (h : ∀ d ∈ found.2, d.message ≠ endless) :
    ∀ d ∈ (gs.foldl (collect a) found).2, d.message ≠ endless := by
  induction gs generalizing found with
  | nil => exact h
  | cons g gs ih =>
    refine ih _ ?_
    have hreport : ∀ message : String, message.toList.head? ≠ some 'd' →
        ∀ d ∈ found.2 ++ [Diagnostic.errorAt .resolver message (a.spanOf g)],
          d.message ≠ endless := by
      intro message hmessage d hd
      rcases List.mem_append.1 hd with hd | hd
      · exact h d hd
      · rw [List.mem_singleton.1 hd]
        exact ne_endless hmessage
    unfold collect
    dsimp only
    split
    · exact hreport _ (by simp)
    · split
      · exact hreport _ (by simp [toString])
      · exact h

end Resolve

namespace Document

open Resolve

variable {m : Module} {p : Program}

/-- Resolution of the module ends: no initializer in what is made of it leads back to itself. -/
def Module.Founded (m : Module) : Prop := ∀ p, m.decode = .ok p → p.Founded

/-- Resolution is broken off in just the modules that are not founded. -/
theorem endless_iff (h : m.decode = .ok p) : p.endless = true ↔ ¬ p.Founded := by
  obtain ⟨⟨rank, hc⟩, htree⟩ := decode_charted h
  have houtcome : p.endless = true ↔ p.outcome.Endless := by
    rw [Program.endless_iff, (decode_outcome h).2, Resolver.Endless]
  rw [houtcome]
  refine ⟨fun hend hf => ?_, fun hf => (endless_or_founded hc).run.resolve_right hf⟩
  have hstart : Poised p.unresolved := ⟨rfl, by simp [LocalsKnown, Program.unresolved]⟩
  obtain ⟨d, hd, hmessage⟩ := (sober_module hc htree hf p.unresolved hstart).run.2 hend
  exact collect_sober p.toArena p.globals ([], []) (by simp) d hd hmessage

theorem read_ok_iff : m.read = .ok p ↔ m.decode = .ok p ∧ p.Founded := by
  unfold Module.read
  cases hq : m.decode with
  | error e => simp
  | ok q =>
    have hfounded := endless_iff hq
    by_cases hend : q.endless = true
    · simp only [hend, if_true, reduceCtorEq, Except.ok.injEq, false_iff, not_and]
      rintro rfl
      exact hfounded.1 hend
    · simp only [hend, Bool.false_eq_true, if_false, Except.ok.injEq, iff_self_and]
      rintro rfl
      exact not_not.1 (mt hfounded.2 hend)

theorem read_endless_iff : m.read = .error .endless ↔ ∃ p, m.decode = .ok p ∧ ¬ p.Founded := by
  unfold Module.read
  cases hq : m.decode with
  | error e => simp
  | ok q => simp [← endless_iff hq]

/-- Reading answers with a program just if the document is of the grammar and the module is founded.
If it is of the grammar only, there is no answer. The program has a node for each record that
counts, all of them in the tree of the module, and is written back as what counts of the
document. -/
theorem read_accepts (m : Module) :
    ((∃ p, m.read = .ok p) ↔ m.WellFormed ∧ m.Founded) ∧
      (m.read = .error .endless ↔ m.WellFormed ∧ ¬ m.Founded) ∧
      ∀ p, m.read = .ok p → p.size = m.kept.nodes + 1 ∧ (∀ i ∈ p.ids, p.inTree i = true) ∧
        ofProgram p = m.kept := by
  obtain ⟨hgrammar, hresult⟩ := decode_accepts m
  -- a document is decoded in one way at most
  have hfounded : ∀ {p}, m.decode = .ok p → (m.Founded ↔ p.Founded) := fun hp =>
    ⟨fun hf => hf _ hp, fun hf q hq => Except.ok.inj (hp.symm.trans hq) ▸ hf⟩
  simp only [read_ok_iff, read_endless_iff, ← hgrammar]
  refine ⟨?_, ?_, fun p hp => hresult p hp.1⟩
  · exact ⟨fun ⟨p, hp, hf⟩ => ⟨⟨p, hp⟩, (hfounded hp).2 hf⟩, fun ⟨⟨p, hp⟩, hf⟩ =>
      ⟨p, hp, (hfounded hp).1 hf⟩⟩
  · exact ⟨fun ⟨p, hp, hf⟩ => ⟨⟨p, hp⟩, mt (hfounded hp).1 hf⟩, fun ⟨⟨p, hp⟩, hf⟩ =>
      ⟨p, hp, mt (hfounded hp).2 hf⟩⟩

/-- A type declaration that lists a width, which its kind has no use for, and a place that is
none. -/
def wide : Module where
  globals :=
    [some { kind := "Alias", name := "Wide", width := 4, span := some {},
            type := some { kind := "F32" } }]

theorem read_accepts_wide :
    ∃ p, wide.read = .ok p ∧ wide.WellFormed ∧ p.size = 3 ∧ (∀ i ∈ p.ids, p.inTree i = true) ∧
    ofProgram p =
      ⟨1, [some { kind := "Alias", name := "Wide", type := some { kind := "F32" } }]⟩ := by
  have hok : wide.read.toOption.isSome = true := by decide +kernel
  cases hp : wide.read with
  | error e => simp [hp, Except.toOption] at hok
  | ok p =>
    obtain ⟨hiff, -, hresult⟩ := read_accepts wide
    obtain ⟨hsize, htree, hdocument⟩ := hresult p hp
    exact ⟨p, rfl, (hiff.1 ⟨p, hp⟩).1, hsize, htree, hdocument⟩

/-- The module `const a = a;`. -/
def circular : Module where
  globals :=
    [some { kind := "Const", name := "a", initializer := some { kind := "Ident", name := "a" } }]

/-- A document of the grammar that reading has no answer to. -/
theorem read_circular : circular.WellFormed ∧ circular.read = .error .endless := by
  have hendless : circular.decode.toOption.any Program.endless = true := by decide +kernel
  have hread : circular.read = .error .endless := by
    obtain ⟨p, hp, hend⟩ := (Option.any_eq_true _ _).1 hendless
    cases hd : circular.decode with
    | error e => simp [hd, Except.toOption] at hp
    | ok q =>
      obtain rfl : q = p := by simpa [hd, Except.toOption] using hp
      exact read_endless_iff.2 ⟨q, hd, (endless_iff hd).1 hend⟩
  exact ⟨(decode_accepts circular).1.1 (read_endless_iff.1 hread |>.imp fun _ h => h.1), hread⟩

end Document
end ShaderLoom
