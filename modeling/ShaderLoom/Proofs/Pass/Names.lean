import ShaderLoom.Proofs.Copy.Names
import ShaderLoom.Proofs.Pass.Derived

/-! Passes put only names into nodes that are in the table of the program they make. -/
namespace ShaderLoom

open Copy Copy.Edit Build

variable {p : Program} {t : SymbolTable} {inputs : Data}

/-- Handlers that hold no symbols, and a state that holds none. -/
def Copy.Voice.silent (κ σ : Type) : Voice κ σ := {}

theorem Copy.speaks_noHandlers : Speaks (.silent Empty Unit) p noHandlers := fun _ h => nomatch h

namespace FirstIndex

/-- The buffer has a name. -/
def voice : Voice AddOffset Unit where
  use t _ h := t.Has h.buffer
  use_later hle h := h.later hle

theorem speaks_act (hp : p.toArena.SpelledOut) : Speaks voice p act := by
  refine speaks_of_says fun copy h id t hu hcopy => ?_
  obtain ⟨_, hu⟩ := hu
  refine (says_copyPlain hp id hcopy).bind fun index u₁ h₁ _ => says_build ?_
  refine (says_symbol h.field).bind fun field u₂ h₂ hs => ?_
  refine (says_memberSym (x := .symbol h.buffer) (hu.later (h₁.trans h₂)) hs).bind
    fun offset u₃ _ _ => ?_
  exact says_binary .add trivial trivial

theorem says_declareBuffer (data : FirstIndexData) (point : BindingPoint) :
    Builder.naming.Says (declareBuffer data point) t fun u s => u.Has s := by
  refine (Naming.Says.mapM fun field _ u _ => ?_).bind fun members u₁ _ _ => ?_
  · exact (says_type (by simp [Shape.names])).bind fun _ _ _ _ => says_structMember _ _ _
  refine (says_freshSymbol "").bind fun struct u₂ h₂ hs => ?_
  refine (says_structSym hs members).bind fun _ u₃ h₃ _ => ?_
  refine (says_freshSymbol "").bind fun buffer u₄ h₄ hb => ?_
  refine (says_named (hs.later (h₃.trans h₄))).bind fun type u₅ h₅ _ => ?_
  refine (says_attr _).bind fun group u₆ h₆ _ => (says_attr _).bind fun binding u₇ h₇ _ => ?_
  have hb := hb.later ((h₅.trans h₆).trans h₇)
  exact (says_global (says_variableSym _ hb _ _ _)).bind fun _ u₈ h₈ _ =>
    .pure fun u hu => hb.later (h₈.trans hu)

theorem says_work (hp : p.toArena.SpelledOut) :
    (voice.naming p).Says (work p inputs) t fun _ _ => True := by
  have hend : ∀ u, (voice.naming p).Says (do
      Work.edit (Edit.copyModule (Edit.copy act))
      return Exchange.put {} .firstIndexData (layout p) : Work AddOffset Unit Data) u fun _ _ =>
        True := fun u =>
    (Work.says_edit (says_copyModule hp (speaks_act hp) u)).done
  refine (Work.says_need _).bind fun point u _ _ => ?_
  dsimp only
  split
  · refine (Work.says_build (says_declareBuffer _ _)).bind fun buffer u₁ h₁ hb => ?_
    refine (Naming.Says.forIn fun id _ u₂ h₂ => ?_).bind fun _ u₃ _ _ => hend u₃
    split
    · exact (Work.says_edit (says_replaceWith id fun u st hu _ => hb.later (h₂.trans hu))).yield
    · exact .pure fun _ _ => rfl
  · exact hend u

end FirstIndex

namespace Workgroups

/-- The buffer and the structure have names. -/
def voice : Voice Use Unit where
  use t _
    | .read buffer => t.Has buffer
    | .construct struct buffer => t.Has struct ∧ t.Has buffer
  use_later {t u _ h} hle hu := by
    cases h with
    | read => exact SymbolTable.Has.later hu hle
    | construct => exact ⟨hu.1.later hle, hu.2.later hle⟩

theorem says_readBuffer {buffer : Symbol} (h : t.Has buffer) :
    Builder.naming.Says (readBuffer buffer) t fun _ _ => True :=
  (says_symbol field).bind fun _ _ hu hs => says_memberSym (x := .symbol buffer) (h.later hu) hs

theorem speaks_act : Speaks voice p act := by
  refine speaks_of_says fun copy use id t hu hcopy => ?_
  obtain ⟨_, hu⟩ := hu
  cases use with
  | read buffer => exact says_build (says_readBuffer hu)
  | construct struct buffer =>
    change (voice.naming p).Says (Edit.build (do
      let type ← Build.type (.named struct)
      let value ← readBuffer buffer
      Build.construct type [.node value])) t _
    refine says_build ((says_named hu.1).bind fun type u₁ h₁ _ => ?_)
    refine (says_readBuffer (hu.2.later h₁)).bind fun value u₂ h₂ _ => ?_
    exact says_construct type fun o ho => by
      rw [List.mem_singleton.1 ho]
      trivial

theorem says_declareBuffer (point : BindingPoint) :
    Builder.naming.Says (declareBuffer point) t fun u s => u.Has s := by
  refine (says_freshSymbol "").bind fun struct u₁ _ hs => ?_
  refine (says_type (by simp [Shape.names])).bind fun elem u₂ h₂ _ => ?_
  refine (says_type (by simp [Shape.names])).bind fun type u₃ h₃ _ => ?_
  refine (says_structMember field type []).bind fun member u₄ h₄ _ => ?_
  have hs := hs.later ((h₂.trans h₃).trans h₄)
  refine (says_structSym hs [member]).bind fun _ u₅ h₅ _ => ?_
  refine (says_freshSymbol "").bind fun buffer u₆ h₆ hb => ?_
  refine (says_named (hs.later (h₅.trans h₆))).bind fun type u₇ h₇ _ => ?_
  refine (says_attr _).bind fun group u₈ h₈ _ => (says_attr _).bind fun binding u₉ h₉ _ => ?_
  have hb := hb.later ((h₇.trans h₈).trans h₉)
  exact (says_global (says_variableSym _ hb _ _ _)).bind fun _ _ h _ =>
    .pure fun u hu => hb.later (h.trans hu)

/-- The structures that are constructed are structures of the program. -/
theorem rebuilt_planned {param : DroppedParam} (h : param ∈ (planned p).params) {st : StructFacts}
    (hst : param.rebuilt = some st) : ∃ d : NodeId, p.facts.structs[d]? = some st := by
  have hadd : ∀ (plan : Plan) (v : VariableFacts),
      (∀ q ∈ plan.params, ∀ st, q.rebuilt = some st → ∃ d : NodeId, p.facts.structs[d]? = some st) →
      ∀ q ∈ (plan.addParam p v).params,
        ∀ st, q.rebuilt = some st → ∃ d : NodeId, p.facts.structs[d]? = some st := by
    intro plan v hplan
    unfold Plan.addParam
    split
    · exact hplan
    split
    · intro q hq st hst
      rcases List.mem_append.1 hq with hq | hq
      · exact hplan q hq st hst
      · rw [List.mem_singleton.1 hq] at hst
        cases hst
    split
    · split
      · exact hplan
      · next d _ _ _ st' hd =>
        split
        · exact hplan
        split
        · intro q hq st hst
          rcases List.mem_append.1 hq with hq | hq
          · exact hplan q hq st hst
          · rw [List.mem_singleton.1 hq] at hst
            cases hst
            exact ⟨d, hd⟩
        · exact hplan
    · exact hplan
  have hall : ∀ (vs : List VariableFacts) (plan : Plan),
      (∀ q ∈ plan.params, ∀ st, q.rebuilt = some st → ∃ d : NodeId, p.facts.structs[d]? = some st) →
      ∀ q ∈ (vs.foldl (Plan.addParam p) plan).params,
        ∀ st, q.rebuilt = some st → ∃ d : NodeId, p.facts.structs[d]? = some st := by
    intro vs
    induction vs with
    | nil => exact fun _ h => h
    | cons v vs ih => exact fun plan hplan => ih _ (hadd plan v hplan)
  exact hall _ {} (by simp) param h st hst

/-- A structure of the program has a name. -/
theorem has_structName (hp : p.toArena.SpelledOut) (hb : p.Built) {d : NodeId} {st : StructFacts}
    (h : p.facts.structs[d]? = some st) : p.symbols.Has (structName p st) := by
  obtain ⟨rfl, s, ms, as, hs⟩ := hb.sound.struct h
  obtain ⟨n, hn, hshape⟩ := Option.map_eq_some_iff.1 hs
  rw [show structName p st = s by simp [structName, hs, Shape.declName?]]
  exact hp.known hn s (by simp [hshape, Shape.names])

theorem says_carryOut (hp : p.toArena.SpelledOut) (hb : p.Built) (hle : p.symbols.Le t)
    {buffer : Symbol} (hbuffer : t.Has buffer) :
    (voice.naming p).Says (carryOut p buffer (planned p)) t fun _ _ => True := by
  have hread : ∀ id u, t.Le u → (voice.naming p).Says (replaceWith id (Use.read buffer) :
    Edit Use Unit Unit) u fun _ _ => True :=
    fun id u hu => says_replaceWith id fun v _ hv _ => hbuffer.later (hu.trans hv)
  refine (Naming.Says.forIn fun param hparam u hu => ?_).bind fun _ u₁ h₁ _ =>
    (Naming.Says.forIn fun id _ u _ => (says_remove id).yield).bind fun _ u₂ h₂ _ =>
    (Naming.Says.forIn fun id _ u hu => ?_).done
  · refine Naming.Says.yield
      ((says_remove _).bind fun _ u₁ h₁ _ => (Naming.Says.forIn fun user _ u₂ h₂ => ?_).done)
    have hle₂ := (hu.trans h₁).trans h₂
    split
    · exact (hread user u₂ hle₂).yield
    · exact (hread _ u₂ hle₂).yield
    · next st hst _ =>
      obtain ⟨d, hd⟩ := rebuilt_planned hparam hst
      refine (says_replaceWith user fun v _ hv _ => ?_).yield
      exact ⟨(has_structName hp hb hd).later ((hle.trans hle₂).trans hv),
        hbuffer.later (hle₂.trans hv)⟩
  · split
    · exact (hread id u ((h₁.trans h₂).trans hu)).yield
    · exact .pure fun _ _ => rfl

theorem says_work (hp : p.toArena.SpelledOut) (hb : p.Built) :
    (voice.naming p).Says (work p inputs) p.symbols fun _ _ => True := by
  have hend : ∀ u, (voice.naming p).Says (do
      Work.edit (Edit.copyModule (Edit.copy act))
      return {} : Work Use Unit Data) u fun _ _ => True := fun u =>
    (Work.says_edit (says_copyModule hp speaks_act u)).done
  refine (Work.says_need _).bind fun point u hu _ => ?_
  dsimp only
  split
  · exact hend u
  · refine (Work.says_build (says_declareBuffer point)).bind fun buffer u₁ h₁ hbuffer => ?_
    exact (Work.says_edit (says_carryOut hp hb (hu.trans h₁) hbuffer)).bind fun _ u₂ _ _ => hend u₂

end Workgroups

namespace Rebind

theorem speaks_act (hp : p.toArena.SpelledOut) : Speaks (.silent NewAccess Unit) p act := by
  refine speaks_of_says fun copy h id t _ hcopy => Naming.Says.get.bind fun s u₀ h₀ hs => ?_
  rw [hs.1.source]
  have hcopy' : ∀ c u, u₀.Le u → _ := fun c u hu => hcopy c u (h₀.trans hu)
  split
  · next v hv =>
    obtain ⟨shape, hshape, hv⟩ := Option.bind_eq_some_iff.1 hv
    obtain ⟨n, hn, rfl⟩ := Option.map_eq_some_iff.1 hshape
    have hname : p.symbols.Has v.name := hp.known hn v.name (by
      unfold Shape.asVariable? at hv
      split at hv
      · next hd =>
        cases hv
        simp [hd, Shape.names]
      · cases hv)
    refine (says_copySymbol hname).bind fun name u₁ h₁ hname => ?_
    refine (hcopy' v.type u₁ h₁).bind fun type u₂ h₂ _ => ?_
    refine (hcopy' v.initializer u₂ (h₁.trans h₂)).bind fun init u₃ h₃ _ => ?_
    refine (says_copyList fun c u hu => hcopy' c u (((h₁.trans h₂).trans h₃).trans hu)).bind
      fun attrs u₄ h₄ _ => ?_
    exact says_build (says_variableSym _ (hname.later ((h₂.trans h₃).trans h₄)) _ _ _)
  · exact .pure fun _ _ => trivial

theorem says_work (hp : p.toArena.SpelledOut) :
    ((Voice.silent NewAccess Unit).naming p).Says (work p inputs) t fun _ _ => True := by
  refine (Work.says_need _).bind fun r u _ _ => ?_
  refine Naming.Says.bind (P := fun _ _ => True) ?_ fun _ u _ _ => ?_
  · unfold checkCollisions
    split
    · exact .throw
    · exact .pure fun _ _ => trivial
  refine (Naming.Says.forIn fun id _ u _ => ?_).bind fun _ u _ _ => ?_
  · refine Naming.Says.yield (P := fun _ _ => True) ?_
    unfold rebindGlobal
    split
    · split
      · refine Naming.Says.bind (P := fun _ _ => True) ?_ fun _ u _ _ => ?_
        · unfold move
          split
          · refine (Naming.Says.forIn fun id _ u _ =>
              Naming.Says.yield (P := fun _ _ => True) (Work.says_edit ?_)).done
            unfold moveAttribute
            split
            · exact (says_build (says_attr _)).bind fun _ _ _ _ => says_replace _ _
            · exact (says_build (says_attr _)).bind fun _ _ _ _ => says_replace _ _
            · exact .pure fun _ _ => trivial
          · exact .pure fun _ _ => trivial
        · unfold setAccess
          split
          · split
            · exact .throw
            · exact Work.says_edit (says_replaceWith _ fun _ _ _ _ => trivial)
          · exact .pure fun _ _ => trivial
      · exact .pure fun _ _ => trivial
    · exact .pure fun _ _ => trivial
  · exact (Work.says_edit (says_copyModule hp (speaks_act hp) u)).done

end Rebind

namespace Rename

theorem rule_speaks (p : Program) (config : RenameConfig) : (rule p config).Speaks p := by
  intro s t hle hs
  unfold rule
  split
  · exact ⟨t.has_fresh "", t.fresh_extends ""⟩
  · exact ⟨hs.later hle, .refl t⟩

theorem speaks_act (hp : p.toArena.SpelledOut) : Speaks (.silent Keep Unit) p act := by
  refine speaks_of_says fun copy keep id t _ hcopy w hw ht => Runs.bind (Runs.get ?_)
  rw [hw.source]
  have hname : ∀ shape, p.shape? id = some shape → ∀ s ∈ shape.names, p.symbols.Has s := by
    intro shape hshape
    obtain ⟨n, hn, rfl⟩ := Option.map_eq_some_iff.1 hshape
    exact hp.known hn
  have hnone : ∀ w : World Keep Unit, w.1.SpelledOut (.silent Keep Unit) p →
      Runs (pure 0 : Edit Keep Unit NodeId) w (fun _ => True) fun _ w' =>
        w'.1.SpelledOut (.silent Keep Unit) p ∧ w.1.target.symbols.Le w'.1.target.symbols ∧ True :=
    fun w hw => Runs.pure w.2 ⟨hw, .refl _, trivial⟩
  dsimp only
  split
  · next _ object s hs _ =>
    split
    · refine ((hcopy object t (.refl t)).bind (Q := fun _ _ => True) fun o u hu _ => ?_) w hw ht
      intro w hw ht
      exact says_build
        (says_memberSym (x := .node o) trivial (hname _ hs s (by simp [Shape.names]))) w hw hw.names
    · exact hnone w hw
  · next _ s hs _ =>
    split
    · exact says_build (says_identSym (hname _ hs s (by simp [Shape.names]))) w hw hw.names
    · exact hnone w hw
  · exact hnone w hw

theorem says_work (hp : p.toArena.SpelledOut) :
    ((Voice.silent Keep Unit).naming p).Says (work p inputs) t fun _ _ => True := by
  refine Naming.Says.bind (P := fun _ _ => True) (Work.says_edit ?_) fun _ u _ _ =>
    Naming.Says.get.bind fun _ _ _ _ => .pure fun _ _ => trivial
  refine (says_replaceAll _ fun _ _ _ _ => trivial).bind fun _ u₁ _ _ => ?_
  refine (says_replaceAll _ fun _ _ _ _ => trivial).bind fun _ u₂ _ _ => ?_
  refine (says_setSymbolRule (rule_speaks p _)).bind fun _ u₃ _ _ => ?_
  exact says_copyModule hp (speaks_act hp) u₃

end Rename

theorem EntryPoint.says_work (hp : p.toArena.SpelledOut) :
    ((Voice.silent Empty Unit).naming p).Says (EntryPoint.work p inputs) t fun _ _ => True := by
  refine (Work.says_need _).bind fun wanted u _ _ => (Work.says_need _).bind fun entry u _ _ => ?_
  refine (Naming.Says.forIn fun id _ u _ => ?_).bind fun _ u _ _ => ?_
  · split
    · exact .pure fun _ _ => rfl
    · exact (Work.says_edit (says_remove id)).yield
  · exact (Work.says_edit (says_copyModule hp speaks_noHandlers u)).done

theorem Unreachable.says_work (hp : p.toArena.SpelledOut) :
    ((Voice.silent Empty Unit).naming p).Says (Unreachable.work p) t fun _ _ => True := by
  refine (Naming.Says.forIn fun id _ _ _ => ?_).bind fun _ u _ _ => ?_
  · exact (Work.says_edit (says_remove id)).yield
  · exact (Work.says_edit (says_copyModule hp speaks_noHandlers u)).done

theorem Shuffle.says_work (hp : p.toArena.SpelledOut) :
    ((Voice.silent Empty Unit).naming p).Says (Shuffle.work p inputs) t fun _ _ => True := by
  refine (Work.says_need _).bind fun seed u _ _ => ?_
  refine (Naming.Says.forIn fun id _ u _ => ?_).bind fun _ u _ _ => ?_
  · refine (Work.says_edit (says_copy hp speaks_noHandlers id u)).bind fun copied u _ _ => ?_
    refine (Work.says_build (says_addGlobal copied)).bind fun _ u _ _ => ?_
    exact (Work.says_edit (says_remove id)).yield
  · exact (Work.says_edit (says_copyModule hp speaks_noHandlers u)).done

namespace Hoist

/-- References are to names of the table. -/
def voice : Voice Rule Hoist where
  use t _
    | .reference s => t.Has s
    | _ => True
  use_later {t u _ h} hle hu := by
    cases h with
    | reference => exact SymbolTable.Has.later hu hle
    | _ => trivial

variable {copy : NodeId → Edit Rule Hoist NodeId}

theorem says_record : (voice.naming p).Says (record : Edit Rule Hoist Hoist) t fun _ _ => True :=
  Naming.Says.get.bind fun _ _ _ _ => .pure fun _ _ => trivial

theorem says_changeRecord (f : Hoist → Hoist) :
    (voice.naming p).Says (changeRecord f : Edit Rule Hoist Unit) t fun _ _ => True :=
  .modify fun _ hs _ =>
    ⟨⟨hs.source, hs.target, hs.names, hs.symbols, hs.rule, trivial, hs.replaced, hs.handlers⟩,
      .refl _⟩

theorem says_breakUnless (c : NodeId)
    (hcopy : ∀ c u, t.Le u → (voice.naming p).Says (copy c) u fun _ _ => True) :
    (voice.naming p).Says (breakUnless copy c) t fun _ _ => True := by
  refine (hcopy c t (.refl t)).bind fun c _ _ _ => says_build ?_
  refine (says_unary .not (x := .node c) trivial).bind fun test _ _ _ => ?_
  exact (says_stmt _).bind fun leave _ _ _ => (says_stmt _).bind fun body _ _ _ => says_stmt _

/-- The parts of a `for` loop, one after the other. -/
theorem says_lowerFor (id init cond continuing body : NodeId)
    (hcopy : ∀ c u, t.Le u → (voice.naming p).Says (copy c) u fun _ _ => True) :
    (voice.naming p).Says (do
      let pending := (← record).loopOf id
      let test ← testing copy cond
      let inner ← copy body
      let cont ← continued copy id continuing
      let loop ← Edit.build do
        let b ← Build.block (pending.condition ++ test ++ [inner])
        Build.stmt (.loop b cont)
      if init = 0 then return loop
      let first ← copy init
      Edit.build (Build.block [first, loop]) : Edit Rule Hoist NodeId) t fun _ _ => True := by
  refine says_record.bind fun pending u₁ h₁ _ => ?_
  refine Naming.Says.bind (P := fun _ _ => True) ?_ fun test u₂ h₂ _ => ?_
  · unfold testing
    split
    · exact .pure fun _ _ => trivial
    · exact (says_breakUnless cond fun c u hu => hcopy c u (h₁.trans hu)).done
  replace h₂ := h₁.trans h₂
  refine (hcopy body u₂ h₂).bind fun inner u₃ h₃ _ => ?_
  replace h₃ := h₂.trans h₃
  refine Naming.Says.bind (P := fun _ _ => True) ?_ fun cont u₄ h₄ _ => ?_
  · unfold continued
    split
    · exact .pure fun _ _ => trivial
    · refine says_record.bind fun _ u₄ h₄ _ => ?_
      exact (hcopy continuing u₄ (h₃.trans h₄)).bind fun _ _ _ _ => says_build (says_stmt _)
  replace h₄ := h₃.trans h₄
  refine (says_build ((says_stmt _).bind fun _ _ _ _ => says_stmt _)).bind fun loop u₅ h₅ _ => ?_
  split
  · exact .pure fun _ _ => trivial
  · exact (hcopy init u₅ (h₄.trans h₅)).bind fun _ _ _ _ => says_build (says_stmt _)

theorem says_lowerLoop (id : NodeId)
    (hcopy : ∀ c u, t.Le u → (voice.naming p).Says (copy c) u fun _ _ => True) :
    (voice.naming p).Says (act copy (.lowerLoop id)) t fun _ _ => True := by
  intro w hw ht
  by_cases hfor : ∃ init cond continuing body,
      w.1.source.shape? id = some (.stmt (.forLoop init cond continuing body))
  · obtain ⟨init, cond, continuing, body, hs⟩ := hfor
    exact Runs.congr (act_lowerLoop copy hs rfl (by simp))
      (says_lowerFor id init cond continuing body hcopy w hw ht)
  refine Runs.bind (Runs.get (Runs.bind ((says_record w hw ht).mono fun _ w₁ hr => ?_)))
  obtain ⟨h₁, hle, _⟩ := hr
  have hspoken : ∀ {step : Edit Rule Hoist NodeId}, (voice.naming p).Says step t (fun _ _ => True) →
      Runs step w₁ (fun _ => True) fun _ w' => (voice.naming p).fit w'.1 ∧
        ((voice.naming p).table w.1).Le ((voice.naming p).table w'.1) ∧ True :=
    fun h => (h w₁ h₁ (ht.trans hle)).mono fun _ _ hr => ⟨hr.1, hle.trans hr.2.1, hr.2.2⟩
  split
  · next hs => exact absurd ⟨_, _, _, _, hs⟩ hfor
  · next cond body _ =>
    refine hspoken ((says_breakUnless cond hcopy).bind fun test u₂ h₂ _ => ?_)
    exact (hcopy body u₂ h₂).bind fun inner _ _ _ =>
      says_build ((says_stmt _).bind fun _ _ _ _ => says_stmt _)
  · exact hspoken (.pure fun _ _ => trivial)

theorem speaks_act : Speaks voice p Promote.act := by
  refine speaks_of_says fun copy rule id t hu hcopy => ?_
  obtain ⟨_, hu⟩ := hu
  cases rule with
  | reference s =>
    exact Naming.Says.get.bind fun _ _ h _ =>
      says_build (says_identSym (SymbolTable.Has.later hu h))
  | lowerLoop id => exact says_lowerLoop id hcopy
  | lowerElse id =>
    refine Naming.Says.get.bind fun s u₀ h₀ _ => ?_
    dsimp only
    split
    · next cond body otherwise _ =>
      refine (hcopy cond u₀ h₀).bind fun c u₁ h₁ _ => ?_
      refine (hcopy body u₁ (h₀.trans h₁)).bind fun b u₂ h₂ _ => ?_
      refine (hcopy otherwise u₂ ((h₀.trans h₁).trans h₂)).bind fun e u₃ _ _ => ?_
      refine says_record.bind fun _ u₄ _ _ => says_build ?_
      exact (says_stmt _).bind fun _ _ _ _ => says_stmt _
    · exact .pure fun _ _ => trivial

theorem says_insertBefore (n : Nat) (id stmt : NodeId) (t : SymbolTable) :
    (voice.naming p).Says (insertBefore n id stmt : Work Rule Hoist Unit) t fun _ _ => True := by
  induction n generalizing id t with
  | zero => exact .throw
  | succ n ih =>
    refine Naming.Says.get.bind fun s u _ _ => ?_
    dsimp only
    split
    · exact .throw
    split
    · exact Work.says_edit (says_changeRecord _)
    split
    · exact Work.says_edit (Edit.says_insertBefore _ _)
    · split
      · exact ih _ _
      split
      · exact Work.says_edit (says_changeRecord _)
      · exact .throw
    · exact .throw

theorem says_add (hp : p.toArena.SpelledOut) (before expr : NodeId) (asLet : Bool) (hint : String) :
    (voice.naming p).Says (add Promote.act before expr asLet hint) t fun _ _ => True := by
  refine Naming.Says.get.bind fun s u₀ _ _ => ?_
  dsimp only
  split
  · exact Naming.Says.bind (P := fun _ _ => False) .throw fun _ _ _ h => h.elim
  refine (Work.says_build (says_freshSymbol hint)).bind fun name u₁ _ hname => ?_
  refine (Work.says_edit (says_copy hp speaks_act expr u₁)).bind fun value u₂ h₂ _ => ?_
  refine (Work.says_build (says_variableSym _ (hname.later h₂) _ _ _)).bind fun decl u₃ h₃ _ => ?_
  refine (Work.says_edit (says_replaceWith expr fun u _ hu _ =>
    hname.later ((h₂.trans h₃).trans hu))).bind fun _ u₄ _ _ => ?_
  refine (Work.says_build (says_stmt _)).bind fun declared u₅ _ _ => ?_
  split
  · exact Work.says_edit (says_changeRecord _)
  · exact Naming.Says.get.bind fun _ u₆ _ _ => says_insertBefore _ _ _ u₆

theorem says_apply : (voice.naming p).Says (apply : Edit Rule Hoist Unit) t fun _ _ => True := by
  refine says_record.bind fun h u _ _ => ?_
  refine (Naming.Says.forIn fun l _ u _ => ?_).bind fun _ u _ _ =>
    (Naming.Says.forIn fun e _ u _ => ?_).done
  · exact (says_replaceWith _ fun _ _ _ _ => trivial).yield
  · exact (says_replaceWith _ fun _ _ _ _ => trivial).yield

end Hoist

theorem Promote.says_work (hp : p.toArena.SpelledOut) :
    (Hoist.voice.naming p).Says (Promote.work p) t fun _ _ => True := by
  refine (Naming.Says.forIn fun id _ u _ => ?_).bind fun _ u _ _ => ?_
  · exact (Hoist.says_add hp _ _ _ _).yield
  refine (Work.says_edit Hoist.says_apply).bind fun _ u _ _ => ?_
  exact (Work.says_edit (says_copyModule hp Hoist.speaks_act u)).done

namespace Planes

/-- The names in the helper functions, the newest first. -/
def Locals.all (l : Locals) : List Symbol :=
  [l.b, l.g, l.r, l.v, l.u, l.uv, l.y, l.params, l.coord, l.smp, l.plane1, l.plane0]

/-- What was declared has names in the table, and companions come with their structure. -/
structure Made.Spoken (t : SymbolTable) (m : Made) : Prop where
  struct : ∀ s ∈ m.paramsStruct, t.Has s
  companions : ∀ x ∈ m.companions, (t.Has x.2.plane1 ∧ t.Has x.2.params) ∧ m.paramsStruct.isSome
  helper : ∀ f, ∀ s ∈ m.helper f, t.Has s
  locals : ∀ l ∈ m.locals, ∀ s ∈ l.all, t.Has s

/-- Companions have names, and their structure was declared. In sessions that are past the
declaration of the structure, `declared` holds. -/
def voice (declared : Prop) : Voice Use Made where
  state t st := st.Spoken t ∧ (declared → st.paramsStruct.isSome)
  use t st
    | .converted _ c _ => (t.Has c.plane1 ∧ t.Has c.params) ∧ st.paramsStruct.isSome
    | _ => True
  state_later hle h := ⟨⟨fun s hs => (h.1.struct s hs).later hle,
    fun x hx => ⟨⟨(h.1.companions x hx).1.1.later hle, (h.1.companions x hx).1.2.later hle⟩,
      (h.1.companions x hx).2⟩,
    fun f s hs => (h.1.helper f s hs).later hle, fun l hl s hs => (h.1.locals l hl s hs).later hle⟩,
    h.2⟩
  use_later {t u _ h} hle hu := by
    cases h with
    | converted => exact ⟨⟨hu.1.1.later hle, hu.1.2.later hle⟩, hu.2⟩
    | _ => trivial

variable {declared : Prop} {l : Locals} {struct : Symbol} {fetch : Fetch}

/-- After the declaration the state may change in any way that keeps the names. -/
theorem says_setState (p : Program) (declared : Prop) {st : Made} (h : st.Spoken t)
    (hd : st.paramsStruct.isSome) :
    ((voice declared).naming p).Says (Edit.setState st : PlaneEdit Unit) t fun _ _ => True := by
  refine Edit.says_setState ⟨h, fun _ => hd⟩ fun st' k u _ _ hu => ?_
  cases k with
  | converted => exact ⟨hu.1, hd⟩
  | _ => trivial

section Helpers

namespace Helper

theorem says_parameter {s : Symbol} {type : Build NodeId} (hs : t.Has s)
    (ht : Builder.naming.Says type t fun _ _ => True) :
    Builder.naming.Says (parameter s type) t fun _ _ => True :=
  ht.bind fun _ _ hu _ => says_variableSym _ (hs.later hu) _ _ _

theorem says_vector {elem : TypeShape Symbol NodeId} (width : Int)
    (h : ∀ s ∈ (Shape.type elem).names, t.Has s) :
    Builder.naming.Says (vector elem width) t fun _ _ => True :=
  (says_type h).bind fun _ _ _ _ => says_type (by simp [Shape.names])

/-- The names are in the table, and in all that come after it. -/
abbrev Known (t : SymbolTable) (l : Locals) : Prop := ∀ s ∈ l.all, t.Has s

theorem Known.later {u : SymbolTable} (h : Known t l) (hle : t.Le u) : Known u l :=
  fun s hs => (h s hs).later hle

theorem says_parameters (hl : Known t l) (hs : t.Has struct) :
    Builder.naming.Says (parameters fetch l struct) t fun _ _ => True := by
  refine (says_parameter (hl _ (by simp [Locals.all])) says_texture2d).bind fun _ u₁ h₁ _ => ?_
  replace hl := Known.later hl h₁
  refine (says_parameter (hl _ (by simp [Locals.all])) says_texture2d).bind fun _ u₂ h₂ _ => ?_
  replace hl := Known.later hl h₂
  have hs := hs.later (h₁.trans h₂)
  have hend : ∀ place u, u₂.Le u → Builder.naming.Says (do
      let params ← parameter l.params (Build.type (.named struct))
      pure (place ++ [params]) : Build (List NodeId)) u fun _ _ => True := fun place u hu =>
    (says_parameter (Known.later hl hu _ (by simp [Locals.all])) (says_named (hs.later hu))).done
  cases fetch with
  | sample =>
    refine (says_parameter (hl _ (by simp [Locals.all])) (says_type (by simp [Shape.names]))).bind
      fun _ u₃ h₃ _ => ?_
    exact (says_parameter (Known.later hl h₃ _ (by simp [Locals.all]))
      (says_vector 2 (by simp [Shape.names]))).bind
      fun _ u₄ h₄ _ => hend _ u₄ (h₃.trans h₄)
  | load =>
    exact (says_parameter (hl _ (by simp [Locals.all]))
      (says_vector 2 (by simp [Shape.names]))).bind
      fun _ u₃ h₃ _ => hend _ u₃ h₃

theorem says_readPlane {plane : Symbol} (hl : Known t l) (hp : t.Has plane) :
    Builder.naming.Says (readPlane fetch l plane) t fun _ _ => True := by
  refine (says_identSym hp).bind fun _ u₁ h₁ _ => ?_
  replace hl := Known.later hl h₁
  cases fetch with
  | sample =>
    refine (says_identSym (hl _ (by simp [Locals.all]))).bind fun _ u₂ h₂ _ => ?_
    refine (says_identSym (Known.later hl h₂ _ (by simp [Locals.all]))).bind fun _ u₃ _ _ => ?_
    exact says_call _ (by simp [Operand.Spoken])
  | load =>
    refine (says_identSym (hl _ (by simp [Locals.all]))).bind fun _ u₂ _ _ => ?_
    exact says_call _ (by simp [Operand.Spoken])

theorem says_component {s : Symbol} (hs : t.Has s) (field : String) :
    Builder.naming.Says (component s field) t fun _ _ => True :=
  (says_identSym hs).bind fun id _ _ _ => says_member (x := .node id) trivial field

theorem says_declareLet {s : Symbol} (hs : t.Has s) (value : NodeId) :
    Builder.naming.Says (declareLet s value) t fun _ _ => True :=
  (says_variableSym _ hs _ _ _).bind fun _ _ _ _ => says_stmt _

theorem says_level {plane : Symbol} (hl : Known t l) (hp : t.Has plane) (components : String)
    (base : Binary64) :
    Builder.naming.Says (level fetch l plane components base) t fun _ _ => True :=
  (says_readPlane hl hp).bind fun value _ _ _ =>
    (says_member (x := .node value) trivial components).bind
    fun _ _ _ _ => says_binary .sub trivial trivial

theorem says_luma (hl : Known t l) : Builder.naming.Says (luma l) t fun _ _ => True :=
  (says_identSym (hl _ (by simp [Locals.all]))).bind fun _ _ _ _ => says_binary .mul trivial trivial

theorem says_chroma (hl : Known t l) {s : Symbol} (hs : t.Has s) (field : String) :
    Builder.naming.Says (chroma l field s) t fun _ _ => True :=
  (says_component (hl _ (by simp [Locals.all])) field).bind fun _ _ hu _ =>
    (says_identSym (hs.later hu)).bind fun _ _ _ _ => says_binary .mul trivial trivial

theorem says_combine {lhs rhs : Build NodeId} (op : BinaryOp)
    (hl : Builder.naming.Says lhs t fun _ _ => True)
    (hr : Builder.naming.Says rhs t fun _ _ => True) :
    Builder.naming.Says (combine op lhs rhs) t fun _ _ => True :=
  hl.bind fun _ _ hu _ => (hr.later hu).bind fun _ _ _ _ => says_binary op trivial trivial

theorem says_singlePlane (hl : Known t l) :
    Builder.naming.Says (singlePlane fetch l) t fun _ _ => True := by
  refine (says_component (hl _ (by simp [Locals.all])) _).bind fun _ u₁ h₁ _ => ?_
  refine (says_push _ (by simp [Shape.names])).bind fun _ u₂ h₂ _ => ?_
  refine (says_binary (x := .node _) (y := .node _) .equal trivial trivial).bind fun test u₃ h₃ _ =>
    ?_
  replace hl := Known.later hl ((h₁.trans h₂).trans h₃)
  refine (says_readPlane hl (hl _ (by simp [Locals.all]))).bind fun value u₄ _ _ => ?_
  refine (says_returnValue (x := .node value) trivial).bind fun _ u₅ _ _ =>
    (says_stmt _).bind fun _ u₆ _ _ => ?_
  exact (says_operand (o := .node test) trivial).bind fun _ _ _ _ => says_stmt _

/-- A value is made and gets a name. -/
theorem says_letThen {α : Type} {make : Build NodeId} {s : Symbol} {next : NodeId → Build α}
    (hl : Known t l) (hs : s ∈ l.all) (h : Builder.naming.Says make t fun _ _ => True)
    (hn : ∀ d u, Known u l → Builder.naming.Says (next d) u fun _ _ => True) :
    Builder.naming.Says (do next (← declareLet s (← make))) t fun _ _ => True :=
  h.bind fun value _ hu _ => (says_declareLet (Known.later hl hu s hs) value).bind fun d _ hv _ =>
    hn d _ (Known.later hl (hu.trans hv))

theorem says_body (hl : Known t l) : Builder.naming.Says (body fetch l) t fun _ _ => True := by
  have hin : ∀ {u : SymbolTable} {s : Symbol}, Known u l → s ∈ l.all → u.Has s := fun h hs => h _ hs
  refine (says_singlePlane hl).bind fun _ u₁ h₁ _ => ?_
  replace hl := Known.later hl h₁
  refine says_letThen hl (by simp [Locals.all]) (says_level hl (hin hl (by simp [Locals.all])) _ _)
    fun _ u hl => ?_
  refine says_letThen hl (by simp [Locals.all]) (says_level hl (hin hl (by simp [Locals.all])) _ _)
    fun _ u hl => ?_
  refine says_letThen hl (by simp [Locals.all]) (says_component (hin hl (by simp [Locals.all])) _)
    fun _ u hl => ?_
  refine says_letThen hl (by simp [Locals.all]) (says_component (hin hl (by simp [Locals.all])) _)
    fun _ u hl => ?_
  have hu := hin hl (s := l.u) (by simp [Locals.all])
  have hv := hin hl (s := l.v) (by simp [Locals.all])
  refine says_letThen hl (by simp [Locals.all])
    (says_combine .add (says_luma hl) (says_chroma hl hv _)) fun _ u hl => ?_
  have hu := hin hl (s := l.u) (by simp [Locals.all])
  have hv := hin hl (s := l.v) (by simp [Locals.all])
  refine says_letThen hl (by simp [Locals.all]) (says_combine .sub
    (says_combine .sub (says_luma hl) (says_chroma hl hu _)) (says_chroma hl hv _)) fun _ u hl => ?_
  have hu := hin hl (s := l.u) (by simp [Locals.all])
  refine says_letThen hl (by simp [Locals.all])
    (says_combine .add (says_luma hl) (says_chroma hl hu _)) fun _ u hl => ?_
  refine (says_vector 4 (by simp [Shape.names])).bind fun type u₂ h₂ _ => ?_
  replace hl := Known.later hl h₂
  refine (says_identSym (hl _ (by simp [Locals.all]))).bind fun _ u₃ h₃ _ => ?_
  replace hl := Known.later hl h₃
  refine (says_identSym (hl _ (by simp [Locals.all]))).bind fun _ u₄ h₄ _ => ?_
  replace hl := Known.later hl h₄
  refine (says_identSym (hl _ (by simp [Locals.all]))).bind fun _ u₅ _ _ => ?_
  refine (says_construct type (by simp [Operand.Spoken])).bind fun colour u₆ _ _ => ?_
  exact (says_returnValue (x := .node colour) trivial).done

theorem says_declare {s : Symbol} (hl : Known t l) (hs : t.Has s) (hstruct : t.Has struct) :
    Builder.naming.Says (declare fetch s struct l) t fun _ _ => True := by
  refine (says_parameters hl hstruct).bind fun params u₁ h₁ _ => ?_
  refine (says_body (Known.later hl h₁)).bind fun statements u₂ h₂ _ => ?_
  refine (says_vector 4 (by simp [Shape.names])).bind fun type u₃ h₃ _ => ?_
  exact (says_functionSym (hs.later ((h₁.trans h₂).trans h₃)) _ _ _ _ _).done

end Helper

/-- A new name beside names that are known. -/
theorem says_freshThen {α : Type} {known : List Symbol} {hint : String} {next : Symbol → Build α}
    {Q : SymbolTable → α → Prop} (h : ∀ s ∈ known, t.Has s)
    (hn : ∀ x u, (∀ s ∈ x :: known, u.Has s) → Builder.naming.Says (next x) u Q) :
    Builder.naming.Says (Build.freshSymbol hint >>= next) t Q := by
  refine (says_freshSymbol hint).bind fun x u hu hx => hn x u fun s hs => ?_
  rcases List.mem_cons.1 hs with rfl | hs
  · exact hx
  · exact (h s hs).later hu

theorem says_freshLocals : Builder.naming.Says freshLocals t fun u l => ∀ s ∈ l.all, u.Has s := by
  refine says_freshThen (fun s (hs : s ∈ []) => nomatch hs) fun _ _ h => ?_
  iterate 11 refine says_freshThen h fun _ _ h => ?_
  exact .pure fun u hu s hs => (h s hs).later hu

theorem says_freshCompanions :
    Builder.naming.Says freshCompanions t fun u c => u.Has c.plane1 ∧ u.Has c.params := by
  refine (says_freshSymbol _).bind fun _ u₁ _ h₁ => (says_freshSymbol _).bind fun _ u₂ h h₂ => ?_
  exact .pure fun u hu => ⟨h₁.later (h.trans hu), h₂.later hu⟩

end Helpers

section Session

/-- Past the declaration of the structure the session stays there. -/
theorem weaken {s : Session Use Made} (h : s.SpelledOut (voice declared) p) :
    s.SpelledOut (voice False) p :=
  ⟨h.source, h.target, h.names, h.symbols, h.rule, ⟨h.state.1, nofun⟩, h.replaced, h.handlers⟩

theorem strengthen {s : Session Use Made} (h : s.SpelledOut (voice declared) p)
    (hs : s.state.paramsStruct.isSome) : s.SpelledOut (voice True) p :=
  ⟨h.source, h.target, h.names, h.symbols, h.rule, ⟨h.state.1, fun _ => hs⟩, h.replaced, h.handlers⟩

/-- What is done after the declaration, seen from outside. -/
theorem runs_declared {ε α : Type} {step : EStateM ε (Session Use Made) α}
    {Q : SymbolTable → α → Prop} {w : World Use Made} (hw : w.1.SpelledOut (voice declared) p)
    (hs : w.1.state.paramsStruct.isSome)
    (h : ((voice True).naming p).Says step w.1.target.symbols Q) :
    Runs step w (fun _ => True) fun a w' => w'.1.SpelledOut (voice False) p ∧
      w.1.target.symbols.Le w'.1.target.symbols ∧ Q w'.1.target.symbols a :=
  (h w (strengthen hw hs) (.refl _)).mono fun _ _ hr => ⟨weaken hr.1, hr.2⟩

theorem says_paramsStruct : ((voice declared).naming p).Says paramsStruct t fun u s => u.Has s := by
  refine says_getState.bind fun st u₁ h₁ hst => ?_
  split
  · next s hs => exact .pure fun u hu => (hst.1.struct s hs).later hu
  · next hnone =>
    refine (says_build (Q := fun u s => u.Has s) ?_).bind fun s u₂ h₂ hs => ?_
    · refine (says_freshSymbol _).bind fun s u₂ _ hs => ?_
      refine (says_type (by simp [Shape.names])).bind fun _ u₃ h₃ _ => ?_
      refine (says_structMember _ _ _).bind fun count u₄ h₄ _ => ?_
      refine (Naming.Says.mapM fun field _ u _ => ?_).bind fun rest u₅ h₅ _ => ?_
      · exact (says_type (by simp [Shape.names])).bind fun _ _ _ _ => says_structMember _ _ _
      have hs := hs.later ((h₃.trans h₄).trans h₅)
      exact (says_structSym hs _).bind fun _ _ hu _ => .pure fun v hv => hs.later (hu.trans hv)
    refine says_getState.bind fun st u₃ h₃ hst => ?_
    have hs := hs.later h₃
    refine (says_setState p declared (?_ : Made.Spoken u₃ { st with paramsStruct := some s })
      rfl).bind
      fun _ u₄ h₄ _ => .pure fun u hu => hs.later (h₄.trans hu)
    refine ⟨?_, ?_, ?_, ?_⟩
    · intro s' hs'
      cases hs'
      exact hs
    · exact fun x hx => ⟨(hst.1.companions x hx).1, rfl⟩
    · exact hst.1.helper
    · exact hst.1.locals

/-- The structure is declared afterwards. -/
theorem declares_paramsStruct {w : World Use Made} (hw : w.1.SpelledOut (voice declared) p) :
    Runs paramsStruct w (fun _ => True) fun s w' => (w'.1.SpelledOut (voice True) p ∧
      w.1.target.symbols.Le w'.1.target.symbols) ∧ w'.1.target.symbols.Has s := by
  have hdeclared : Runs paramsStruct w (fun _ => True) fun _ w' =>
      w'.1.state.paramsStruct.isSome := by
    refine Runs.bind (Runs.bind (Runs.get (Runs.pure w.2 ?_)))
    split
    · next s hs => exact Runs.pure w.2 (by simp [hs])
    · refine Runs.bind ((Runs.unknown _ w).mono fun s w₁ _ => ?_)
      refine Runs.bind (Runs.bind (Runs.get (Runs.pure w₁.2 ?_)))
      exact Runs.bind (Runs.modify w₁.2 (Runs.pure w₁.2 rfl))
  refine ((says_paramsStruct w hw (.refl _)).and (P := fun _ s => s.state.paramsStruct.isSome)
    hdeclared).mono fun s w' hr => ?_
  obtain ⟨⟨hf, hle, hs⟩, hd⟩ := hr
  exact ⟨⟨strengthen hf hd, hle⟩, hs⟩

theorem says_remember (id : NodeId) {c : Companions} (hc : t.Has c.plane1 ∧ t.Has c.params) :
    ((voice True).naming p).Says (remember id c) t fun _ _ => True := by
  refine says_getState.bind fun st u hu hst => ?_
  have hd := hst.2 trivial
  refine says_setState p True ⟨hst.1.struct, fun x hx => ?_, hst.1.helper, hst.1.locals⟩ hd
  rcases List.mem_cons.1 hx with rfl | hx
  · exact ⟨⟨hc.1.later hu, hc.2.later hu⟩, hd⟩
  · exact hst.1.companions x hx

/-- What is done with a structure that is declared when it is needed. -/
theorem says_withStruct {α : Type} {next : Symbol → PlaneEdit α}
    (h : ∀ s u, t.Le u → u.Has s → ((voice True).naming p).Says (next s) u fun _ _ => True) :
    ((voice False).naming p).Says (paramsStruct >>= next) t fun _ _ => True := by
  intro w hw ht
  refine Runs.bind ((declares_paramsStruct hw).mono fun s w₁ hr => ?_)
  obtain ⟨⟨h₁, hle⟩, hs⟩ := hr
  refine (h s _ (ht.trans hle) hs w₁ h₁ (.refl _)).mono fun _ w₂ hr => ?_
  exact ⟨weaken hr.1, hle.trans hr.2.1, trivial⟩

theorem says_bindAt {s : Symbol} (hs : t.Has s) (type : NodeId) (space : AddressSpace)
    (point : BindingPoint) : Builder.naming.Says (bindAt s type space point) t fun _ _ => True :=
  (says_attr _).bind fun _ _ h₁ _ => (says_attr _).bind fun _ _ h₂ _ =>
    (says_global (says_variableSym _ (hs.later (h₁.trans h₂)) _ _ _)).done

theorem says_addGlobal (points : PointMap PlanePoints) (v : VariableFacts) :
    ((voice False).naming p).Says (addGlobal points v) t fun _ _ => True := by
  refine (Work.says_need _).bind fun point u _ _ => (Work.says_need _).bind fun planes u _ _ => ?_
  refine Work.says_edit (says_withStruct fun struct u _ hs => ?_)
  refine (says_build says_freshCompanions).bind fun c u₁ h₁ hc => ?_
  refine (says_build (Q := fun _ _ => True) ?_).bind fun _ u₂ h₂ _ =>
    says_remember _ ⟨hc.1.later h₂, hc.2.later h₂⟩
  refine says_texture2d.bind fun _ u₂ h₂ _ =>
    (says_bindAt (hc.1.later h₂) _ _ _).bind fun _ u₃ h₃ _ => ?_
  refine (says_named (hs.later ((h₁.trans h₂).trans h₃))).bind fun _ u₄ h₄ _ => ?_
  exact says_bindAt (hc.2.later ((h₂.trans h₃).trans h₄)) _ _ _

theorem says_addParameter (id : NodeId) :
    ((voice False).naming p).Says (addParameter id) t fun _ _ => True := by
  refine says_withStruct fun struct u _ hs => ?_
  refine (says_build says_freshCompanions).bind fun c u₁ h₁ hc => ?_
  refine (says_build (Q := fun _ _ => True) (says_texture2d.bind fun _ u₂ h₂ _ =>
    says_variableSym _ (hc.1.later h₂) _ _ _)).bind fun _ u₂ h₂ _ => ?_
  refine (says_insertAfter _ _).bind fun _ u₃ h₃ _ => ?_
  have h₂₃ := h₂.trans h₃
  refine (says_build (Q := fun _ _ => True)
    ((says_named (hs.later (h₁.trans h₂₃))).bind fun _ u₄ h₄ _ =>
    says_variableSym _ (hc.2.later (h₂₃.trans h₄)) _ _ _)).bind fun _ u₄ h₄ _ => ?_
  refine (says_insertAfter _ _).bind fun _ u₅ h₅ _ => ?_
  have h₂₅ := (h₂₃.trans h₄).trans h₅
  exact says_remember id ⟨hc.1.later h₂₅, hc.2.later h₂₅⟩

/-- Companions that are remembered have names. -/
theorem runs_companionsOf {w : World Use Made} (hw : w.1.SpelledOut (voice False) p)
    (expr : NodeId) :
    Runs (companionsOf p expr) w (fun _ => True) fun c w' => w' = w ∧
      ∀ c' ∈ c, (w.1.target.symbols.Has c'.plane1 ∧ w.1.target.symbols.Has c'.params) ∧
        w.1.state.paramsStruct.isSome := by
  refine Runs.bind (Runs.bind (Runs.get (Runs.pure w.2 (Runs.pure w.2 ⟨rfl, fun c hc => ?_⟩))))
  obtain ⟨v, _, hv⟩ := Option.bind_eq_some_iff.1 hc
  obtain ⟨l₁, l₂, hl, _⟩ := List.lookup_eq_some_iff.1 hv
  exact hw.state.1.companions (v.decl, c) (by simp [hl])

theorem says_passOn (arg : NodeId) :
    ((voice False).naming p).Says (passOn p arg) t fun _ _ => True := by
  intro w hw ht
  refine Runs.bind ((runs_companionsOf hw arg).mono fun c w' hr => ?_)
  obtain ⟨rfl, hc⟩ := hr
  split
  · next c =>
    obtain ⟨⟨h₁, h₂⟩, _⟩ := hc c rfl
    have hspoken : ((voice False).naming p).Says (do
        Edit.insertAfter arg (← Edit.build (Build.identSym c.plane1))
        Edit.insertAfter arg (← Edit.build (Build.identSym c.params)) :
        PlaneEdit Unit) w'.1.target.symbols
        fun _ _ => True := by
      refine (says_build (says_identSym h₁)).bind fun _ u₁ l₁ _ =>
        (says_insertAfter _ _).bind fun _ u₂ l₂ _ => ?_
      exact (says_build (says_identSym (h₂.later (l₁.trans l₂)))).bind fun _ u₃ _ _ =>
        says_insertAfter _ _
    exact hspoken w' hw (.refl _)
  · exact Runs.pure w'.2 ⟨hw, .refl _, trivial⟩

theorem says_addCall (id : NodeId) (args : List NodeId) (call : ExprFacts) :
    ((voice False).naming p).Says (addCall p id args call) t fun _ _ => True := by
  unfold addCall
  split
  · exact (Naming.Says.forIn fun arg _ u _ => (says_passOn arg).yield).done
  split
  · next texture rest =>
    intro w hw ht
    refine Runs.bind ((runs_companionsOf hw texture).mono fun c w' hr => ?_)
    obtain ⟨rfl, hc⟩ := hr
    have hnone : Runs (pure () : PlaneEdit Unit) w' (fun _ => True) fun _ w =>
        ((voice False).naming p).fit w.1 ∧
        (((voice False).naming p).table w'.1).Le (((voice False).naming p).table w.1) ∧ True :=
      Runs.pure w'.2 ⟨hw, .refl _, trivial⟩
    split
    · next c =>
      dsimp only
      split
      · next fetch _ =>
        refine (Edit.runs_replaceWith hw id (k := .converted fetch c (texture :: rest))
          (hc c rfl)).mono fun _ w₁ hr => ?_
        refine ⟨hr.1, ?_, trivial⟩
        have htable : ((voice False).naming p).table w₁.1 = ((voice False).naming p).table w'.1 :=
          congrArg (·.symbols) hr.2
        rw [htable]
        exact .refl _
      · exact hnone
    · exact hnone
  · exact .pure fun _ _ => trivial

theorem says_locals : ((voice True).naming p).Says locals t fun u l => ∀ s ∈ l.all, u.Has s := by
  refine says_getState.bind fun st u hu hst => ?_
  split
  · next l hl => exact .pure fun u hu s hs => (hst.1.locals l hl s hs).later hu
  · refine (says_build says_freshLocals).bind fun l u₁ h₁ hl =>
      says_getState.bind fun st u₂ h₂ hst => ?_
    refine (says_setState p True (?_ : Made.Spoken u₂ { st with locals := some l })
      (hst.2 trivial)).bind
      fun _ u₃ h₃ _ => .pure fun u hu s hs => (hl s hs).later ((h₂.trans h₃).trans hu)
    refine ⟨hst.1.struct, hst.1.companions, hst.1.helper, fun l' hl' s hs => ?_⟩
    cases hl'
    exact (hl s hs).later h₂

theorem says_helper (fetch : Fetch) :
    ((voice True).naming p).Says (helper fetch) t fun u s => u.Has s := by
  refine says_getState.bind fun st u hu hst => ?_
  split
  · next s hs => exact .pure fun u hu => (hst.1.helper fetch s hs).later hu
  · refine (says_build (says_freshSymbol _)).bind fun s u₁ h₁ hs =>
      says_locals.bind fun l u₂ h₂ hl => ?_
    refine says_getState.bind fun st u₃ h₃ hst => ?_
    obtain ⟨struct, hstruct⟩ := Option.isSome_iff_exists.1 (hst.2 trivial)
    have hhas : u₃.Has (st.paramsStruct.getD 0) := by
      rw [hstruct]
      exact hst.1.struct struct hstruct
    replace hs := hs.later (h₂.trans h₃)
    refine (says_build (Helper.says_declare (Helper.Known.later hl h₃) hs hhas)).bind
      fun _ u₄ h₄ _ => ?_
    refine says_getState.bind fun st u₅ h₅ hst => ?_
    replace hs := hs.later (h₄.trans h₅)
    have hsome : (st.setHelper s fetch).paramsStruct = st.paramsStruct := by cases fetch <;> rfl
    refine (says_setState p True (?_ : (st.setHelper s fetch).Spoken u₅)
      (by rw [hsome]; exact hst.2 trivial)).bind
      fun _ u₆ h₆ _ => .pure fun u hu => hs.later (h₆.trans hu)
    refine ⟨?_, ?_, ?_, ?_⟩
    · rw [hsome]
      exact hst.1.struct
    · rw [hsome, show (st.setHelper s fetch).companions = st.companions by cases fetch <;> rfl]
      exact hst.1.companions
    · intro f s' hs'
      cases fetch <;> cases f
      · cases hs'
        exact hs
      · exact hst.1.helper .load s' hs'
      · exact hst.1.helper .sample s' hs'
      · cases hs'
        exact hs
    · rw [show (st.setHelper s fetch).locals = st.locals by cases fetch <;> rfl]
      exact hst.1.locals

theorem speaks_act : Speaks (voice False) p act := by
  intro copy use id w hw hu hcopy
  cases use with
  | plane => exact (says_build says_texture2d w hw (.refl _)).mono fun _ _ hr => ⟨hr.1, hr.2.1⟩
  | named =>
    have hspoken : ((voice False).naming p).Says (act copy .named id) w.1.target.symbols fun _ _ =>
        True := by
      refine says_source.bind fun q u _ _ => ?_
      split
      · exact says_build says_texture2d
      · exact .pure fun _ _ => trivial
    exact (hspoken w hw (.refl _)).mono fun _ _ hr => ⟨hr.1, hr.2.1⟩
  | converted fetch c args =>
    refine Runs.bind ((runs_declared hw hu.2 (says_helper fetch)).mono fun s w₁ hr => ?_)
    obtain ⟨h₁, hle, hs⟩ := hr
    have hspoken : ((voice False).naming p).Says (do
        let texture ← (args.take 1).mapM copy
        let plane1 ← Edit.build (Build.identSym c.plane1)
        let rest ← (args.drop 1).mapM copy
        let params ← Edit.build (Build.identSym c.params)
        Edit.build (Build.callSym s ((texture ++ [plane1] ++ rest ++ [params]).map .node)))
        w₁.1.target.symbols
        fun _ _ => True := by
      refine (Naming.Says.mapM fun x _ u hu => hcopy x u (hle.trans hu)).bind fun texture u₂ h₂ _ =>
        ?_
      refine (says_build (says_identSym (hu.1.1.later (hle.trans h₂)))).bind fun plane1 u₃ h₃ _ =>
        ?_
      have h₂₃ := h₂.trans h₃
      refine (Naming.Says.mapM fun x _ u hu => hcopy x u (hle.trans (h₂₃.trans hu))).bind
        fun rest u₄ h₄ _ => ?_
      have h₂₄ := h₂₃.trans h₄
      refine (says_build (says_identSym (hu.1.2.later (hle.trans h₂₄)))).bind fun params u₅ h₅ _ =>
        ?_
      refine says_build (says_callSym (hs.later (h₂₄.trans h₅)) fun o ho => ?_)
      obtain ⟨_, _, rfl⟩ := List.mem_map.1 ho
      trivial
    exact (hspoken w₁ h₁ (.refl _)).mono fun _ _ hr => ⟨hr.1, hle.trans hr.2.1⟩

theorem says_work (hp : p.toArena.SpelledOut) :
    ((voice False).naming p).Says (work p inputs) t fun _ _ => True := by
  refine (Work.says_need _).bind fun points u _ _ => ?_
  refine (Naming.Says.forIn fun id _ u _ => ?_).bind fun _ u _ _ => ?_
  · split
    · exact (says_addGlobal points _).yield
    · exact .pure fun _ _ => rfl
  refine (Work.says_edit (Q := fun _ _ => True) ?_).done
  refine (Naming.Says.forIn fun id _ u _ => ?_).bind fun _ u _ _ => ?_
  · split
    · exact (says_addParameter id).yield
    · exact .pure fun _ _ => rfl
  refine (says_replaceAll _ fun _ _ _ _ => trivial).bind fun _ u _ _ => ?_
  refine (says_replaceAll _ fun _ _ _ _ => trivial).bind fun _ u _ _ => ?_
  refine (Naming.Says.forIn fun id _ u _ => ?_).bind fun _ u _ _ => ?_
  · split
    · exact (says_remove id).yield
    · exact .pure fun _ _ => rfl
  refine (Naming.Says.forIn fun id _ u _ => ?_).bind fun _ u _ _ => says_copyModule hp speaks_act u
  split
  · exact (says_addCall id _ _).yield
  · exact .pure fun _ _ => rfl

end Session

end Planes

namespace Document.Decode

theorem says_symbol (path name : String) :
    Builder.naming.Says (symbol path name) t fun u s => u.Has s := by
  unfold symbol
  split
  · exact .throw
  · exact fun w hw _ => Runs.modifyGet w.2
      ⟨hw.renamed (SymbolTable.register_extends _ _), SymbolTable.register_extends _ _,
        SymbolTable.has_register _ _⟩

/-- How the names of a shape are read. -/
def spelling (t : SymbolTable) :
    Shape.Copying (Builder × (NodeId → NodeId)) String Symbol Field NodeId where
  inv w _ := w.1.SpelledOut ∧ t.Le w.1.symbols
  le w w' := w.1.symbols.Le w'.1.symbols
  name w _ y := w.1.symbols.Has y
  child _ _ _ := True
  list _ _ _ := True
  res _ := []
  le_refl _ := .refl _
  le_trans := .trans
  weaken h _ := h
  name_mono h hn := hn.later h
  child_mono _ h := h
  list_mono _ h := h

/-- The parts of a shape, over fields that can be read. -/
theorem says_parts (path : String) {s : Shape String Field}
    (hfield : ∀ f ∈ s.slots, ∀ u, Builder.naming.Says (field f) u fun _ _ => True) :
    Builder.naming.Says (parts path s) t fun u s => ∀ x ∈ s.names, u.Has x := by
  have hlist : ∀ fs : List Field, (∀ f ∈ fs, f ∈ s.slots) → ∀ u,
      Builder.naming.Says (fs.mapM field) u fun _ _ => True :=
    fun fs hfs u => .mapM fun f hf v _ => hfield f (hfs f hf) v
  have htraverse : Builder.naming.Says (s.traverse (symbol path) field fun _ fs => fs.mapM field) t
      fun u s => ∀ x ∈ s.names, u.Has x := by
    have hturns : (spelling t).Turns (fun _ : DecodeError => True)
        (s.traverse (symbol path) field fun _ fs => fs.mapM field) _ _ _ :=
      Shape.Copying.traverse (fun x _ w F hw => ?_) (fun c hc w F hw => ?_) fun k xs hxs w F hw =>
        ?_
    · intro w hw ht
      refine (hturns w [] ⟨hw, ht⟩).mono fun s w' hr => ?_
      obtain ⟨⟨hf, _⟩, hle, hrel⟩ := hr
      refine ⟨hf, hle, fun y hy => ?_⟩
      obtain ⟨_, _, hx⟩ := Shape.Rel.mem_names hrel y hy
      exact hx
    · exact (says_symbol path x w hw.1 hw.2).mono fun y w' hr => ⟨⟨hr.1, hw.2.trans hr.2.1⟩, hr.2⟩
    · exact (hfield c hc t w hw.1 hw.2).mono fun y w' hr => ⟨⟨hr.1, hw.2.trans hr.2.1⟩, hr.2⟩
    · exact (hlist xs (fun f hf => Shape.required_subset _ f (Shape.mem_required_of_lists hxs f hf))
        t w hw.1 hw.2).mono fun y w' hr =>
        ⟨⟨hr.1, hw.2.trans hr.2.1⟩, hr.2⟩
  unfold parts
  split
  · next f =>
    have hin : ∀ c ∈ f.attributes ++ f.params ++ f.returnAttributes ++ [f.returnType, f.body],
        c ∈ Shape.slots (.decl (.function f) : Shape String Field) :=
      fun c hc => hc
    refine (says_symbol path f.name).bind fun s u₁ h₁ hs => ?_
    refine (hlist f.params (fun c hc => hin c (by simp [hc])) u₁).bind fun ps u₂ h₂ _ => ?_
    refine (hfield f.returnType (hin _ (by simp)) u₂).bind fun ret u₃ h₃ _ => ?_
    refine (hlist f.returnAttributes (fun c hc => hin c (by simp [hc])) u₃).bind
      fun retAttrs u₄ h₄ _ => ?_
    refine (hfield f.body (hin _ (by simp)) u₄).bind fun b u₅ h₅ _ => ?_
    refine (hlist f.attributes (fun c hc => hin c (by simp [hc])) u₅).bind fun attrs u₆ h₆ _ => ?_
    refine .pure fun u hu x hx => ?_
    rw [List.mem_singleton.1 hx]
    exact hs.later (((((h₂.trans h₃).trans h₄).trans h₅).trans h₆).trans hu)
  · exact htraverse

theorem says_node (r : Record) : ∀ path t, Builder.naming.Says (node path r) t fun _ _ => True := by
  induction r using Record.induct with
  | h r ih =>
    intro path t
    rw [node_eq]
    cases hs : shape path r with
    | error e => exact .throw
    | ok s =>
      rw [make_ok]
      refine (says_parts path fun f hf u => ?_).bind fun s u hu hnames w hw ht => ?_
      · have hrecord := (shaped hs).parts f hf
        obtain ⟨path, required, record⟩ := f
        cases record with
        | none => cases required <;> first | exact .throw | exact .pure fun _ _ => trivial
        | some c => cases required <;> exact ih c hrecord _ u
      · exact Runs.modifyGet w.2 ⟨hw.push _ fun x hx => (hnames x hx).later ht, .refl _, trivial⟩

theorem says_globals (rs : List (Option Record)) (i : Nat) (t : SymbolTable) :
    Builder.naming.Says (globals i rs) t fun _ _ => True := by
  induction rs generalizing i t with
  | nil => exact .pure fun _ _ => trivial
  | cons r rs ih =>
    refine Naming.Says.bind (P := fun _ _ => True) ?_ fun id u _ _ => ?_
    · cases r with
      | none => exact .throw
      | some r => exact says_node r _ _
    · refine Naming.Says.bind (P := fun _ _ => True) (.modify fun _ h _ => ?_) fun _ v _ _ => ih _ v
      exact ⟨⟨⟨h.known, h.placed⟩, h.span⟩, .refl _⟩

end Document.Decode

/-- The program of a document is spelled out. -/
theorem Document.decode_spelledOut {m : Document.Module} (h : m.decode = .ok p) :
    p.toArena.SpelledOut := by
  have hstart : ({} : Builder).SpelledOut :=
    ⟨⟨fun hn => by simp [Arena.node?] at hn, fun hn => by simp [Arena.node?] at hn⟩, rfl⟩
  unfold Document.Module.decode at h
  split at h
  · cases h
  split at h
  · next b hb =>
    cases h
    obtain ⟨_, hf, _⟩ :=
      (Document.Decode.says_globals m.globals 0 _ ({}, id) hstart (.refl _)).ok hb
    exact hf.build
  · cases h

theorem Copy.plainCopy_spelledOut {q : Program} (hp : p.toArena.SpelledOut)
    (h : plainCopy p = .ok q) : q.toArena.SpelledOut := by
  unfold plainCopy at h
  split at h
  · next s hs =>
    cases h
    have hspoken := says_copyModule hp (V := .silent Empty Unit) speaks_noHandlers p.symbols
    obtain ⟨_, hf, _⟩ := (hspoken (Session.start p (), id) (.start trivial) (.refl _)).ok hs
    exact hf.target.build
  · cases h

/-- A pass leaves no name unexplained. -/
theorem Pass.spelledOut {t : Pass} {out : Output} (ht : t ∈ Pass.all) (hp : p.toArena.SpelledOut)
    (hb : p.Built) (hout : t.apply p inputs = .ok out) : out.program.toArena.SpelledOut := by
  simp only [Pass.all, List.mem_cons, List.not_mem_nil, or_false] at ht
  rcases ht with rfl | rfl | rfl | rfl | rfl | rfl | rfl | rfl | rfl
  · exact apply_spelledOut hp trivial rfl (FirstIndex.says_work hp) hout
  · exact apply_spelledOut hp trivial rfl (Workgroups.says_work hp hb) hout
  · have hstart : Planes.Made.Spoken p.symbols {} :=
      ⟨by simp, by simp, fun f => by cases f <;> simp [Planes.Made.helper], by simp⟩
    exact apply_spelledOut hp (V := Planes.voice False) ⟨hstart, False.elim⟩ rfl
      (Planes.says_work hp) hout
  · exact apply_spelledOut hp trivial rfl (Rebind.says_work hp) hout
  · exact apply_spelledOut hp trivial rfl (EntryPoint.says_work hp) hout
  · exact apply_spelledOut hp trivial rfl (Unreachable.says_work hp) hout
  · exact apply_spelledOut hp trivial rfl (Promote.says_work hp) hout
  · exact apply_spelledOut hp trivial rfl (Rename.says_work hp) hout
  · exact apply_spelledOut hp trivial rfl (Shuffle.says_work hp) hout

/-- However many passes a program went through, its names are all explained. -/
theorem Program.Derived.spelledOut {allowed : Data → Prop} (h : p.Derived allowed) :
    p.toArena.SpelledOut := by
  induction h with
  | decoded h => exact Document.decode_spelledOut h
  | copied _ h ih => exact plainCopy_spelledOut ih h
  | applied hp ht _ hout ih => exact Pass.spelledOut ht ih hp.sturdy.built hout

end ShaderLoom
