import ShaderLoom.Pass.Rebind
import ShaderLoom.Proofs.Copy.Register

/-! Moving resources to other binding points keeps programs fit. -/
namespace ShaderLoom

/-- The access modes of a remapping are declared ones. -/
def Data.Declared (inputs : Data) : Prop :=
  ∀ r, inputs.get? .remapping = some r → ∀ e ∈ r.access, e.2 ∈ Access.declared

namespace Rebind

open Copy Builder.Mode

/-- Variables alone get another access mode, a declared one where that is asked for. -/
def regime (d : Builder.Demands) (p : Program) : Regime NewAccess Unit where
  toDemands := d
  keep _ _ := True
  replaced i h := (p.asVariable? i).isSome ∧ (d.worded → h.access ∈ Access.declared)
  parts _ := True

variable {p : Program} {inputs : Data} {d : Builder.Demands} {w : World NewAccess Unit}
    {F : List NodeId}

theorem noStatement_of_asVariable? {i : NodeId} (h : (p.asVariable? i).isSome) :
    p.NoStatement i := by
  obtain ⟨v, hv⟩ := Option.isSome_iff_exists.1 h
  obtain ⟨s, hs, hv⟩ := Option.bind_eq_some_iff.1 hv
  rw [Arena.NoStatement, hs]
  cases s <;> simp_all [Shape.asVariable?, Shape.isStatement]

theorem noStatement_of_attr? {i : NodeId} {a : AttrShape NodeId} (h : p.attr? i = some a) :
    p.NoStatement i := by
  unfold Arena.attr? at h
  split at h
  · next hs => simp [Arena.NoStatement, hs, Shape.isStatement]
  · cases h

/-- A variable with another access mode is made of the copies of its parts. -/
theorem turns_act {A : Account NewAccess Unit} {E : Misuse → Prop}
    {copy : NodeId → Edit NewAccess Unit NodeId} {n : Nat} {i : NodeId} {h : NewAccess}
    {v : VariableShape Symbol NodeId} (hA : A.Stable) (hfront : A.base.front = fun _ _ => [])
    (hback : A.base.back = fun _ _ => []) (hv : A.base.source.asVariable? i = some v)
    (hpresent : ∀ c ∈ v.attributes, c ≠ 0)
    (hname : A.Turns E (Edit.copySymbol v.name) [] (fun _ => []) fun w s => A.name w v.name s)
    (hcopy : ∀ c ∈ v.attributes ++ [v.type, v.initializer],
      A.Turns E (copy c) (A.below n c) (fun d => [d]) fun w d => A.Out w c d)
    (hmake : ∀ w F s t j attrs, A.Holds w (attrs ++ [t, j] ++ F) → A.name w v.name s →
      A.Out w v.type t → A.Out w v.initializer j → A.Lists w v.attributes attrs →
      Runs (Edit.build (Build.variableSym (.var v.kind.space h.access) s t j attrs)) w E fun k w' =>
        A.Holds w' (k :: F) ∧ A.Later w w' ∧ A.Out w' i k) :
    A.Turns E (act copy h i) ((v.attributes ++ [v.type, v.initializer]).flatMap (A.around n))
    (fun j => [j])
      fun w j => A.Out w i j := by
  intro w F hw
  have hsource : w.1.source.asVariable? i = some v := by rw [hw.tables.source, hv]
  unfold act
  refine Runs.bind (Runs.get ?_)
  simp only [hsource]
  refine hname.bind ((v.attributes ++ [v.type, v.initializer]).flatMap (A.around n) ++ F) hw
    (fun _ => Nat.le_refl _)
    fun s w₁ h₁ l₁ hs => ?_
  refine (hcopy v.type (by simp)).bind
    (v.attributes.flatMap (A.around n) ++ A.below n v.initializer ++ F) h₁ ?_
    fun t w₂ h₂ l₂ ht => ?_
  · intro x
    simp only [List.nil_append, List.flatMap_append, List.flatMap_cons, List.flatMap_nil,
      Account.around, List.count_append, List.count_nil]
    omega
  refine (hcopy v.initializer (by simp)).bind (t :: v.attributes.flatMap (A.around n) ++ F) h₂ ?_
    fun j w₃ h₃ l₃ hj => ?_
  · intro x
    simp only [List.count_append, List.count_cons, List.count_nil]
    omega
  have hkind : (w₃.1.source.shape? i).bind (Shape.listKind? v.attributes) = some .attributes := by
    rw [h₃.tables.source, Arena.shape?_of_asVariable? hv]
    simp [Shape.listKind?]
  unfold Edit.copyList
  refine Runs.bind (Runs.bind (Runs.get ?_))
  simp only [hkind]
  refine (Account.copyListOf hA hfront hback (fun c hc => hcopy c (by simp [hc])) hpresent i
    .attributes w₃ (j :: t :: F) (h₃.weaken ?_)).mono ?_
  · intro x
    simp only [List.count_append, List.count_cons]
    omega
  rintro attrs w₄ ⟨h₄, l₄, hl⟩
  have hlater := ((l₁.trans l₂).trans l₃).trans l₄
  have hfree : A.Holds w₄ (attrs ++ [t, j] ++ F) := by
    refine h₄.weaken fun x => ?_
    simp only [id, List.count_append, List.count_cons, List.count_nil]
    omega
  refine (hmake w₄ F s t j attrs hfree (hA.name ((l₂.trans l₃).trans l₄).toGrown hs)
    (ht.grown hA (l₃.trans l₄).toGrown) (hj.grown hA l₄.toGrown) hl).mono ?_
  rintro k w₅ ⟨h₅, l₅, ho⟩
  exact ⟨h₅, hlater.trans l₅, ho⟩

theorem handled (hp : p.Fit) (h : (regime d p).Ready p [] w F) :
    ((regime d p).account w.1).Handled Regime.any (fun _ _ => True) act := by
  have hR : (regime d p).Steady := fun _ _ => trivial
  refine Regime.handled rfl rfl (fun n i hh node hc hi ht hn hr => ?_) ?_ fun _ _ _ _ => trivial
  · obtain ⟨hv, haccess⟩ := h.replaced i hh hr
    have hs := noStatement_of_asVariable? hv
    obtain ⟨v, hv⟩ := Option.isSome_iff_exists.1 hv
    rw [h.source] at hn
    have hnode := Arena.shape_of_asVariable? hv hn
    have hspelled : v.kind.Spelled := by
      have hne : i ≠ p.root := by
        rintro rfl
        have := hp.module
        simp [Arena.shape?, hn, hnode] at this
      have := hp.spelled hn hne
      rwa [hnode] at this
    have hkind : (VariableKind.var v.kind.space hh.access).Spelled := by
      cases hk : v.kind with
      | var space access =>
        rw [hk] at hspelled
        exact hspelled
      | _ => exact (by decide : AddressSpace.none ∈ AddressSpace.declared)
    have hpresent : ∀ c ∈ v.attributes, c ≠ 0 :=
      fun c hm => hp.present hn c (by rw [hnode]; exact hm)
    have hslots : node.shape.slots = v.attributes ++ [v.type, v.initializer] := by rw [hnode]; rfl
    rw [hslots]
    refine turns_act (Regime.stable hR w.1) h.front h.back
      (by rw [← hv]; exact congrArg (·.asVariable? i) h.source) hpresent
      (Regime.turns_copySymbol hR h.rule v.name) (fun c _ => hc c trivial)
        fun w' F' s t j attrs h' _ _ _ hl => ?_
    have hattrs := hl.ne_zero h' hpresent
    have hyields :
        (regime d p).mode.Yields (Build.variableSym (.var v.kind.space hh.access) s t j attrs)
        ((attrs ++ [t, j]).filter (· ≠ 0)) := by
      refine .variableSym hkind haccess s (fun c hm => ?_) fun x hx => ?_
      · exact List.mem_filter.2 ⟨by simp [hm], by simpa using hattrs c hm⟩
      · refine Nat.le_of_eq ?_
        rw [List.count_filter (by simpa using hx)]
    refine Regime.turns_built hR hyields (by simp) hi ht (fun _ => by rw [h.source]; exact hs) w' F'
      (h'.weaken fun x => ?_)
    have hsublist : ((attrs ++ [t, j]).filter (· ≠ 0)).Sublist (attrs ++ [t, j]) :=
      List.filter_sublist
    have := hsublist.count_le x
    simp only [List.count_append] at this ⊢
    omega
  · intro n i t hh node _ _ _ _ hfind
    simp [h.handlers] at hfind

theorem runs_moveAttribute {place : BindingPoint} {i : NodeId} (h : (regime d p).Ready p [] w F) :
    Runs (moveAttribute p place i) w Regime.any fun _ w' => (regime d p).Ready p [] w' F := by
  unfold moveAttribute
  split
  · next ha =>
    exact h.replaceBuilt (fun _ _ => trivial) (.attr (a := .group place.group) trivial rfl)
      fun _ => noStatement_of_attr? ha
  · next ha =>
    exact h.replaceBuilt (fun _ _ => trivial) (.attr (a := .binding place.binding) trivial rfl)
      fun _ => noStatement_of_attr? ha
  · exact Runs.pure w.2 h

theorem runs_move {r : Remapping} {v : VariableShape Symbol NodeId} {point : BindingPoint}
    (h : (regime d p).Ready p [] w []) :
    Runs (move p r v point) w (fun _ => True) fun _ w' => (regime d p).Ready p [] w' [] := by
  unfold move
  split
  · exact Runs.bind (Runs.forIn (fun _ w => (regime d p).Ready p [] w []) h
      (fun id _ w _ hw => Runs.yield (Work.runs_edit (runs_moveAttribute hw))) fun w hw =>
        Runs.pure w.2 hw)
  · exact Runs.pure w.2 h

theorem runs_setAccess {r : Remapping} (hr : d.worded → ∀ e ∈ r.access, e.2 ∈ Access.declared)
    {i : NodeId} {v : VariableShape Symbol NodeId} {facts : VariableFacts}
    (hv : p.asVariable? i = some v) (hf : facts.decl = i) {point : BindingPoint}
    (h : (regime d p).Ready p [] w []) :
    Runs (setAccess r facts point) w (fun _ => True) fun _ w' => (regime d p).Ready p [] w' [] := by
  unfold setAccess
  split
  · next access ha =>
    have hdeclared : d.worded → access ∈ Access.declared := by
      intro hd
      obtain ⟨e, he, rfl⟩ := Option.map_eq_some_iff.1 ha
      exact hr hd e (List.mem_reverse.1 (List.mem_of_find?_eq_some he))
    split
    · exact Runs.throw trivial
    · refine Work.runs_edit (h.replaceWith ⟨?_, hdeclared⟩)
      rw [hf, hv]
      rfl
  · exact Runs.pure w.2 h

theorem runs_rebindGlobal {r : Remapping} (hr : d.worded → ∀ e ∈ r.access, e.2 ∈ Access.declared)
    (hd : ∀ {i v}, p.facts.variableAt i = some v → v.decl = i) {i : NodeId}
    (h : (regime d p).Ready p [] w []) :
    Runs (rebindGlobal p r i) w (fun _ => True) fun _ w' => (regime d p).Ready p [] w' [] := by
  unfold rebindGlobal
  split
  · next v facts hv hf =>
    split
    · exact Runs.bind ((runs_move h).mono fun _ w' hw => runs_setAccess hr hv (hd hf) hw)
    · exact Runs.pure w.2 h
  · exact Runs.pure w.2 h

/-- The session stays ready while the declarations are gone through. -/
theorem runs_rebindGlobals {r : Remapping} (hr : d.worded → ∀ e ∈ r.access, e.2 ∈ Access.declared)
    (hd : ∀ {i v}, p.facts.variableAt i = some v → v.decl = i) (h : (regime d p).Ready p [] w []) :
    Runs (forIn p.globals PUnit.unit fun id _ => do
      rebindGlobal p r id
      pure (ForInStep.yield PUnit.unit)) w (fun _ => True) fun _ w' =>
        (regime d p).Ready p [] w' [] :=
  Runs.forIn (fun _ w => (regime d p).Ready p [] w []) h
    (fun _ _ _ _ hw => Runs.yield (runs_rebindGlobal hr hd hw)) fun _ hw => hw

theorem runs_work (hp : p.Fit) (hc : d.counted → p.Counted)
    (hd : ∀ {i v}, p.facts.variableAt i = some v → v.decl = i)
    (hdata : d.worded → Data.Declared inputs) :
    Runs (work p inputs) ((Session.start p (), fun _ => 0) : World NewAccess Unit) (fun _ => True)
      fun out w => (regime d p).Done p out w.1.target := by
  refine Runs.bind (Work.runs_need trivial fun r hr => ?_)
  have hcheck : Runs (checkCollisions p r) ((Session.start p (), fun _ => 0) : World NewAccess Unit)
      (fun _ => True) fun _ w => (regime d p).Ready p [] w [] := by
    unfold checkCollisions
    split
    · exact Runs.throw trivial
    · exact Runs.pure _ (.start hp (fun _ => trivial) fun _ => rfl)
  refine Runs.bind (hcheck.mono fun _ w hw => ?_)
  refine Runs.bind ((runs_rebindGlobals (fun h => hdata h r hr) hd hw).mono fun _ w hw => ?_)
  exact Runs.bind (Work.runs_edit ((hw.copyModule (fun _ _ => trivial) hp hc (handled hp hw)).mono
    fun _ w' h => Runs.pure w'.2 ⟨h, fun _ _ _ => rfl⟩))

end Rebind
end ShaderLoom
