import ShaderLoom.Pass.FirstIndex
import ShaderLoom.Pass.Workgroups
import ShaderLoom.Proofs.Copy.Register

/-! Passes that read builtins from a buffer. -/
namespace ShaderLoom

open Copy Builder.Mode

variable {p : Program} {inputs : Data}

namespace Builder.Mode

variable {M : Mode}

/-- Members of a structure, all of one type. -/
theorem makes_members {fields : List String} (hf : ∀ f ∈ fields, f ≠ "") :
    M.Makes (fields.mapM fun field => do Build.structMember field (← Build.type .u32) []) []
      fun ids => ids := by
  have hnil : fields.flatMap (fun _ => ([] : List NodeId)) = [] :=
    List.flatMap_eq_nil_iff.2 fun _ _ => rfl
  refine (Makes.mapM (u := fun _ => []) (g := fun id => [id]) fun f hm => ?_).weaken
    (by simp [hnil])
    (by simp)
  exact (Yields.chain (Yields.type (t := .u32) trivial (by simp) rfl).makes
    fun t => .structMember (hf f hm) t).makes

/-- A uniform buffer at a binding point. -/
theorem makes_buffer (hc : ¬ M.closed) (struct : Symbol) (point : BindingPoint) :
    M.Makes (do
      let buffer ← Build.freshSymbol ""
      let type ← Build.type (.named struct)
      let group ← Build.attr (.group point.group)
      let binding ← Build.attr (.binding point.binding)
      let _ ← Build.globalVarSym buffer type .uniform [group, binding]
      pure buffer) [] fun _ => [] := by
  refine .first (.freshSymbol "") fun buffer => ?_
  refine .first (Yields.type (t := .named struct) trivial (by simp) rfl).makes fun type => ?_
  refine .first (Yields.attr (a := .group point.group) trivial rfl).makes fun group => ?_
  refine .first (Yields.attr (a := .binding point.binding) trivial rfl).makes fun binding => ?_
  refine (Makes.chain (.globalVarSym hc (by decide) buffer type [group, binding])
    fun _ => .pure buffer fun _ => Nat.le_refl _).weaken ?_ fun _ _ => Nat.le_refl _
  intro x
  simp only [List.count_append, List.count_cons, List.count_nil]
  omega

end Builder.Mode

namespace FirstIndex

/-- An expression gets an offset that has a name. -/
def regime (d : Builder.Demands) (p : Program) : Regime AddOffset Unit where
  toDemands := d
  keep _ _ := True
  replaced i h := h.field ≠ "" ∧ p.NoStatement i
  parts _ := True

variable {d : Builder.Demands} {w : World AddOffset Unit} {F : List NodeId}

theorem offsetField?_ne {b : BuiltinValue} {field : String} (h : offsetField? b = some field) :
    field ≠ "" ∧ b ≠ .none := by
  unfold offsetField? at h
  split at h <;> cases h <;> exact ⟨by decide, by decide⟩

theorem noStatement_of_read {i : NodeId} (h : read p i ≠ .none) : p.NoStatement i := by
  unfold read at h
  unfold Arena.NoStatement
  split at h
  · next hs => simp [hs, Shape.isStatement]
  · next hs => simp [hs, Shape.isStatement]
  · exact absurd rfl h

theorem makes_declareBuffer {M : Builder.Mode} (hc : ¬ M.closed) (data : FirstIndexData)
    (point : BindingPoint) : M.Makes (declareBuffer data point) [] fun _ => [] := by
  refine .first (makes_members fun f hf => ?_) fun members => ?_
  · simp only [List.mem_append] at hf
    rcases hf with hf | hf <;> split at hf <;> simp at hf <;> rw [hf] <;> decide
  refine .first (.freshSymbol "") fun struct => ?_
  refine (Makes.chain (.structSym hc struct members) fun _ => makes_buffer hc struct point).weaken
    ?_
    fun _ _ => Nat.le_refl _
  simp

theorem handled (hp : p.Fit) (h : (regime d p).Ready p [] w F) :
    ((regime d p).account w.1).Handled Regime.any (fun _ _ => True) act := by
  refine Regime.handled rfl rfl (fun n i hh node hc hi ht hn hr w' F' hw' => ?_) ?_ fun _ _ _ _ =>
    trivial
  · obtain ⟨hf, hs⟩ := h.replaced i hh hr
    have hyields : ∀ index : NodeId, (regime d p).mode.Yields (do
        let field ← Build.symbol hh.field
        let offset ← Build.memberSym (.symbol hh.buffer) field
        Build.binary .add (.node index) (.node offset)) [index] := by
      intro index
      refine .first (.symbol hf) fun field => ?_
      refine .first (Yields.memberSym (o := .symbol hh.buffer) trivial field).makes fun offset => ?_
      refine (Yields.binary (x := .node index) (y := .node offset) (by decide) trivial
        trivial).weaken ?_
      intro x
      simp only [Operand.uses, List.count_append, List.count_cons, List.count_nil]
      omega
    refine (Regime.turns_copyPlain (fun _ _ => trivial) hp h.toLaid hc hi ht hn trivial).bind F' hw'
      (fun _ => Nat.le_refl _) fun j w₁ h₁ hle hj => ?_
    have hj0 : j ≠ 0 := Nat.ne_of_gt (h₁.range j (by rwa [hj])).1
    refine (Regime.turns_built (fun _ _ => trivial) (hyields j) (by simpa using hj0.symm) hi ht ?_
      w₁ F' h₁).mono
      fun k w₂ ⟨h₂, hle₂, ho⟩ => ⟨h₂, hle.trans hle₂, ho⟩
    rw [h.source]
    exact fun _ => hs
  · intro n i t hh node _ _ _ _ hfind
    simp [h.handlers] at hfind

theorem runs_work (hp : p.Fit) (hc : d.counted → p.Counted) :
    Runs (work p inputs) ((Session.start p (), fun _ => 0) : World AddOffset Unit) (fun _ => True)
      fun out w => (regime d p).Done p out w.1.target := by
  unfold work
  refine Runs.bind (Work.runs_need trivial fun point _ => ?_)
  have hstart : (regime d p).Ready p [] (Session.start p (), fun _ => 0) [] :=
    .start hp (fun _ => trivial) fun _ => rfl
  have hcopy : ∀ w, (regime d p).Ready p [] w [] → Runs (do
      Work.edit (Edit.copyModule (Edit.copy act))
      pure (Exchange.put {} .firstIndexData (layout p) : Data)) w (fun _ => True)
        fun out w' => (regime d p).Done p out w'.1.target := by
    intro w hw
    exact Runs.bind (Work.runs_edit ((hw.copyModule (fun _ _ => trivial) hp hc (handled hp hw)).mono
      fun _ w' h => Runs.pure w'.2 ⟨h, fun _ ht _ => Data.get?_put_of_ne _ ht⟩))
  dsimp only
  split
  · refine Runs.bind (Work.runs_edit ((Regime.Ready.makes (fun _ _ => trivial)
      (makes_declareBuffer (fun h => h) (layout p) point) hstart).mono fun buffer w₁ h₁ => ?_))
    refine Runs.bind (Runs.forIn (fun _ w => (regime d p).Ready p [] w []) h₁
      (fun id _ w _ hw => ?_) hcopy)
    split
    · next field hfield =>
      obtain ⟨hne, hread⟩ := offsetField?_ne hfield
      exact Runs.yield (Work.runs_edit (hw.replaceWith ⟨hne, noStatement_of_read hread⟩))
    · exact Runs.pure w.2 ⟨rfl, hw⟩
  · exact hcopy _ hstart

end FirstIndex

namespace Workgroups

/-- Expressions alone are replaced. -/
def regime (d : Builder.Demands) (p : Program) : Regime Use Unit where
  toDemands := d
  keep _ _ := True
  replaced i _ := d.tidy → p.NoStatement i
  parts _ := True

variable {d : Builder.Demands} {w : World Use Unit} {F : List NodeId}

theorem makes_declareBuffer {M : Builder.Mode} (hc : ¬ M.closed) (point : BindingPoint) :
    M.Makes (declareBuffer point) [] fun _ => [] := by
  refine .first (.freshSymbol "") fun struct => ?_
  refine .first (Yields.type (t := .u32) trivial (by simp) rfl).makes fun elem => ?_
  refine .chain (Yields.type (t := .vector elem 3) (by simp [Shape.Spelled]) (by simp) rfl).makes
    fun type => ?_
  refine .chain (Yields.structMember (by decide) type).makes fun member => ?_
  exact .chain (.structSym hc struct [member]) fun _ => makes_buffer hc struct point

theorem yields_readBuffer {M : Builder.Mode} (buffer : Symbol) : M.Yields (readBuffer buffer) [] :=
  .first (.symbol (by decide)) fun s => .memberSym (o := .symbol buffer) trivial s

theorem yields_construct {M : Builder.Mode} (struct buffer : Symbol) : M.Yields (do
    let type ← Build.type (.named struct)
    let value ← readBuffer buffer
    Build.construct type [.node value]) [] := by
  refine .first (Yields.type (t := .named struct) trivial (by simp) rfl).makes fun type => ?_
  refine .first (yields_readBuffer buffer).makes fun value => ?_
  refine (Yields.construct (t := type) (a := [.node value]) (by simp [Operand.Known])).weaken ?_
  intro x
  simp only [Operand.uses, List.flatMap_cons, List.flatMap_nil, List.count_append, List.count_cons,
    List.count_nil]
  omega

theorem handled (h : (regime d p).Ready p [] w F) :
    ((regime d p).account w.1).Handled Regime.any (fun _ _ => True) act := by
  refine Regime.handled rfl rfl (fun n i use node _ hi ht hn hr => ?_) ?_ fun _ _ _ _ => trivial
  · have hs : (regime d p).tidy → w.1.source.NoStatement i := by
      rw [h.source]
      exact h.replaced i use hr
    cases use with
    | read buffer =>
      exact (Regime.turns_built (fun _ _ => trivial) (yields_readBuffer buffer) (by simp)
        hi ht hs).weaken
        (by simp)
    | construct struct buffer =>
      exact (Regime.turns_built (fun _ _ => trivial) (yields_construct struct buffer)
        (by simp) hi ht hs).weaken (by simp)
  · intro n i t hh node _ _ _ _ hfind
    simp [h.handlers] at hfind

theorem noStatement_of_accessAround? {user access : NodeId}
    (h : accessAround? p user = some access) : p.NoStatement access := by
  unfold accessAround? at h
  dsimp only at h
  split at h
  · next hs =>
    split at h
    · cases h
      simp [Arena.NoStatement, hs, Shape.isStatement]
    · cases h
  · cases h

/-- A parameter and all its uses. -/
theorem runs_dropParam (hx : d.tidy → p.Recorded) {buffer : Symbol} {param : DroppedParam}
    (h : (regime d p).Ready p [] w F) :
    Runs (dropParam p buffer param) w Regime.any fun _ w' => (regime d p).Ready p [] w' F := by
  unfold dropParam
  refine Runs.bind (h.remove.mono fun _ w₁ h₁ => ?_)
  refine Runs.bind (Runs.forIn (fun _ w => (regime d p).Ready p [] w F) h₁
    (fun user _ w hu hw => ?_) fun w hw => Runs.pure w.2 hw)
  have huser : d.tidy → p.NoStatement user := by
    intro ht
    cases hv : p.facts.variableAt param.decl with
    | none => simp [hv] at hu
    | some v =>
      simp only [hv, Option.map_some, Option.getD_some] at hu
      exact (hx ht).user hv hu
  split
  · exact Runs.yield (hw.replaceWith huser)
  · next access _ ha => exact Runs.yield (hw.replaceWith fun _ => noStatement_of_accessAround? ha)
  · exact Runs.yield (hw.replaceWith huser)

theorem runs_carryOut (hx : d.tidy → p.Recorded) {buffer : Symbol} {plan : Plan}
    (h : (regime d p).Ready p [] w F) :
    Runs (carryOut p buffer plan) w Regime.any fun _ w' => (regime d p).Ready p [] w' F := by
  unfold carryOut
  refine Runs.bind (Runs.forIn (fun _ w => (regime d p).Ready p [] w F) h
    (fun param _ w _ hw => Runs.yield (runs_dropParam hx hw)) fun w₁ h₁ => ?_)
  refine Runs.bind (Runs.forIn (fun _ w => (regime d p).Ready p [] w F) h₁
    (fun id _ w _ hw => Runs.yield hw.remove) fun w₂ h₂ => ?_)
  refine Runs.bind (Runs.forIn (fun _ w => (regime d p).Ready p [] w F) h₂
    (fun id _ w _ hw => ?_) fun w hw => Runs.pure w.2 hw)
  split
  · next hm =>
    refine Runs.yield (hw.replaceWith fun ht => ?_)
    unfold Facts.member? at hm
    cases he : p.facts.exprs[id]? with
    | none => simp [he] at hm
    | some e => exact (hx ht).expr he
  · exact Runs.pure w.2 ⟨rfl, hw⟩

theorem runs_work (hp : p.Fit) (hc : d.counted → p.Counted) (hx : d.tidy → p.Recorded) :
    Runs (work p inputs) ((Session.start p (), fun _ => 0) : World Use Unit) (fun _ => True)
      fun out w => (regime d p).Done p out w.1.target := by
  unfold work
  refine Runs.bind (Work.runs_need trivial fun point _ => ?_)
  have hstart : (regime d p).Ready p [] (Session.start p (), fun _ => 0) [] :=
    .start hp (fun _ => trivial) fun _ => rfl
  have hcopy : ∀ w, (regime d p).Ready p [] w [] → Runs (do
      Work.edit (Edit.copyModule (Edit.copy act))
      pure ({} : Data)) w (fun _ => True) fun out w' => (regime d p).Done p out w'.1.target := by
    intro w hw
    exact Runs.bind (Work.runs_edit ((hw.copyModule (fun _ _ => trivial) hp hc (handled hw)).mono
      fun _ w' h => Runs.pure w'.2 ⟨h, fun _ _ _ => rfl⟩))
  dsimp only
  split
  · exact hcopy _ hstart
  · refine Runs.bind (Work.runs_edit ((Regime.Ready.makes (fun _ _ => trivial)
      (makes_declareBuffer (fun h => h) point) hstart).mono fun buffer w₁ h₁ => ?_))
    exact Runs.bind (Work.runs_edit ((runs_carryOut hx h₁).mono fun _ w₂ h₂ => hcopy w₂ h₂))

end Workgroups
end ShaderLoom
