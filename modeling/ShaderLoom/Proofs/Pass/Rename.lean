import ShaderLoom.Pass.Rename
import ShaderLoom.Proofs.Copy.Register

/-! Renaming keeps programs fit. -/
namespace ShaderLoom

namespace SymbolTable

variable {t : SymbolTable}

theorem fresh_extends (t : SymbolTable) (hint : String) :
    ∃ more, (t.fresh hint).2.names = t.names ++ more :=
  t.register_extends _

theorem empty_not_mem_fresh (h : "" ∉ t.names.toList) (hint : String) :
    "" ∉ (t.fresh hint).2.names.toList :=
  empty_not_mem_register h (t.freshName_hint_ne_empty hint)

end SymbolTable

namespace Rename

open Copy Builder.Mode

/-- Members and identifiers may be kept apart from the other nodes. -/
def regime (d : Builder.Demands) : Regime Keep Unit where
  toDemands := d
  keep _ _ := True
  replaced _ _ := False
  parts _ := True

variable {p : Program} {inputs : Data} {d : Builder.Demands} {w : World Keep Unit} {F : List NodeId}

theorem rule_tame (p : Program) (config : RenameConfig) : (rule p config).Tame := by
  intro s t ht
  unfold rule
  split
  · exact ⟨t.fresh_extends "", SymbolTable.empty_not_mem_fresh ht ""⟩
  · exact ⟨⟨#[], by simp⟩, ht⟩

theorem handled (hp : p.Fit) {hs : List (Tag × Keep)} (h : (regime d).Ready p hs w F) :
    ((regime d).account w.1).Handled Regime.any (fun _ _ => True) act := by
  have hR : (regime d).Steady := fun _ _ => trivial
  refine Regime.handled rfl rfl (fun n i hh _ _ _ _ _ hr => (h.replaced i hh hr).elim) ?_
    fun _ _ _ _ => trivial
  intro n i t keep node hc hi ht hn hfind w' F' hw'
  clear hfind
  have hsource : w'.1.source = w.1.source := hw'.tables.source
  have hcopy : ∀ c, _ := fun c => hc c trivial
  generalize Edit.copyTo act n = copy at hcopy ⊢
  unfold act
  refine Runs.bind (Runs.get ?_)
  rw [hsource]
  dsimp only
  split
  · next object s hs =>
    have hshape : node.shape = .expr (.member object s) := by simpa [Arena.shape?, hn] using hs
    have hnone : (regime d).tidy → w.1.source.NoStatement i := by
      simp [Arena.NoStatement, hs, Shape.isStatement]
    split
    · refine (hcopy object).bind F' hw' ?_ fun o w₁ h₁ l₁ ho => ?_
      · intro x
        simp only [hshape, Shape.slots, List.flatMap_cons, List.flatMap_nil, Account.around,
          List.count_append, List.count_nil]
        omega
      · have hobject : object ≠ 0 := by
          rw [h.source] at hn
          exact hp.present hn object (by simp [hshape, Shape.required, Shape.slots])
        have ho0 : o ≠ 0 := ho.ne_zero h₁ hobject
        refine (Regime.turns_built hR (Yields.memberSym (o := .node o) trivial s)
          (by simpa [Operand.uses] using ho0.symm) hi ht hnone w₁ F' h₁).mono ?_
        rintro j w₂ ⟨h₂, l₂, hj⟩
        exact .inr ⟨hj.ne_zero h₂ hi, h₂, l₁.trans l₂, hj⟩
    · exact Runs.pure w'.2 (.inl ⟨rfl, rfl, trivial⟩)
  · next s hs =>
    have hnone : (regime d).tidy → w.1.source.NoStatement i := by
      simp [Arena.NoStatement, hs, Shape.isStatement]
    split
    · refine (Regime.turns_built hR (Yields.identSym s) (by simp) hi ht hnone w' F'
        (hw'.weaken ?_)).mono ?_
      · intro x
        simp only [List.count_append, List.count_nil]
        omega
      · rintro j w₂ ⟨h₂, l₂, hj⟩
        exact .inr ⟨hj.ne_zero h₂ hi, h₂, l₂, hj⟩
    · exact Runs.pure w'.2 (.inl ⟨rfl, rfl, trivial⟩)
  · exact Runs.pure w'.2 (.inl ⟨rfl, rfl, trivial⟩)

theorem runs_work (hp : p.Fit) (hc : d.counted → p.Counted) :
    Runs (work p inputs) ((Session.start p (), fun _ => 0) : World Keep Unit) (fun _ => True)
      fun out w => (regime d).Done p out w.1.target := by
  have hstart : (regime d).Ready p [] (Session.start p (), fun _ => 0) [] :=
    .start hp (fun _ => trivial) fun _ => rfl
  unfold work
  dsimp only
  refine Runs.bind (Work.runs_edit ?_)
  refine Runs.bind (hstart.replaceAll.mono fun _ w₁ h₁ => ?_)
  refine Runs.bind (h₁.replaceAll.mono fun _ w₂ h₂ => ?_)
  refine Runs.bind ((h₂.setSymbolRule (rule_tame p _)).mono fun _ w₃ h₃ => ?_)
  refine (h₃.copyModule (fun _ _ => trivial) hp hc (handled hp h₃)).mono fun _ w₄ h₄ => ?_
  exact Runs.bind (Runs.get (Runs.pure w₄.2 ⟨h₄, fun _ _ ht => Data.get?_put_of_ne _ ht⟩))

end Rename
end ShaderLoom
