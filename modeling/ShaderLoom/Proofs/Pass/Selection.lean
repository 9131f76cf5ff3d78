import ShaderLoom.Pass.EntryPoint
import ShaderLoom.Pass.Shuffle
import ShaderLoom.Pass.Unreachable
import ShaderLoom.Proofs.Copy.Register

/-! Passes that leave declarations and statements out or put them in another order, and make nothing
new. -/
namespace ShaderLoom

open Copy

variable {p : Program} {inputs : Data} {out : Output}

/-- Nothing is replaced, and nothing is kept beside the copy. -/
def Copy.Regime.bare (d : Builder.Demands) : Regime Empty Unit where
  toDemands := d
  keep _ _ := True
  replaced _ _ := True
  parts _ := True

/-- Copying after elements were left out. -/
theorem runs_selection {d : Builder.Demands} {w : World Empty Unit} (hp : p.Fit)
    (hc : d.counted → p.Counted) (h : (Regime.bare d).Ready p [] w []) :
    Runs (do
      Work.edit (Edit.copyModule (Edit.copy noHandlers))
      pure ({} : Data)) w (fun _ => True) fun out w' => (Regime.bare d).Done p out w'.1.target :=
  Runs.bind (Work.runs_edit ((h.copyModule (fun _ _ => trivial) hp hc
    (Regime.handled_of_empty fun _ => trivial)).mono fun _ w' hw =>
      Runs.pure w'.2 ⟨hw, fun _ _ _ => rfl⟩))

namespace EntryPoint

theorem runs_work {d : Builder.Demands} (hp : p.Fit) (hc : d.counted → p.Counted) :
    Runs (work p inputs) ((Session.start p (), fun _ => 0) : World Empty Unit) (fun _ => True)
      fun out w => (Regime.bare d).Done p out w.1.target := by
  unfold work
  refine Runs.bind (Work.runs_need trivial fun _ _ => ?_)
  refine Runs.bind (Work.runs_need trivial fun _ _ => ?_)
  refine Runs.bind (Runs.forIn (fun _ w => (Regime.bare d).Ready p [] w [])
    (.start hp (fun _ => trivial) fun _ => rfl) (fun id _ w _ hw => ?_) fun w hw =>
      runs_selection hp hc hw)
  split
  · exact Runs.pure w.2 ⟨rfl, hw⟩
  · exact Runs.yield (Work.runs_edit hw.remove)

end EntryPoint

namespace Unreachable

theorem runs_work {d : Builder.Demands} (hp : p.Fit) (hc : d.counted → p.Counted) :
    Runs (work p) ((Session.start p (), fun _ => 0) : World Empty Unit) (fun _ => True)
      fun out w => (Regime.bare d).Done p out w.1.target := by
  unfold work
  refine Runs.bind (Runs.forIn (fun _ w => (Regime.bare d).Ready p [] w [])
    (.start hp (fun _ => trivial) fun _ => rfl) (fun id _ w _ hw => ?_) fun w hw =>
      runs_selection hp hc hw)
  exact Runs.yield (Work.runs_edit hw.remove)

end Unreachable

namespace Pcg

theorem swapIfInBounds_perm {α : Type} (xs : Array α) (i j : Nat) :
    (xs.swapIfInBounds i j).Perm xs := by
  rw [Array.swapIfInBounds_def]
  split
  · split
    · exact Array.swap_perm _ _
    · exact .rfl
  · exact .rfl

theorem shuffleFrom_perm {α : Type} (n : Nat) (xs : Array α) (g : Pcg) :
    (shuffleFrom n xs g).Perm xs := by
  induction n generalizing xs g with
  | zero => exact .rfl
  | succ n ih => exact (ih _ _).trans (swapIfInBounds_perm _ _ _)

/-- A shuffled list holds what the list holds. -/
theorem shuffle_perm {α : Type} (seed : UInt64) (xs : List α) : (shuffle seed xs).Perm xs := by
  simpa [shuffle] using Array.perm_iff_toList_perm.1 (shuffleFrom_perm _ xs.toArray _)

end Pcg

namespace Shuffle

/-- Declarations are copied one by one before the rest of the module, which then has none left.
Nothing is registered on the way but what is left out, so that the copies use up nothing. -/
theorem runs_work {d : Builder.Demands} (hp : p.Fit) (hc : d.counted → p.Counted) :
    Runs (work p inputs) ((Session.start p (), fun _ => 0) : World Empty Unit) (fun _ => True)
      fun out w => (Regime.bare d).Done p out w.1.target := by
  have hR : (Regime.bare d).Steady := fun _ _ => trivial
  unfold work
  refine Runs.bind (Work.runs_need trivial fun seed _ => ?_)
  refine Runs.bind (Runs.forIn (fun _ w => (Regime.bare d).Ready p [] w [] ∧
      (Regime.bare d).registered w.1 = fun _ => [])
    ⟨.start hp (fun _ => trivial) fun _ => rfl, rfl⟩ (fun id _ w hid ⟨hw, hnone⟩ => ?_)
    fun w hw => runs_selection hp hc hw.1)
  have hid : id ∈ p.globals := (Pcg.shuffle_perm seed p.globals).mem_iff.1 hid
  have h0 : id ≠ 0 := Nat.ne_of_gt (hp.globals id hid).1
  have hbelow : ((Regime.bare d).account w.1).below ((Regime.bare d).account w.1).depth id = [] :=
    Regime.below_eq_nil hnone _ _
  refine Runs.bind (Work.runs_edit ((hw.copy hR hp h0 (Regime.handled_of_empty fun _ => trivial)
    hbelow).mono fun t w₁ ⟨h₁, hreg₁⟩ => ?_))
  have hadd := Regime.Ready.makes hR (.addGlobal (fun h => h) t) h₁
  refine Runs.bind (Work.runs_edit ((hadd.and (P := fun _ s => (Regime.bare d).registered s = _)
    (Regime.registered_build _)).mono fun _ w₂ ⟨h₂, hreg₂⟩ => ?_))
  refine Runs.yield
    (Work.runs_edit ((h₂.remove.and (P := fun _ s => (Regime.bare d).registered s = _)
    (Regime.registered_remove id)).mono fun _ w₃ ⟨h₃, hreg₃⟩ => ⟨h₃, ?_⟩))
  rw [hreg₃, hreg₂, hreg₁, hnone]

end Shuffle
end ShaderLoom
