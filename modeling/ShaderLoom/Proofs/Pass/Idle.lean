import ShaderLoom.Pass.Promote
import ShaderLoom.Proofs.Document.Acceptance
import ShaderLoom.Proofs.Document.Places
import ShaderLoom.Proofs.Kinds
import ShaderLoom.Proofs.Meaning.Internal
import ShaderLoom.Proofs.Pass.Planes
import ShaderLoom.Proofs.Pass.Renamed
import ShaderLoom.Proofs.Pass.Rereading
import ShaderLoom.Proofs.Pass.Shuffle
import ShaderLoom.Proofs.Pass.Unreachable

/-! Passes with nothing to do. Whether a pass should run and what it does when it runs are decided
by different looks at the program: one at the nodes, one at what resolution found out. They agree: a
pass that need not run changes nothing if it runs. -/
namespace ShaderLoom

open Copy

variable {p : Program} {inputs : Data}

section Work

variable {κ σ : Type}

/-- The session has copied its program as it reads, and the target has the problems that resolution
will not find. -/
structure Copy.Session.Keeps (p : Program) (s : Session κ σ) : Prop where
  copied : s.copied = true
  reads : p.Reads s.target.build
  diagnostics : s.target.diagnostics = p.diagnostics.without .resolver

theorem Copy.runs_copyModule (state : σ) (handlers : List (Tag × κ)) {act : Act κ σ} (hp : p.Fit)
    (hk : p.Known) (h : Idles p handlers act) {w : World κ σ}
    (hw : w.1 = { Session.start p state with handlers }) :
    Runs (Edit.copyModule (Edit.copy act)) w (fun _ => False) fun _ w' => w'.1.Keeps p := by
  obtain ⟨s, hs, hcopied, hdiagnostics, _, _, hreads⟩ := copyModule_reads hp hk state h
  exact Runs.of_ok (hw ▸ hs) w.2 ⟨hcopied, hreads, hdiagnostics⟩

/-- The pass succeeds, what comes out reads the same, and no problems were added. -/
def Pass.Idle (t : Pass) (p : Program) (inputs : Data) : Prop :=
  ∃ (b : Builder) (data : Data), t.apply p inputs = .ok ⟨b.build, data⟩ ∧ p.Reads b.build ∧
    b.diagnostics = p.diagnostics.without .resolver

/-- A pass is idle if its work keeps the program. -/
theorem Pass.idle_of_runs {t : Pass} {work : Work κ σ Data} {state : σ} (hv : p.valid = true)
    (hrun : t.run p inputs = work.perform p state)
    (h : Runs work ((Session.start p state, fun _ => 0) : World κ σ) (fun _ => False) fun _ w =>
      w.1.Keeps p) : t.Idle p inputs := by
  obtain ⟨data, s, _, hs, hkeeps⟩ := h.succeeds
  have hs : work (Session.start p state) = .ok data s := hs
  have hcopied : s.copied = true := hkeeps.copied
  exact ⟨s.target, data, by simp [Pass.apply, Result.outcome, hv, hrun, Work.perform, hs,
    hcopied], hkeeps.reads, hkeeps.diagnostics⟩

/-- Work that only copies the module keeps the program. -/
theorem Work.runs_copyModule (state : σ) {act : Act κ σ} (hp : p.Fit) (hk : p.Known) (data : Data) :
    Runs (do
      Work.edit (Edit.copyModule (Edit.copy act))
      return data)
      ((Session.start p state, fun _ => 0) : World κ σ) (fun _ => False) fun _ w => w.1.Keeps p :=
  Runs.bind ((Work.runs_edit (Copy.runs_copyModule state [] hp hk .nil rfl)).mono fun _ w hw =>
    Runs.pure w.2 hw)

end Work

/-- Without a constructor to move, nothing is declared. -/
theorem Promote.idle (hp : p.Fit) (hk : p.Known) (hv : p.valid = true)
    (h : pass.shouldRun p inputs = false) : pass.Idle p inputs := by
  have hnone : promotables p = [] := by simpa [pass] using h
  refine Pass.idle_of_runs hv (rfl : pass.run p inputs = (work p).perform p {}) ?_
  unfold work
  rw [hnone]
  refine Runs.bind (Runs.pure (fun _ => 0) ?_)
  refine Runs.bind
    (Work.runs_edit (Runs.of_ok (a := ()) (s := Session.start p {}) rfl (fun _ => 0) ?_))
  exact Work.runs_copyModule _ hp hk {}

/-- Where every statement is reachable, nothing is left out. -/
theorem Unreachable.idle {b : Builder} (hb : b.Fit) (ht : b.build.TreeShaped) (hk : b.build.Known)
    (hv : b.build.valid = true) (hkinds : b.build.kinded = true)
    (h : pass.shouldRun b.build inputs = false) : pass.Idle b.build inputs := by
  have hall : ∀ (i : NodeId) (s : StmtFacts), b.build.facts.stmts[i]? = some s →
      s.reachable = true := by
    simpa [pass] using NodeMap.any_eq_false_iff.1 h
  have hnone : dropped b.build = [] := by
    refine List.eq_nil_iff_forall_not_mem.2 fun i hi => ?_
    obtain ⟨hin, hstmt, hdead, _⟩ := (mem_dropped hb.build).1 hi
    obtain ⟨x, hx, hx'⟩ := (Option.any_eq_true _ _).1 hstmt
    unfold Shape.isStatement at hx'
    split at hx'
    · obtain ⟨s, hs⟩ := Program.recorded_of_kinded hkinds hb.build ht hv hin hx
      simp [Facts.reachable, hs, hall i s hs] at hdead
    · cases hx'
  refine Pass.idle_of_runs hv (rfl : pass.run b.build inputs = (work b.build).perform b.build ()) ?_
  unfold work
  rw [hnone]
  exact Runs.bind (Runs.pure (fun _ => 0) (Work.runs_copyModule () hb.build hk {}))

namespace Workgroups

variable {b : Builder}

/-- A parameter that takes the number of workgroups has the builtin, or a member of its structure
does. -/
theorem takesNumber_eq_false (he : b.build.Explained) (hv : b.build.valid = true)
    (h : pass.shouldRun b.build inputs = false) :
    ∀ v ∈ computeParams b.build, takesNumber b.build v = false := by
  have hnot : ∀ {i}, b.build.inTree i = true → hasBuiltin b.build i = false := fun hi =>
    Bool.eq_false_iff.2 (List.any_eq_false.1 h _ (he.fit.mem_treeIds.2 hi))
  intro v hmem
  refine Bool.eq_false_iff.2 fun htakes => ?_
  rcases takesNumber_iff.1 htakes with hb | ⟨d, _, st, _, hst, m, hm, hb⟩
  · obtain ⟨g, x, n, hg, hx, hn, hvar⟩ := isParameter_of_mem hmem
    obtain ⟨v', f, hvar', hf, hparam⟩ := he.accounted.filed.params g x hx n hn
    cases hvar.symm.trans hvar'
    obtain ⟨w, hw, hkind⟩ := Program.parameter_build hv (he.entries hg) hf v.decl hparam
    obtain ⟨w', hw', hmade⟩ := he.sound.made hvar
    cases hw.symm.trans hw'
    have hin := (isElement_of_list he.fit he.tree (he.fit.inTree_global (he.entries hg))
      (Arena.shape?_of_function? hf) (l := f.params) (by simp [Shape.lists]) hparam).1.1.2
    have hbuiltin : b.build.builtinOf w.attributes = .numWorkgroups := by
      rw [← hb, hmade]
      simp [Resolve.variableFacts, hkind]
    have hhas : hasBuiltin b.build v.decl = true := by
      simp [hasBuiltin, Arena.shape?_of_asVariable? hw, hkind, hbuiltin]
    cases hhas.symm.trans (hnot hin)
  · obtain ⟨_, _, _, _, _, _, s, ty, as, hs, _, hbuiltin⟩ := he.hasMember hst hm
    have hhas : hasBuiltin b.build m.decl = true := by simp [hasBuiltin, hs, ← hbuiltin, hb]
    cases hhas.symm.trans (hnot (he.element_of_member (he.hasMember hst hm)).1.1.2)

/-- Where no parameter takes the number of workgroups, no buffer is declared. -/
theorem idle (he : b.build.Explained) (hk : b.build.Known) (hv : b.build.valid = true)
    (h : pass.shouldRun b.build inputs = false)
    (hrun : ∀ e, (pass.run b.build inputs).ending ≠ .failed e) : pass.Idle b.build inputs := by
  cases hpoint : inputs.get? .numWorkgroups with
  | none =>
    exact absurd (by simp [pass, Work.perform, work, hpoint, Work.need, Work.fail]; rfl) (hrun _)
  | some point =>
    refine Pass.idle_of_runs hv
      (rfl : pass.run b.build inputs = (work b.build inputs).perform b.build ()) ?_
    unfold work
    rw [hpoint, planned_eq_nil (takesNumber_eq_false he hv h)]
    exact Runs.bind (Runs.pure (fun _ => 0) (Work.runs_copyModule () he.fit hk {}))

end Workgroups

/-- Without a declaration there is no name to change. -/
theorem Rename.idle (hp : p.Fit) (hk : p.Known) (hv : p.valid = true)
    (h : pass.shouldRun p inputs = false) : pass.Idle p inputs := by
  have hnone : p.globals = [] := by simpa [pass] using h
  obtain ⟨s, origin, hs, hcopied, hfit, _, _, hdiagnostics, _, hechoes⟩ :=
    copyModule_echoes hp hk ((inputs.get? .renaming).getD {})
  have hreads : p.Reads s.target.build := by
    refine hp.reads hfit.build (R := fun _ _ => False) (fun _ _ => False.elim) ?_
    have hglobals := Listed.forall₂ hechoes.globals (fun _ h => h) fun _ h => h
    rw [hnone] at hglobals ⊢
    rw [List.forall₂_nil_left_iff.1 hglobals]
    exact .nil
  exact Pass.idle_of_runs hv rfl
    (Runs.of_ok (work_copies rfl hs) (fun _ => 0) ⟨hcopied, hreads, hdiagnostics⟩)

theorem Exchange.has_of_get? {κ : Type} {π : κ → Type} [DecidableEq κ] {d : Exchange κ π}
    {topic : κ} {x : π topic} (h : d.get? topic = some x) : d.has topic = true := by
  obtain ⟨e, he, hx⟩ := List.exists_of_findSome?_eq_some h
  unfold payload? at hx
  split at hx
  · next htopic => exact List.any_eq_true.2 ⟨e, he, decide_eq_true htopic⟩
  · cases hx

/-- One declaration has one order. -/
theorem Pcg.shuffle_of_length_le (seed : UInt64) {α : Type} {xs : List α} (h : xs.length ≤ 1) :
    Pcg.shuffle seed xs = xs := by
  rw [shuffle, Nat.sub_eq_zero_of_le h]
  rfl

namespace Planes

/-- Nothing that is an external texture is known. -/
theorem external?_eq_none (h : p.facts.table.Internal) (i : NodeId) : external? p i = none := by
  refine Option.eq_none_iff_forall_not_mem.2 fun v hv => ?_
  obtain ⟨hv, htype⟩ := Option.filter_eq_some_iff.1 hv
  obtain ⟨n, _, hv⟩ := Option.bind_eq_some_iff.1 hv
  have hinternal := h.vars n ⟨v.decl, v.type⟩ (by simp [Facts.table, hv])
  cases hinternal.isExternalTexture.symm.trans htype

/-- Where no companions are known, a call stays as it is. -/
theorem runs_addCall_of_nil {E : Misuse → Prop} {id : NodeId} {args : List NodeId}
    {call : ExprFacts} {w : World Use Made} (hw : w.1.state.companions = []) :
    Runs (addCall p id args call) w E fun _ w' => w'.1 = w.1 := by
  have hof : ∀ {arg w}, (w : World Use Made).1.state.companions = [] →
      Runs (companionsOf p arg) w E fun c w' => c = none ∧ w'.1 = w.1 := by
    intro arg w hw
    refine Runs.bind (Runs.bind (Runs.get (Runs.pure w.2 (Runs.pure w.2 ⟨?_, rfl⟩))))
    simp [hw]
  unfold addCall
  split
  · refine Runs.bind (Runs.forIn (fun _ w' => w'.1 = w.1) rfl (fun arg _ w' _ hw' => ?_)
      fun w' hw' => Runs.pure w'.2 hw')
    refine Runs.yield (Runs.bind ((hof (hw' ▸ hw)).mono ?_))
    rintro _ w'' ⟨rfl, hw''⟩
    exact Runs.pure w''.2 (hw''.trans hw')
  · split
    · refine Runs.bind ((hof hw).mono ?_)
      rintro _ w' ⟨rfl, hw'⟩
      exact Runs.pure w'.2 hw'
    · exact Runs.pure w.2 rfl

/-- The handlers of families make nothing where nothing is an external texture. -/
theorem idles_families (hsound : p.facts.Sound p.toArena) (h : p.facts.table.Internal)
    (hnone : ∀ i, p.shape? i ≠ some (.type .externalTexture)) : Idles p families act := by
  intro copy t use i n s hs _ hn hfind
  have hshape : p.shape? i = some n.shape := by simp [Arena.shape?, hn]
  rw [find?_families] at hfind
  unfold family? at hfind
  split at hfind
  · next hx => exact absurd (hx ▸ hshape) (hnone i)
  · next x hx =>
    cases hfind
    have htype : p.facts.typeOf i = p.facts.types[i]? := by
      unfold Facts.typeOf
      split
      · next e he =>
        obtain ⟨y, hy⟩ := hsound.expr he
        cases (hx ▸ hshape).symm.trans hy
      · rfl
    have hinternal : Ty.isExternalTexture (s.source.facts.typeOf i) = false := by
      rw [hs, htype]
      exact (h.types i).isExternalTexture
    change (if Ty.isExternalTexture (s.source.facts.typeOf i) = true then Edit.build Build.texture2d
      else pure 0) s = _
    rw [hinternal]
    rfl
  · cases hfind

/-- A session with the handlers of families and no other registration. -/
def prepared (p : Program) : Session Use Made := { Session.start p {} with handlers := families }

/-- Without an external texture there are no planes to declare. -/
theorem idle (hp : p.Fit) (hk : p.Known) (hv : p.valid = true) (hsound : p.facts.Sound p.toArena)
    (h : p.facts.table.Internal) (hnone : ∀ i, p.shape? i ≠ some (.type .externalTexture))
    (hrun : ∀ e, (pass.run p inputs).ending ≠ .failed e) : pass.Idle p inputs := by
  cases hpoints : inputs.get? .planes with
  | none =>
    exact absurd (by simp [pass, Work.perform, work, hpoints, Work.need, Work.fail]; rfl) (hrun _)
  | some points =>
    refine Pass.idle_of_runs hv (rfl : pass.run p inputs = (work p inputs).perform p {}) ?_
    have hexternal : ∀ i, external? p i = none := external?_eq_none h
    unfold work
    rw [hpoints]
    refine Runs.bind (Runs.pure (fun _ => 0) ?_)
    refine Runs.bind (Runs.forIn (fun _ w => w.1 = Session.start p {}) rfl (fun i _ w _ hw => ?_)
      fun w hw => ?_)
    · rw [hexternal]
      exact Runs.pure w.2 ⟨rfl, hw⟩
    refine Runs.bind (Work.runs_edit ?_)
    refine Runs.bind (Runs.forIn (fun _ w => w.1 = Session.start p {}) hw (fun i _ w _ hw => ?_)
      fun w hw => ?_)
    · rw [hexternal]
      exact Runs.pure w.2 ⟨rfl, hw⟩
    refine Runs.bind (Runs.of_ok (a := ())
      (s := { Session.start p {} with handlers := families.take 1 }) (by rw [hw]; rfl) w.2 ?_)
    refine Runs.bind (Runs.of_ok (a := ()) (s := prepared p) rfl w.2 ?_)
    refine Runs.bind
      (Runs.forIn (fun _ w => w.1 = prepared p) rfl (fun i _ w _ hw => ?_) fun w hw => ?_)
    · rw [show Ty.isExternalTexture p.facts.types[i]? = false from (h.types i).isExternalTexture]
      exact Runs.pure w.2 ⟨rfl, hw⟩
    refine Runs.bind (Runs.forIn (fun _ w => w.1 = prepared p) hw (fun i _ w _ hw => ?_) fun w hw =>
      ?_)
    · split
      · exact Runs.yield ((runs_addCall_of_nil (by rw [hw]; rfl)).mono fun _ w' hw' => hw'.trans hw)
      · exact Runs.pure w.2 ⟨rfl, hw⟩
    exact (runs_copyModule {} families hp hk (idles_families hsound h hnone) hw).mono fun _ w hw =>
      Runs.pure w.2 hw

end Planes

namespace Shuffle

/-- With one declaration at most there is nothing to reorder. -/
theorem idle (hp : p.Fit) (hk : p.Known) (ht : p.TreeShaped) (hv : p.valid = true)
    (h : pass.shouldRun p inputs = false) (hrun : ∀ e, (pass.run p inputs).ending ≠ .failed e) :
    pass.Idle p inputs := by
  cases hseed : inputs.get? .shuffling with
  | none =>
    exact absurd (by simp [pass, Work.perform, work, hseed, Work.need, Work.fail]; rfl) (hrun _)
  | some seed =>
    have hlength : p.globals.length ≤ 1 := by
      have hhas : inputs.has .shuffling = true := Exchange.has_of_get? hseed
      simpa [pass, hhas] using h
    refine Pass.idle_of_runs hv (rfl : pass.run p inputs = (work p inputs).perform p ()) ?_
    unfold work
    rw [hseed]
    refine Runs.bind (Runs.pure (fun _ => 0) ?_)
    rw [Pcg.shuffle_of_length_le seed hlength]
    refine (runs_workIn hp hk ht (.refl p.globals)).mono ?_
    rintro _ w ⟨hcopied, hfit, hdiagnostics, htwins⟩
    refine ⟨hcopied, hp.reads hfit.build (Arena.mirrors_twins _ _) ?_, hdiagnostics⟩
    rw [Builder.globals_build]
    exact htwins.imp fun _ _ h => h.later w.1.target.within_build

end Shuffle

/-- The passes that look for something to do. -/
def Pass.looking : List Pass :=
  [Promote.pass, Unreachable.pass, Planes.pass, Workgroups.pass, Rename.pass, Shuffle.pass]

theorem Pass.looking_subset : Pass.looking ⊆ Pass.all := by
  simp [Pass.looking, Pass.all]

/-- A program reports what resolution finds if there was nothing to report before. -/
theorem Program.diagnostics_eq_resolved {b : Builder} (h : b.diagnostics = []) :
    b.build.diagnostics = b.build.resolved.2 := by
  have hbuild := (outcome_build (b := b) (by rw [h]; rfl)).2
  rw [h, List.nil_append] at hbuild
  exact hbuild

/-- Skipping a pass agrees with running it. On a valid program of a document, whose fields hold
nodes of the kinds that they are for, a pass that need not run and does not fail succeeds, and its
result has the same document and the same text and no more problems. -/
theorem Pass.apply_of_skipped {m : Document.Module} (h : m.decode = .ok p) (hv : p.valid = true)
    (hkinds : p.kinded = true) {t : Pass} (ht : t ∈ Pass.looking)
    (hskip : t.shouldRun p inputs = false) (hrun : ∀ e, (t.run p inputs).ending ≠ .failed e) :
    ∃ q data, t.apply p inputs = .ok ⟨q, data⟩ ∧ Document.ofProgram q = Document.ofProgram p ∧
      q.text = p.text ∧
      q.diagnostics = p.diagnostics := by
  obtain ⟨b, hgood, hknown, _, hnone, rfl⟩ := Document.decode_good h
  have hp := hgood.toFit.build
  have htree := hp.treeShaped (hgood.counted_build trivial)
  have he := Program.explained_build hv hgood.toFit htree
  have hk := hknown.build
  have hidle : t.Idle b.build inputs := by
    simp only [Pass.looking, List.mem_cons, List.not_mem_nil, or_false] at ht
    rcases ht with rfl | rfl | rfl | rfl | rfl | rfl
    · exact Promote.idle hp hk hv hskip
    · exact Unreachable.idle hgood.toFit htree hk hv hkinds hskip
    · have hinternal : ∀ i, b.build.shape? i ≠ some (.type .externalTexture) := by
        intro i hi
        have hrange :=
          Arena.node?_isSome_iff.1
            (Option.isSome_iff_exists.2 ((Option.map_eq_some_iff.1 hi).imp fun _ h => h.1))
        have hin := Document.decode_inTree h (Arena.mem_ids.2 hrange)
        have hnot := List.any_eq_false.1 hskip i (hp.mem_treeIds.2 hin)
        simp [Planes.isExternalNode, hi] at hnot
      exact Planes.idle hp hk hv he.sound (Program.internal_build hv hinternal) hinternal hrun
    · exact Workgroups.idle he hk hv hskip hrun
    · exact Rename.idle hp hk hv hskip
    · exact Shuffle.idle hp hk htree hv hskip hrun
  obtain ⟨c, data, happly, ⟨hdocument, htext⟩, hdiagnostics⟩ := hidle
  refine ⟨c.build, data, happly, hdocument.symm, htext.symm, ?_⟩
  have hderived : b.build.Derived fun _ => True := .decoded h
  have hc : c.build.Derived fun _ => True := .applied hderived (looking_subset ht) trivial happly
  have hresolved := (Program.Twins.resolved
    ⟨hderived.sturdy, hc.sturdy, hderived.spelledOut, hc.spelledOut, hdocument⟩).2
  rw [Program.diagnostics_build hv hnone] at hdiagnostics
  rw [Program.diagnostics_eq_resolved hdiagnostics, Program.diagnostics_eq_resolved hnone,
    hresolved]

/-- The function `@compute @workgroup_size(1) fn main() { while (true) { break; } }`. -/
def turning : Document.Module where
  globals := [
    some { kind := "Function", name := "main"
           attributes := [some { kind := "StageAttribute", stage := "compute" },
             some { kind := "WorkgroupAttribute",
                    x := some { kind := "IntLiteral", int := some 1 } }]
           body := some { kind := "Block", statements := [
             some { kind := "While", condition := some { kind := "BoolLiteral", bool := some true }
                    body := some { kind := "Block"
                                   statements := [some { kind := "Break" }] } }] } }]

/-- Suitable data for the passes. -/
def turningData : Data :=
  Exchange.put (Exchange.put (Exchange.put {} .planes {}) .numWorkgroups ⟨0, 1⟩) .shuffling 7

theorem Pass.apply_of_skipped_turning : ∃ p, turning.decode = .ok p ∧
    (Pass.looking.filter fun t => !t.shouldRun p turningData).length = 5 ∧
    ∀ t ∈ Pass.looking.filter fun t => !t.shouldRun p turningData,
      ∃ q data, t.apply p turningData = .ok ⟨q, data⟩ ∧
        Document.ofProgram q = Document.ofProgram p ∧ q.text = p.text ∧
        q.diagnostics = p.diagnostics := by
  have hok : (turning.decode.toOption.any fun p => p.valid && p.kinded &&
      (Pass.looking.filter fun t => !t.shouldRun p turningData).length == 5 &&
      (Pass.looking.filter fun t => !t.shouldRun p turningData).all fun t =>
        !((t.run p turningData).ending matches .failed _)) = true := by
    decide +kernel
  cases hp : turning.decode with
  | error e => simp [hp, Except.toOption] at hok
  | ok p =>
    simp only [hp, Except.toOption, Option.any_some, Bool.and_eq_true, beq_iff_eq, List.all_eq_true]
      at hok
    obtain ⟨⟨⟨hv, hkinds⟩, hlength⟩, hnone⟩ := hok
    refine ⟨p, rfl, hlength, fun t ht => ?_⟩
    obtain ⟨hmem, hskip⟩ := List.mem_filter.1 ht
    refine Pass.apply_of_skipped hp hv hkinds hmem (by simpa using hskip) fun e he => ?_
    have hfine := hnone t ht
    simp [he] at hfine

end ShaderLoom
