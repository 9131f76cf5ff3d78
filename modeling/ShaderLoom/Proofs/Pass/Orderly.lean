import ShaderLoom.Proofs.Pass.Promotion

/-! Programs in order. A pass that succeeds on a program in order makes one in order: it is built,
it is a tree whose statements are of the kinds that belong where they stand, and all its names are
explained. Passes in a row keep this, and they keep external textures out. -/
namespace ShaderLoom

open Copy

theorem Builder.tidy_build {b : Builder} (h : ∀ {i n}, b.node? i = some n → b.Documented n.shape) :
    b.build.Tidy := by
  intro i s _ hs
  obtain ⟨n, hn, rfl⟩ := Option.map_eq_some_iff.1 hs
  rw [Builder.node?_build] at hn
  split at hn
  · cases hn
    trivial
  · exact (h hn).mono Builder.shape?_build_of

namespace Program

/-- No node of the tree is an external texture. -/
def Native (p : Program) : Prop :=
  ∀ i, p.inTree i = true → p.shape? i ≠ some (.type .externalTexture)

/-- The program was built; it is a tree, its statements are of the kinds that belong where they
stand, and its names are all explained. -/
structure Orderly (p : Program) : Prop where
  built : ∃ b : Builder, b.Fit ∧ p = b.build
  counted : p.Counted
  spelledOut : p.toArena.SpelledOut
  tidy : p.Tidy

variable {p : Program}

theorem Orderly.fit (h : p.Orderly) : p.Fit := by
  obtain ⟨b, hb, rfl⟩ := h.built
  exact hb.build

theorem Orderly.known (h : p.Orderly) : p.Known := fun _ _ _ hn s hs => h.spelledOut.known hn s hs

theorem Orderly.treeShaped (h : p.Orderly) : p.TreeShaped := h.fit.treeShaped h.counted

theorem Orderly.recorded (h : p.Orderly) : p.Recorded := by
  obtain ⟨b, _, rfl⟩ := h.built
  exact Built.recorded ⟨b, [], (withDiagnostics_nil _).symm⟩

theorem Orderly.decode {m : Document.Module} (h : m.decode = .ok p) (htidy : p.Tidy) :
    p.Orderly where
  built := by
    obtain ⟨b, hgood, _, _, _, rfl⟩ := Document.decode_good h
    exact ⟨b, hgood.toFit, rfl⟩
  counted := (Sturdy.decode h).1.counted
  spelledOut := Document.decode_spelledOut h
  tidy := htidy

end Program

namespace Pass

variable {κ σ : Type} {t : Pass} {p : Program} {inputs : Data} {out : Output}

/-- A pass that makes a valid program has done its work, and has built it. -/
theorem apply_built {work : Work κ σ Data} {state : σ} {E : Stop → Prop} {P : Data → Builder → Prop}
    (hrun : t.run p inputs = work.perform p state)
    (h : Runs work ((Session.start p state, fun _ => 0) : World κ σ) E fun out w =>
      P out w.1.target) (hv : p.valid = true) (hout : t.apply p inputs = .ok out)
    (hv' : out.program.valid = true) : ∃ b, P out.data b ∧ out.program = b.build := by
  unfold Pass.apply Result.outcome at hout
  rw [hv, Bool.not_true, if_neg Bool.false_ne_true, hrun] at hout
  unfold Work.perform at hout
  unfold Runs at h
  split at h
  · next outputs s hs =>
    obtain ⟨_, hP⟩ := h
    simp only [hs] at hout
    split at hout
    · cases hout
      exact ⟨s.target, hP, rfl⟩
    · cases hout
  · next e s hs =>
    cases e with
    | misuse m =>
      simp only [hs] at hout
      cases hout
    | problem problem =>
      simp only [hs] at hout
      cases hout
      rw [Program.not_valid_of_error rfl] at hv'
      cases hv'

/-- What a pass makes of a program in order. -/
structure Orders (p : Program) (out : Output) : Prop where
  orderly : out.program.Orderly
  native : p.Native → out.program.Native
  silent : ∀ t, t ≠ .firstIndexData → t ≠ .renamed → out.data.get? t = none

theorem orders_of_runs {R : Regime κ σ} {work : Work κ σ Data} {state : σ} (hp : p.Orderly)
    (ht : t ∈ Pass.all) (hcounted : R.counted) (htidy : R.tidy)
    (hrun : t.run p inputs = work.perform p state)
    (h : Runs work ((Session.start p state, fun _ => 0) : World κ σ) (fun _ => True) fun out w =>
      R.Done p out w.1.target) (hv : p.valid = true) (hout : t.apply p inputs = .ok out)
    (hv' : out.program.valid = true) : Orders p out := by
  obtain ⟨b, hdone, hb⟩ := apply_built hrun h hv hout hv'
  obtain ⟨c, hc, rfl⟩ := hp.built
  refine ⟨⟨⟨b, hdone.good.toFit, hb⟩, ?_,
    Pass.spelledOut ht hp.spelledOut ⟨c, [], (Program.withDiagnostics_nil _).symm⟩ hout, ?_⟩,
    fun hnative i hi hs => ?_, hdone.silent⟩
  · rw [hb]
    exact hdone.good.counted_build hcounted
  · rw [hb]
    exact Builder.tidy_build fun hn => (hdone.permitted hn).documented htidy hp.tidy
  · rw [hb] at hs
    obtain ⟨n, hn, hs⟩ := Option.map_eq_some_iff.1 hs
    rw [Builder.node?_build] at hn
    split at hn
    · cases hn
      cases hs
    · exact (hdone.permitted hn).internal htidy (fun i hi _ => hnative i hi) hs

/-- Each pass keeps a program in order. -/
theorem orders (ht : t ∈ Pass.all) (hp : p.Orderly) (hv : p.valid = true)
    (hout : t.apply p inputs = .ok out) (hv' : out.program.valid = true) : Orders p out := by
  have hmem := ht
  have hc : True → p.Counted := fun _ => hp.counted
  simp only [Pass.all, List.mem_cons, List.not_mem_nil, or_false] at ht
  rcases ht with rfl | rfl | rfl | rfl | rfl | rfl | rfl | rfl | rfl
  · exact orders_of_runs hp hmem trivial trivial rfl
      (FirstIndex.runs_work (d := ⟨True, True, False⟩) hp.fit hc) hv hout hv'
  · exact orders_of_runs hp hmem trivial trivial rfl
      (Workgroups.runs_work (d := ⟨True, True, False⟩) hp.fit hc fun _ => hp.recorded) hv hout hv'
  · exact orders_of_runs hp hmem trivial trivial rfl
      (Planes.runs_work (d := ⟨True, True, False⟩) hp.fit hc) hv hout hv'
  · exact orders_of_runs hp hmem trivial trivial rfl
      (Rebind.runs_work (d := ⟨True, True, False⟩) hp.fit hc hp.recorded.decl False.elim) hv hout
      hv'
  · exact orders_of_runs hp hmem trivial trivial rfl
      (EntryPoint.runs_work (d := ⟨True, True, False⟩) hp.fit hc) hv hout hv'
  · exact orders_of_runs hp hmem trivial trivial rfl
      (Unreachable.runs_work (d := ⟨True, True, False⟩) hp.fit hc) hv hout hv'
  · exact orders_of_runs hp hmem trivial trivial rfl
      (Promote.runs_work (d := ⟨True, True, False⟩) hp.fit hc fun _ => hp.tidy) hv hout hv'
  · exact orders_of_runs hp hmem trivial trivial rfl
      (Rename.runs_work (d := ⟨True, True, False⟩) hp.fit hc) hv hout hv'
  · exact orders_of_runs hp hmem trivial trivial rfl
      (Shuffle.runs_work (d := ⟨True, True, False⟩) hp.fit hc) hv hout hv'

end Pass

namespace Exchange

variable {κ : Type} [DecidableEq κ] {π : κ → Type} {d e : Exchange κ π} {t : κ} {v : π t}

/-- There is something on the topic, and it is that payload. -/
def Says (d : Exchange κ π) (t : κ) (v : π t) : Prop :=
  d.has t = true ∧ ∀ x, (⟨t, x⟩ : (u : κ) × π u) ∈ d.entries → x = v

theorem has_merge : (d.merge e).has t = (d.has t || e.has t) := by
  obtain ⟨l⟩ := e
  induction l generalizing d with
  | nil => simp [merge, has]
  | cons y l ih =>
    have h := ih (d := d.put y.1 y.2)
    rw [has_put] at h
    simpa [merge, has, Bool.or_assoc] using h

theorem Says.get? (h : d.Says t v) : d.get? t = some v := by
  cases hd : d.get? t with
  | some x => rw [h.2 x (mem_of_get? hd)]
  | none =>
    obtain ⟨x, hx, hxt⟩ := List.any_eq_true.1 h.1
    exact absurd (by simpa using hxt) (ne_of_get?_eq_none hd x hx)

theorem says_put (d : Exchange κ π) (t : κ) (v : π t) : (d.put t v).Says t v := by
  refine ⟨by simp [has_put], fun x hx => ?_⟩
  unfold put at hx
  split at hx
  · obtain ⟨y, _, hy⟩ := List.mem_map.1 hx
    split at hy
    · cases hy
      rfl
    · next hne =>
      subst hy
      exact absurd rfl hne
  · next hnot =>
    rcases List.mem_append.1 hx with hx | hx
    · exact absurd (List.any_eq_true.2 ⟨_, hx, by simp⟩) hnot
    · simpa using hx

/-- What says nothing on a topic changes nothing that was said on it. -/
theorem Says.merge (h : d.Says t v) (he : e.get? t = none) : (d.merge e).Says t v :=
  ⟨by rw [has_merge, h.1, Bool.true_or], fun x hx => (mem_merge hx).elim (h.2
    x) fun hx => absurd rfl (ne_of_get?_eq_none he _ hx)⟩

theorem Says.merge_empty (h : e.Says t v) : (Exchange.merge {} e).Says t v :=
  ⟨by rw [has_merge, h.1, Bool.or_true], fun x hx => (mem_merge hx).elim (fun h =>
    absurd h List.not_mem_nil) (h.2 x)⟩

end Exchange

namespace Pipeline

variable {t : Pass} {ts us : List Pass} {s s' : State Topic Payload} {ds : List Data}

/-- A pass leads from one state to another: it is passed over, or it makes a valid program. -/
inductive Step (t : Pass) (s : State Topic Payload) : State Topic Payload → Prop
  | skip : t.shouldRun s.current s.data = false → Step t s s
  | done {out : Output} : t.apply s.current s.data = .ok out → out.program.valid = true →
    Step t s (s.next out s.data)

theorem Passed.cons_inv (h : Passed (t.toTransform :: ts.map Pass.toTransform) s s' ds) :
    ∃ s₁ ds', Step t s s₁ ∧ Passed (ts.map Pass.toTransform) s₁ s' ds' := by
  cases h with
  | skip hskip h => exact ⟨s, ds, .skip hskip, h⟩
  | done _ hout hv h =>
    rw [t.toTransform_apply, Prod.mk.injEq] at hout
    obtain ⟨hout, rfl⟩ := hout
    exact ⟨_, _, .done hout hv, h⟩

theorem Passed.append_inv {ts us : List (Transform Topic Payload)} (h : Passed (ts ++ us) s s' ds) :
    ∃ s₁ ds₁ ds₂, Passed ts s s₁ ds₁ ∧ Passed us s₁ s' ds₂ := by
  induction ts generalizing s ds with
  | nil => exact ⟨s, [], ds, .nil, h⟩
  | cons t ts ih =>
    cases h with
    | skip hskip h =>
      obtain ⟨s₁, ds₁, ds₂, h₁, h₂⟩ := ih h
      exact ⟨s₁, ds₁, ds₂, .skip hskip h₁, h₂⟩
    | done hrun hout hv h =>
      obtain ⟨s₁, ds₁, ds₂, h₁, h₂⟩ := ih h
      exact ⟨s₁, _ :: ds₁, ds₂, .done hrun hout hv h₁, h₂⟩

/-- A run that ends with a valid program was not ended early. -/
theorem passed_of_runFrom {ts : List (Transform Topic Payload)} {out : Output}
    (hs : s.current.valid = true) (h : (runFrom ts s).2 = .ok out) (hv : out.program.valid = true) :
    ∃ s' ds, Passed ts s s' ds ∧ out = ⟨s'.current, s'.outputs⟩ := by
  induction ts generalizing s with
  | nil =>
    cases h
    exact ⟨s, [], .nil, rfl⟩
  | cons t ts ih =>
    cases hrun : (t.shouldRun s.current s.data).1 with
    | false =>
      rw [runFrom_skip hrun] at h
      obtain ⟨s', ds, hpassed, rfl⟩ := ih (s := s.asked t) hs h
      exact ⟨s', ds, .skip hrun hpassed, rfl⟩
    | true =>
      obtain ⟨left, hleft⟩ : ∃ left, left = (t.apply s.current (s.asked t).data).2 := ⟨_, rfl⟩
      cases ha : (t.apply s.current (s.asked t).data).1 with
      | error e =>
        rw [runFrom_misused hrun (Prod.ext ha hleft.symm)] at h
        cases h
      | ok o =>
        have ha : t.apply s.current (s.asked t).data = (.ok o, left) := Prod.ext ha hleft.symm
        cases ho : o.program.valid with
        | true =>
          rw [runFrom_next hrun ha ho] at h
          obtain ⟨s', ds, hpassed, rfl⟩ := ih ho h
          exact ⟨s', _, .done hrun ha ho hpassed, rfl⟩
        | false =>
          rw [runFrom_stop hs hrun ha ho] at h
          cases h
          rw [State.stopped_not_valid ho] at hv
          cases hv

/-- A program in order, without errors. -/
structure State.Orderly (s : State Topic Payload) : Prop where
  program : s.current.Orderly
  valid : s.current.valid = true

/-- What passes keep of a state. -/
structure Keeps (s s' : State Topic Payload) : Prop where
  native : s.current.Native → s'.current.Native
  config : ∀ c, s.data.Says .renaming c → s'.data.Says .renaming c

theorem Step.orderly (ht : t ∈ Pass.all) (hs : s.Orderly) (h : Step t s s') :
    s'.Orderly ∧ Keeps s s' := by
  cases h with
  | skip => exact ⟨hs, id, fun _ => id⟩
  | done hout hv =>
    have horders := Pass.orders ht hs.program hs.valid hout hv
    exact ⟨⟨horders.orderly, hv⟩, horders.native,
      fun c hc => hc.merge (horders.silent .renaming (by decide) (by decide))⟩

/-- Turning external textures into planes leaves none. -/
theorem Step.native (hs : s.Orderly) (h : Step Planes.pass s s') : s'.current.Native := by
  cases h with
  | skip hskip =>
    intro i hi hx
    have hnone := List.any_eq_false.1 hskip i (hs.program.fit.mem_treeIds.2 hi)
    simp [Planes.isExternalNode, hx] at hnone
  | @done out hout hv =>
    obtain ⟨b, hdone, hb⟩ :=
      Pass.apply_built rfl (Planes.runs_work (d := ⟨False, True, False⟩) hs.program.fit False.elim)
      hs.valid hout hv
    intro i _ hx
    have hx : out.program.shape? i = _ := hx
    rw [hb] at hx
    obtain ⟨n, hn, hshape⟩ := Option.map_eq_some_iff.1 hx
    rw [Builder.node?_build] at hn
    split at hn
    · cases hn
      cases hshape
    · exact (hdone.permitted hn).internal trivial (fun _ _ h => h) hshape

/-- Passes in a row keep a program in order. -/
theorem Passed.orderly (hts : ∀ t ∈ ts, t ∈ Pass.all) (hs : s.Orderly)
    (h : Passed (ts.map Pass.toTransform) s s' ds) :
    s'.Orderly ∧ Keeps s s' ∧ (Planes.pass ∈ ts → s'.current.Native) := by
  induction ts generalizing s ds with
  | nil =>
    cases h
    exact ⟨hs, ⟨id, fun _ => id⟩, fun h => absurd h List.not_mem_nil⟩
  | cons t ts ih =>
    obtain ⟨s₁, ds', hstep, hrest⟩ := h.cons_inv
    obtain ⟨hs₁, hkeeps⟩ := hstep.orderly (hts t List.mem_cons_self) hs
    obtain ⟨hs', hkeeps', hnative⟩ := ih (fun t ht => hts t (List.mem_cons_of_mem _ ht)) hs₁ hrest
    refine ⟨hs', ⟨hkeeps'.native ∘ hkeeps.native, fun c => hkeeps'.config c ∘ hkeeps.config c⟩,
      fun hmem => ?_⟩
    rcases List.mem_cons.1 hmem with rfl | hmem
    · exact hkeeps'.native (hstep.native hs)
    · exact hnative hmem

end Pipeline
end ShaderLoom
