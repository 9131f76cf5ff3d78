import ShaderLoom.Backend.Sanitize
import ShaderLoom.Pass.Shuffle
import ShaderLoom.Proofs.Document.RoundTrip
import ShaderLoom.Proofs.Meaning.Records
import ShaderLoom.Proofs.Pass.Builtins
import ShaderLoom.Proofs.Pass.Hoist
import ShaderLoom.Proofs.Pass.Pipeline
import ShaderLoom.Proofs.Pass.Planes
import ShaderLoom.Proofs.Pass.Rebind
import ShaderLoom.Proofs.Pass.Rename
import ShaderLoom.Proofs.Pass.Selection

/-! Programs that come from documents through passes. However many passes they went through, their
nodes form a tree in which children come first, and their documents can be read again. -/
namespace ShaderLoom

open Copy

/-- Every pass there is. -/
def Pass.all : List Pass :=
  [FirstIndex.pass, Workgroups.pass, Planes.pass, Rebind.pass, EntryPoint.pass, Unreachable.pass,
    Promote.pass, Rename.pass, Shuffle.pass]

theorem Builder.held_build (b : Builder) (x : NodeId) : b.build.held x = b.held x := by
  simp [Arena.held, Builder.held, Builder.build, Shape.slots]

namespace Program

/-- What every pass keeps: the program was built, children come first, and none is held twice. -/
structure Sturdy (p : Program) : Prop where
  fit : p.Fit
  built : p.Built
  counted : p.Counted

variable {p : Program}

theorem Sturdy.withDiagnostics (h : p.Sturdy) (ds : Diagnostics) :
    (p.withDiagnostics ds).Sturdy where
  fit := h.fit.withDiagnostics ds
  built := by
    obtain ⟨b, es, rfl⟩ := h.built
    exact ⟨b, es ++ ds, by simp [Program.withDiagnostics]⟩
  counted := h.counted

theorem Sturdy.build {M : Builder.Mode} {b : Builder} (h : M.Good b []) (hc : M.counted) :
    b.build.Sturdy where
  fit := h.toFit.build
  built := ⟨b, [], (Program.withDiagnostics_nil _).symm⟩
  counted x hx := by simpa [Builder.held_build] using h.once hc x hx

theorem Sturdy.decode {m : Document.Module} (h : m.decode = .ok p) : p.Sturdy ∧ p.Accessible := by
  obtain ⟨b, hb, _, ha, _, rfl⟩ := Document.decode_good h
  exact ⟨.build hb trivial, Builder.accessible_build ha⟩

end Program

namespace Pass

variable {t : Pass} {p : Program} {inputs : Data} {out : Output} {W : Prop}

/-- A pass whose work ends well makes a sturdy program, with declared words if that is asked for. -/
theorem apply_done {κ σ : Type} {R : Regime κ σ} {work : Work κ σ Data} {state : σ} (hp : p.Sturdy)
    (ha : W → p.Accessible) (hcounted : R.counted) (hworded : W → R.worded)
    (hrun : t.run p inputs = work.perform p state)
    (h : Runs work ((Session.start p state, fun _ => 0) : World κ σ) (fun _ => True)
      fun out w => R.Done p out w.1.target)
    (hout : t.apply p inputs = .ok out) :
    out.program.Sturdy ∧ (W → out.program.Accessible) ∧ out.data.get? .remapping = none := by
  rcases Pass.apply_program hrun h hout with ⟨hdata, ds, hds⟩ | ⟨b, hdone, hb⟩
  · rw [hds, hdata]
    exact ⟨hp.withDiagnostics ds, ha, rfl⟩
  · rw [hb]
    refine ⟨.build hdone.good hcounted, fun hw => Builder.accessible_build fun i n hn => ?_,
      hdone.silent .remapping (by decide) (by decide)⟩
    exact (hdone.permitted hn).accessible (hworded hw) (ha hw)

/-- What one pass keeps. -/
theorem apply_sturdy (ht : t ∈ Pass.all) (hp : p.Sturdy) (ha : W → p.Accessible)
    (hd : W → inputs.Declared) (hout : t.apply p inputs = .ok out) :
    out.program.Sturdy ∧ (W → out.program.Accessible) ∧ out.data.get? .remapping = none := by
  have hc : True → p.Counted := fun _ => hp.counted
  simp only [Pass.all, List.mem_cons, List.not_mem_nil, or_false] at ht
  rcases ht with rfl | rfl | rfl | rfl | rfl | rfl | rfl | rfl | rfl
  · exact apply_done hp ha trivial id rfl (FirstIndex.runs_work (d := ⟨True, False, W⟩) hp.fit hc)
      hout
  · exact apply_done hp ha trivial id rfl
      (Workgroups.runs_work (d := ⟨True, False, W⟩) hp.fit hc nofun) hout
  · exact apply_done hp ha trivial id rfl (Planes.runs_work (d := ⟨True, False, W⟩) hp.fit hc) hout
  · exact apply_done hp ha trivial id rfl
      (Rebind.runs_work (d := ⟨True, False, W⟩) hp.fit hc hp.built.recorded.decl hd) hout
  · exact apply_done hp ha trivial id rfl (EntryPoint.runs_work (d := ⟨True, False, W⟩) hp.fit hc)
      hout
  · exact apply_done hp ha trivial id rfl (Unreachable.runs_work (d := ⟨True, False, W⟩) hp.fit hc)
      hout
  · exact apply_done hp ha trivial id rfl
      (Promote.runs_work (d := ⟨True, False, W⟩) hp.fit hc nofun) hout
  · exact apply_done hp ha trivial id rfl (Rename.runs_work (d := ⟨True, False, W⟩) hp.fit hc) hout
  · exact apply_done hp ha trivial id rfl (Shuffle.runs_work (d := ⟨True, False, W⟩) hp.fit hc) hout

end Pass

/-- A copy without changes keeps the same. -/
theorem Copy.plainCopy_sturdy {p q : Program} {W : Prop} (hp : p.Sturdy) (ha : W → p.Accessible)
    (h : plainCopy p = .ok q) : q.Sturdy ∧ (W → q.Accessible) := by
  have hstart : (Regime.bare ⟨True, False, W⟩).Ready p [] (Session.start p (), fun _ => 0) [] :=
    .start hp.fit (fun _ => trivial) fun _ => rfl
  have hruns : Runs (Edit.copyModule (Edit.copy noHandlers)) _ _ _ :=
    hstart.copyModule (fun _ _ => trivial)
    hp.fit (fun _ => hp.counted) (Regime.handled_of_empty fun _ => trivial)
  unfold plainCopy at h
  split at h
  · next s hs =>
    cases h
    obtain ⟨_, hdone⟩ := hruns.ok hs
    refine ⟨.build hdone.good trivial, fun hw => Builder.accessible_build fun i n hn => ?_⟩
    exact (hdone.permitted hn).accessible hw (ha hw)
  · cases h

/-- Programs that a document leads to through passes, with data that is admitted, and through
copies. -/
inductive Program.Derived (allowed : Data → Prop) : Program → Prop
  | decoded {m : Document.Module} {p : Program} : m.decode = .ok p → Derived allowed p
  | copied {p q : Program} : Derived allowed p → plainCopy p = .ok q → Derived allowed q
  | applied {p : Program} {t : Pass} {inputs : Data} {out : Output} : Derived allowed p →
    t ∈ Pass.all →
    allowed inputs → t.apply p inputs = .ok out → Derived allowed out.program

namespace Program

variable {p : Program} {allowed : Data → Prop}

theorem Derived.sturdy (h : p.Derived allowed) : p.Sturdy := by
  induction h with
  | decoded h => exact (Sturdy.decode h).1
  | copied _ h ih => exact (plainCopy_sturdy (W := False) ih nofun h).1
  | applied _ ht _ hout ih => exact (Pass.apply_sturdy (W := False) ht ih nofun nofun hout).1

theorem Derived.accessible (h : p.Derived Data.Declared) : p.Accessible := by
  induction h with
  | decoded h => exact (Sturdy.decode h).2
  | copied hp h ih => exact (plainCopy_sturdy (W := True) hp.sturdy (fun _ => ih) h).2 trivial
  | applied hp ht hd hout ih =>
    exact (Pass.apply_sturdy (W := True) ht hp.sturdy (fun _ => ih) (fun _ => hd) hout).2.1 trivial

theorem Fit.inTree_of_below (hp : p.Fit) {i : NodeId} (h : p.Below p.root i) :
    p.inTree i = true := by
  induction h with
  | self => exact p.inTree_root
  | child _ hc ih => exact hp.inTree_child ih hc

/-- Whatever a document leads to through passes is a tree whose nodes come after their children: a
node below the module is held at one place, and its parent is the node that holds it there. -/
theorem derived_tree (h : p.Derived fun _ => True) :
    (∀ i n, p.node? i = some n → ∀ c ∈ n.shape.slots, c < i) ∧
    ∀ i, p.Below p.root i → i ≠ p.root → p.held i = 1 ∧ i ∈ p.children (p.parent i) := by
  have hs := h.sturdy
  refine ⟨fun _ _ hn => hs.fit.below hn, fun i hi hr => ?_⟩
  have ht := hs.fit.inTree_of_below hi
  have hparent : p.parent i ≠ 0 := by
    have : i = p.root ∨ p.parent i ≠ 0 := Program.inTree_iff.1 ht
    exact this.resolve_left hr
  obtain ⟨hmem, _⟩ := hs.fit.parent_holds hparent
  refine ⟨Nat.le_antisymm (hs.counted i (Arena.ne_zero_of_mem_children hmem)) ?_, hmem⟩
  obtain ⟨n, hn, hc, _⟩ := Arena.mem_children.1 hmem
  have hrange := Arena.range_of_node? hn
  rw [Arena.held_eq]
  refine List.count_pos_iff.2 (List.mem_flatMap.2 ⟨p.parent i, Arena.mem_ids.2 hrange, ?_⟩)
  rwa [Arena.slotsOf_of_node? hn]

/-- A structure made in the condition of a loop: `fn f() { while (S(1).a == 1) { } }`. -/
def conditional : Document.Module where
  globals := [
    some { kind := "Struct", name := "S", members := [
      some { kind := "StructMember", name := "a", type := some { kind := "I32" } }] },
    some { kind := "Function", name := "f", body := some { kind := "Block", statements := [
      some { kind := "While", body := some { kind := "Block" }
             condition := some { kind := "Binary", op := "=="
                                 rhs := some { kind := "IntLiteral", int := some 1 }
                                 lhs := some { kind := "Member", name := "a",
                                               object := some made } } }] } }]
where
  made : Document.Record :=
    { kind := "Call", target := some { kind := "Ident", name := "S" }
      args := [some { kind := "IntLiteral", int := some 1 }] }

/-- A program that the passes of a list lead to from a document, all of them with the same
inputs. -/
def passedThrough (m : Document.Module) (ts : List Pass) (inputs : Data) : Option Program :=
  ts.foldl (fun p t => p.bind fun p => (t.apply p inputs).toOption.map (·.program))
    m.decode.toOption

theorem derived_of_passedThrough {m : Document.Module} {ts : List Pass} {inputs : Data}
    (hts : ∀ t ∈ ts, t ∈ Pass.all) (hd : allowed inputs) (h : passedThrough m ts inputs = some p) :
    p.Derived allowed := by
  have hgen : ∀ start : Option Program, (∀ q, start = some q → q.Derived allowed) →
      ts.foldl (fun p t => p.bind fun p => (t.apply p inputs).toOption.map (·.program)) start =
      some p →
      p.Derived allowed := by
    clear h
    induction ts with
    | nil => exact fun start hs h => hs p h
    | cons t ts ih =>
      intro start hs h
      refine ih (fun t ht => hts t (by simp [ht])) _ (fun q hq => ?_) h
      obtain ⟨q', hq', hq⟩ := Option.bind_eq_some_iff.1 hq
      obtain ⟨out, hout, rfl⟩ := Option.map_eq_some_iff.1 hq
      refine .applied (hs q' hq') (hts t (by simp)) hd (?_ : t.apply q' inputs = .ok out)
      cases ha : t.apply q' inputs <;> simp_all [Except.toOption]
  refine hgen _ (fun q hq => .decoded (?_ : m.decode = .ok q)) h
  cases ha : m.decode <;> simp_all [Except.toOption]

theorem derived_tree_promoted :
    ∃ p, passedThrough conditional [Promote.pass, Unreachable.pass] {} = some p ∧
    p.valid = true ∧ (∀ i n, p.node? i = some n → ∀ c ∈ n.shape.slots, c < i) ∧
    ∀ i, p.Below p.root i → i ≠ p.root → p.held i = 1 ∧ i ∈ p.children (p.parent i) := by
  have hok : (passedThrough conditional [Promote.pass, Unreachable.pass] {}).any (·.valid) =
      true := by
    decide +kernel
  cases hp : passedThrough conditional [Promote.pass, Unreachable.pass] {} with
  | none => simp [hp] at hok
  | some p =>
    exact ⟨p, rfl, by
      simpa [hp] using hok, derived_tree (derived_of_passedThrough (by simp [Pass.all]) trivial hp)⟩

end Program

namespace Exchange

variable {κ : Type} [DecidableEq κ] {π : κ → Type} {d e : Exchange κ π} {t : κ}

omit [DecidableEq κ] in
theorem ne_of_get?_eq_none [DecidableEq κ] (h : d.get? t = none) : ∀ e ∈ d.entries, e.1 ≠ t := by
  intro e he ht
  have := List.findSome?_eq_none_iff.1 h e he
  simp [payload?, ht] at this

theorem mem_of_get? {v : π t} (h : d.get? t = some v) : ⟨t, v⟩ ∈ d.entries := by
  obtain ⟨e, he, hv⟩ := List.exists_of_findSome?_eq_some h
  unfold payload? at hv
  split at hv
  · next ht =>
    obtain ⟨u, w⟩ := e
    subst ht
    cases hv
    exact he
  · cases hv

theorem mem_put {v : π t} {x : (u : κ) × π u} (h : x ∈ (d.put t v).entries) :
    x ∈ d.entries ∨ x = ⟨t, v⟩ := by
  unfold put at h
  split at h
  · obtain ⟨y, hy, rfl⟩ := List.mem_map.1 h
    split
    · exact .inr rfl
    · exact .inl hy
  · simpa using h

/-- A merge holds nothing but what was on either side. -/
theorem mem_merge {x : (u : κ) × π u} (h : x ∈ (d.merge e).entries) :
    x ∈ d.entries ∨ x ∈ e.entries := by
  obtain ⟨l⟩ := e
  induction l generalizing d with
  | nil => exact .inl h
  | cons y l ih =>
    rcases ih (d := d.put y.1 y.2) h with h | h
    · rcases mem_put h with h | rfl
      · exact .inl h
      · exact .inr (by simp)
    · exact .inr (by simp_all)

end Exchange

/-- The same of every remapping that the data holds, whichever of them counts. -/
def Data.Worded (d : Data) : Prop :=
  ∀ r, (⟨.remapping, r⟩ : (t : Topic) × Payload t) ∈ d.entries → ∀ e ∈ r.access,
    e.2 ∈ Access.declared

namespace Data.Worded

variable {d e : Data}

theorem declared (h : d.Worded) : d.Declared := fun r hr => h r (Exchange.mem_of_get? hr)

theorem merge (h : d.Worded) (he : e.Worded) : Worded (d.merge e) := fun r hr =>
  (Exchange.mem_merge hr).elim (h r) (he r)

theorem put (h : d.Worded) {t : Topic} (v : Payload t) (ht : t ≠ .remapping) :
    Worded (d.put t v) := fun r hr =>
  (Exchange.mem_put hr).elim (h r) fun hx => absurd (congrArg Sigma.fst hx).symm ht

theorem of_silent (h : d.get? .remapping = none) : d.Worded := fun _ hr =>
  absurd rfl (Exchange.ne_of_get?_eq_none h _ hr)

end Data.Worded

namespace Plan

variable {d : Data} {semver : Semver} {p : Program} {o : Options} {backend : Backend} {plan : Plan}

theorem accessOf_declared {a : AccessOption} {e : BindingPoint × Access}
    (h : CommonOptions.accessOf a = .ok e) : e.2 ∈ Access.declared := by
  unfold CommonOptions.accessOf at h
  split at h
  · cases h
  · cases h
  · next access _ hparse =>
    cases h
    exact List.mem_of_find?_eq_some hparse

theorem mapM_accessOf {as : List AccessOption} {es : List (BindingPoint × Access)}
    (h : as.mapM CommonOptions.accessOf = .ok es) : ∀ e ∈ es, e.2 ∈ Access.declared := by
  induction as generalizing es with
  | nil =>
    cases h
    simp
  | cons a as ih =>
    rw [List.mapM_cons] at h
    obtain ⟨e, he, h⟩ := bind_eq_ok.1 h
    obtain ⟨es', hes, h⟩ := bind_eq_ok.1 h
    cases h
    intro x hx
    rcases List.mem_cons.1 hx with rfl | hx
    · exact accessOf_declared he
    · exact ih hes x hx

/-- Options name declared access modes only. -/
theorem worded_commonData {c : CommonOptions} (h : commonData c = .ok d) : d.Worded := by
  obtain ⟨r, hr, h⟩ := bind_eq_ok.1 h
  obtain ⟨access, haccess, hr⟩ := bind_eq_ok.1 hr
  cases h
  cases hr
  refine Data.Worded.put (fun r hr => ?_) _ (by decide)
  rcases Exchange.mem_put hr with hr | hr
  · cases hr
  · cases hr
    exact mapM_accessOf haccess

/-- A plan runs passes that there are, with declared words. -/
theorem of_sound (h : Plan.of semver p o backend = .ok plan) :
    (∀ t ∈ plan.passes, t ∈ Pass.all) ∧ plan.data.Worded := by
  cases backend with
  | glsl =>
    obtain ⟨_, _, h⟩ := bind_eq_ok.1 h
    obtain ⟨_, _, h⟩ := bind_eq_ok.1 h
    dsimp only at h
    split at h
    · cases h
    obtain ⟨d, hd, h⟩ := bind_eq_ok.1 h
    cases h
    exact ⟨by simp [Pass.all], ((worded_commonData hd).put _ (by decide)).put _ (by decide)⟩
  | hlsl =>
    obtain ⟨d, hd, h⟩ := bind_eq_ok.1 h
    cases h
    refine ⟨fun t ht => ?_, ?_⟩
    · simp only [Pass.all, List.mem_append, List.mem_cons, List.not_mem_nil, or_false] at ht ⊢
      rcases ht with (ht | ht) | ht
      · grind
      · split at ht <;> simp_all
      · grind
    · refine Data.Worded.put (Data.Worded.put ?_ _ (by decide)) _ (by decide)
      cases o.hlsl.firstIndexOffset with
      | none => exact worded_commonData hd
      | some point => exact (worded_commonData hd).put _ (by decide)
  | msl =>
    obtain ⟨_, _, h⟩ := bind_eq_ok.1 h
    obtain ⟨d, hd, h⟩ := bind_eq_ok.1 h
    cases h
    exact ⟨by simp [Pass.all], (worded_commonData hd).put _ (by decide)⟩
  | spirv =>
    obtain ⟨d, hd, h⟩ := bind_eq_ok.1 h
    cases h
    exact ⟨by simp [Pass.all], worded_commonData hd⟩
  | other n => cases h

end Plan

/-- Passes in a row keep what each of them keeps. -/
theorem Pipeline.runFrom_sturdy {ts : List Pass} {s : State Topic Payload} {out : Output}
    (hts : ∀ t ∈ ts, t ∈ Pass.all) (hp : s.current.Sturdy) (ha : s.current.Accessible)
    (hd : Data.Worded s.data) (h : (runFrom (ts.map Pass.toTransform) s).2 = .ok out) :
    out.program.Sturdy ∧ out.program.Accessible := by
  induction ts generalizing s with
  | nil =>
    cases h
    exact ⟨hp, ha⟩
  | cons t ts ih =>
    have hrest : ∀ t ∈ ts, t ∈ Pass.all := fun t ht => hts t (List.mem_cons_of_mem _ ht)
    simp only [List.map_cons, runFrom, Pass.toTransform_apply] at h
    split at h
    · simp only [note] at h
      split at h
      · cases h
      · next o left ho =>
        obtain ⟨hout, rfl⟩ := Prod.mk.inj ho
        obtain ⟨hp', ha', hsilent⟩ :=
          Pass.apply_sturdy (W := True) (hts t (List.mem_cons_self ..)) hp
          (fun _ => ha) (fun _ => hd.declared) hout
        split at h
        · exact ih hrest hp' (ha' trivial) (hd.merge (.of_silent hsilent)) h
        · cases h
          exact ⟨hp.withDiagnostics _, ha⟩
    · exact ih hrest hp ha hd h

theorem sanitize_sturdy {semver : Semver} {p : Program} {o : Options} {backend : Backend}
    {run : SanitizeRun} {r : Sanitized} (hp : p.Sturdy) (ha : p.Accessible)
    (h : sanitize semver p o backend = .ok run) (hr : run.result = some r) :
    r.program.Sturdy ∧ r.program.Accessible := by
  unfold sanitize at h
  split at h
  · cases h
    cases hr
  · next hv =>
    split at h
    · cases h
      cases hr
    · next plan hplan =>
      obtain ⟨hts, hd⟩ := Plan.of_sound hplan
      rw [Pipeline.run_of_valid (by simpa using hv)] at h
      obtain ⟨out, hout, h⟩ := bind_eq_ok.1 h
      cases h
      cases hr
      refine Pipeline.runFrom_sturdy hts hp ha ?_ hout
      exact Data.Worded.merge (fun r hr => nomatch hr) hd

namespace Program

variable {p : Program}

/-- The document of whatever a document leads to through passes, with declared words, can be read
again and gives a program with the same document and the same text. So does that of a program
prepared for a target. -/
theorem derived_reads (h : p.Derived Data.Declared) :
    (∃ q, (Document.ofProgram p).decode = .ok q ∧ Document.ofProgram q = Document.ofProgram p ∧
      q.text = p.text) ∧
    ∀ semver o backend run r, sanitize semver p o backend = .ok run → run.error.isNone →
      run.result = some r →
      ∃ q, (Document.ofProgram r.program).decode = .ok q ∧
        Document.ofProgram q = Document.ofProgram r.program ∧ q.text = r.program.text := by
  have hreads : ∀ p : Program, p.Sturdy → p.Accessible →
      ∃ q, (Document.ofProgram p).decode = .ok q ∧
      Document.ofProgram q = Document.ofProgram p ∧ q.text = p.text := by
    intro p hp ha
    obtain ⟨q, hq, _, hdoc, htext⟩ := hp.fit.decode ha
    exact ⟨q, hq, hdoc.symm, htext.symm⟩
  refine ⟨hreads p h.sturdy h.accessible, fun semver o backend run r hrun _ hr => ?_⟩
  obtain ⟨hs, ha⟩ := sanitize_sturdy h.sturdy h.accessible hrun hr
  exact hreads r.program hs ha

/-- Makes the buffer at the first binding point of the first group writable. -/
def writing : Data := Exchange.put {} .remapping { access := [(⟨0, 0⟩, .readWrite)] }

/-- A buffer beside the function above. -/
def buffered : Document.Module where
  globals := conditional.globals ++ [
    some { kind := "Var", name := "b", type := some { kind := "TypeName", name := "S" }
           addressSpace := "storage", access := "read"
           attributes := [some { kind := "GroupAttribute", value := some 0 },
                          some { kind := "BindingAttribute", value := some 0 }] }]

theorem derived_reads_buffered : Data.Declared writing ∧
    ∃ p run r, passedThrough buffered [Rebind.pass, Promote.pass] writing = some p ∧
      sanitize .standard p {} .msl = .ok run ∧ run.error.isNone ∧ run.result = some r ∧
      (∃ q, (Document.ofProgram p).decode = .ok q ∧ Document.ofProgram q = Document.ofProgram p ∧
        q.text = p.text) ∧
      ∃ q, (Document.ofProgram r.program).decode = .ok q ∧
        Document.ofProgram q = Document.ofProgram r.program ∧ q.text = r.program.text := by
  have hdeclared : Data.Declared writing := by
    intro r hr e he
    cases hr
    rw [List.mem_singleton.1 he]
    decide
  have hok : ((passedThrough buffered [Rebind.pass, Promote.pass] writing).any fun p =>
      (sanitize .standard p {} .msl).toOption.any fun run =>
        run.error.isNone && run.result.isSome) = true := by
    decide +kernel
  cases hp : passedThrough buffered [Rebind.pass, Promote.pass] writing with
  | none => simp [hp] at hok
  | some p =>
    rw [hp, Option.any_some] at hok
    cases hrun : sanitize .standard p {} .msl with
    | error m => simp [hrun, Except.toOption] at hok
    | ok run =>
      rw [hrun, Except.toOption, Option.any_some, Bool.and_eq_true] at hok
      obtain ⟨r, hr⟩ := Option.isSome_iff_exists.1 hok.2
      have h := derived_reads (derived_of_passedThrough (by simp [Pass.all]) hdeclared hp)
      exact ⟨hdeclared, p, run, r, rfl, hrun, hok.1, hr, h.1, h.2 _ _ _ _ _ hrun hok.1 hr⟩

end Program
end ShaderLoom
