import ShaderLoom.Proofs.Pass.Bodies

/-! The program that hoisting makes of a valid program is valid. What resolution finds out about a
call in it, it found out about the call of the source that stands there. -/
namespace ShaderLoom
namespace Hoist

namespace Remade

variable {p : Program} {M M' : Frame} {F : NodeId → ExprFacts → Prop} {E E' : Table}
    {ms : List Moved} {b : Builder}
  {origin : NodeId → NodeId} {Φ : Remade p M F E ms b origin M' E'} {Δ Δ' Δ₁ : Levels}
    {V V₁ : List ShaderLoom.Made}

/-- Nothing is moved out of parameters. -/
theorem readyIn_parameter {d g : NodeId} {f : FunctionShape Symbol NodeId} (hg : g ∈ p.globals)
    (hf : p.function? g = some f) (hd : d ∈ f.params) {v : VariableShape Symbol NodeId}
    (hv : p.asVariable? d = some v) : Φ.ReadyIn Δ Δ' v.initializer := by
  intro m hm hc
  have hroot : p.Rooted p.scene.module := Φ.scene ▸ Φ.rooted
  exact absurd (hroot.statementOf_outer Φ.walked (.inr ⟨g, f, ⟨hg, by simp [hf]⟩, hf, hd⟩) hv hc
    (Φ.hoisted.expr_ne_zero hm))
    (Φ.reading hm).1

theorem takes_follow {g : NodeId} {f : FunctionShape Symbol NodeId} (hg : g ∈ p.globals)
    (hf : p.function? g = some f) {ds ds' : List NodeId}
    (hds : List.Forall₂ (Stands p ms b.build origin) ds ds') (hparams : ∀ d ∈ ds, d ∈ f.params)
    (hcov : Φ.Covers Δ Δ') (hroom : Φ.Room Δ Δ') (h : Takes p.toArena M E F ds Δ V Δ₁ V₁)
    (V' : List ShaderLoom.Made) :
    ∃ Δ₁' V₁', Takes b.build.toArena M' E' Φ.Found ds' Δ' V' Δ₁' V₁' ∧ Φ.Covers Δ₁ Δ₁' := by
  induction h generalizing ds' Δ' V' with
  | nil =>
    cases hds
    exact ⟨Δ', V', .nil, hcov⟩
  | cons hv hkind hd _ ih =>
    cases hds with
    | cons hdd hds =>
      obtain ⟨v', x, y, V₁', hv', hkind', hd', hxy, rfl⟩ := declares hcov hroom hdd hv
        (readyIn_parameter hg hf (hparams _ List.mem_cons_self) hv) hd V'
      obtain ⟨Δ₁', V₂', hds', hcov'⟩ :=
        ih hds (fun d hd => hparams d (List.mem_cons_of_mem _ hd)) (hcov.push hxy)
        (hroom.push hcov hxy) V₁'
      exact ⟨Δ₁', V₂', .cons hv' (hkind' hkind) hd' hds', hcov'⟩

/-- The body of a function is what its body has become. -/
theorem body_comes (Φ : Remade p M F E ms b origin M' E') {d d' : NodeId}
    {f f' : FunctionShape Symbol NodeId} (hdd : Stands p ms b.build origin d d')
    (hf : p.function? d = some f) (hf' : b.build.function? d' = some f') :
    Comes ms b.toArena origin f.body f'.body := by
  have hs := Arena.shape?_of_function? hf
  obtain ⟨hkept, hself⟩ := hdd.resolve_left fun hz => Arena.ne_zero_of_shape hs hz.1
  obtain ⟨y, hy, hrel⟩ :=
    Φ.hoisted.rel (Φ.fit.treeShaped Φ.counted) hkept.present hkept.origin hself hs rfl
  cases hrel with
  | function _ _ _ hbody =>
    cases (Arena.shape?_of_function? hf').symm.trans hy
    exact hbody

theorem holds_follow {d d' : NodeId} (hg : d ∈ p.globals) (hdd : Stands p ms b.build origin d d')
    (h : Holds p.toArena M E F d V V₁) (V' : List ShaderLoom.Made) :
    ∃ V₁', Holds b.build.toArena M' E' Φ.Found d' V' V₁' := by
  cases h with
  | function hf hparams hbody =>
    obtain ⟨f', hf', -, hps⟩ := Φ.kin.function hdd hf
    have hs := Arena.shape?_of_function? hf
    have hin : p.inTree d = true := Φ.rooted.tree.inTree_global hg (Arena.ne_zero_of_shape hs)
    have hcov : Φ.Covers [[]] [[]] := ⟨nofun, nofun, fun _ _ _ => .none⟩
    obtain ⟨Δ₁', V₁', hparams', hcov'⟩ :=
      takes_follow hg hf hps (fun _ h => h) hcov (room_opened _ _) hparams V'
    obtain ⟨V₂', hbody', -⟩ :=
      (ranges_follow hbody).block (Φ.inTree_slot hin hs (by simp [Shape.slots]))
      (.inl (Φ.tidy _ _ hin hs)) (Φ.body_comes hdd hf hf') hcov' V₁'
    exact ⟨V₂', .function hf' hparams' hbody'⟩
  | other hf => exact ⟨V', .other (Φ.kin.noFunction hdd hf)⟩

theorem bodies_follow {gs gs' : List NodeId}
    (hgs : List.Forall₂ (Stands p ms b.build origin) gs gs') (hglobals : ∀ g ∈ gs, g ∈ p.globals)
    (h : Along (Holds p.toArena M E F) gs V V₁) (V' : List ShaderLoom.Made) :
    ∃ V₁', Along (Holds b.build.toArena M' E' Φ.Found) gs' V' V₁' := by
  induction h generalizing gs' V' with
  | nil =>
    cases hgs
    exact ⟨V', .nil⟩
  | cons hd _ ih =>
    cases hgs with
    | cons hdd hgs =>
      obtain ⟨V₁', hd'⟩ := holds_follow (hglobals _ List.mem_cons_self) hdd hd V'
      obtain ⟨V₂', hds'⟩ := ih hgs (fun g hg => hglobals g (List.mem_cons_of_mem _ hg)) V₁'
      exact ⟨V₂', .cons hd' hds'⟩

end Remade

namespace Remaking

variable {p : Program} {M M' : Frame} {F : NodeId → ExprFacts → Prop} {E : Table}
    {ms : List Moved} {b : Builder}
  {origin : NodeId → NodeId} {V : List ShaderLoom.Made}

/-- The values of the module hold nothing that is moved. -/
theorem stays (Φ : Remaking p M ms b origin M') : (Φ.kin F).Stays p.OfValue where
  read {i j} hi hij := by
    refine hij.resolve_right fun ⟨m, hm, heq, _⟩ => ?_
    obtain ⟨g, hg, v, hv, hc⟩ := heq ▸ hi
    have hinit : v.initializer ∈ p.children g :=
      Program.mem_children_of_slot (Arena.shape?_of_asVariable? hv)
      (by simp [Shape.slots]) (hc.ne_zero (Φ.hoisted.expr_ne_zero hm))
    exact Φ.rooted.not_inFunction
      ⟨g, hg, by simp [hv], .of_child hinit (hc.below (Φ.hoisted.expr_ne_zero hm))⟩
      (Φ.hoisted.inFunction Φ.bodies hm)
  operands := fun ⟨g, hg, v, hv, hi⟩ hx _ he => ⟨g, hg, v, hv, hi.operand hx he⟩
  initializer hd hv := ⟨_, Φ.rooted.names _ _ hd, _, hv, .refl⟩

/-- The module is resolved in the program that is made. -/
theorem static (Φ : Remaking p M ms b origin M')
    (hnames : b.build.globals.foldl (Resolve.collect b.build.toArena) ([], []) = (M', []))
    (h : Static p.toArena F p.globals M E V) :
    ∃ E' V', Static b.build.toArena (Φ.Found F) b.build.globals M' E' V' ∧
      (Φ.kin F).Tables E E' := by
  obtain ⟨_, ⟨T, h₁, h₂⟩, V₀, hV₀, h₃⟩ := h
  have hglobals := Φ.hoisted.globals_stand Φ.fit Φ.counted Φ.bodies
  obtain ⟨T', E', h₁', h₂', hE⟩ :=
    Kinship.heads_follow (Φ.allows F) Φ.stays (fun d hd => hd) hglobals
    (fun d hd v hv => ⟨d, hd, v, hv, .refl⟩) h₁ h₂
  obtain ⟨V₀', hV₀'⟩ :=
    ((Along.grows Introducing.grows h₁').trans (Along.grows Heading.grows h₂')).numbered []
    ⟨fun _ => rfl, rfl, fun _ _ h => by cases h⟩
  obtain ⟨V', h₃'⟩ := Remade.bodies_follow (Φ := ⟨Φ, hE⟩) hglobals (fun _ h => h) h₃ V₀'
  exact ⟨E', V', ⟨hnames, ⟨T', h₁', h₂'⟩, V₀', hV₀', h₃'⟩, hE⟩

end Remaking

section Build

variable {b b' : Builder} {ms : List Moved} {origin : NodeId → NodeId}

/-- The program that hoisting makes of a valid program is valid, and what is found out about its
calls was found out about calls of the source. -/
theorem Hoisted.resolves (h : Hoisted b.build ms b' origin) (hv : b.build.valid = true)
    (hfit : b.Fit) (hc : b.build.Counted) (htidy : b.build.Tidy) (hms : FromBodies b.build ms) :
    b'.build.valid = true ∧
    ∃ Φ : Remaking b.build b.build.scene.module ms b' origin b'.build.scene.module,
      ∀ {j e'}, b'.build.facts.table.Recorded j e' →
        Φ.Found (fun i e => b.build.facts.table.Recorded i e ∧ b.build.Sited i) j e' := by
  have hp := hfit.build
  have hroot := Program.rooted_build hfit (hp.treeShaped hc)
  obtain ⟨⟨E, V, hstatic⟩, -⟩ := Program.sited_build hv hfit (hp.treeShaped hc)
  obtain ⟨M', hnames, hmodules⟩ := h.scopes hp hc hms hstatic.names
  obtain rfl : b'.build.scene.module = M' := congrArg Prod.fst hnames
  let Φ : Remaking b.build b.build.scene.module ms b' origin b'.build.scene.module :=
    ⟨h, hp, hc, b.walked_build, hroot, rfl, hms, htidy, hmodules⟩
  obtain ⟨E', V', hstatic', -⟩ := Φ.static hnames hstatic
  have htree := h.fit.build.treeShaped h.counted
  obtain ⟨T, htyped, -⟩ :=
    (Program.rooted_build h.fit htree).wellTyped h.fit.build.typesPresent hstatic'
  have herrors : b'.diagnostics.hasErrors = false := by
    rw [h.diagnostics]
    simp only [Program.valid, Diagnostics.hasErrors, Bool.not_eq_true', List.any_eq_false] at hv ⊢
    exact fun d hd => hv d (List.mem_filter.1 hd).1
  obtain ⟨hvalid, htable⟩ := Program.valid_of_wellTyped herrors htree
    (fun g hg => Nat.ne_of_gt (h.fit.globals g hg).1) htyped
  refine ⟨hvalid, Φ, fun {j e'} he' => ?_⟩
  rw [htable] at he'
  exact htyped.allowed he'

end Build
end Hoist
end ShaderLoom
