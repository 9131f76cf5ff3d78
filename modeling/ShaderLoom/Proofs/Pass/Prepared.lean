import ShaderLoom.Proofs.Pass.Derived
import ShaderLoom.Proofs.Pass.Orderly
import ShaderLoom.Proofs.Pass.Reached

/-! Programs prepared for a target. The passes of a target reach their goals together: what one of
them has reached, those behind it keep. -/
namespace ShaderLoom

open Copy

/-- The name that a node declares. -/
def Shape.declared? : Shape Symbol NodeId → Option Symbol
  | .structMember s _ _ => some s
  | s => s.declName?

/-- Of the names that are declared none is one that a target cannot use. -/
def Program.Suits (p : Program) (t : RenameTarget) : Prop :=
  ∀ i x s, p.inTree i = true → p.shape? i = some x → x.declared? = some s →
    Rename.selects { target := t } (p.nameOf s) = false

/-- The way up from a node to a function leads to one that holds the node. -/
theorem Program.Walked.function_of_ascends {p : Program} (hw : p.Walked) {i j : NodeId}
    (h : p.Ascends (fun s => s.function?.isSome) i j) (h0 : j ≠ 0) (hi : p.inTree i = true) :
    p.inTree j = true ∧ (p.function? j).isSome ∧ p.Below j i := by
  induction h with
  | absent => exact absurd rfl h0
  | found _ hs =>
    obtain ⟨x, hx, hf⟩ := (Option.any_eq_true ..).1 hs
    exact ⟨hi, by simpa [Arena.function?, hx] using hf, .self⟩
  | @up i j _ _ h ih =>
    by_cases hp : p.parent i = 0
    · rw [hp] at h
      cases h with
      | absent => exact absurd rfl h0
      | found h _ => exact absurd rfl h
      | up h _ _ => exact absurd rfl h
    · obtain ⟨hchild, hin⟩ := hw.parent_holds hp
      obtain ⟨hj, hf, hbelow⟩ := ih h0 hin
      exact ⟨hj, hf, hbelow.child hchild⟩

/-- Where the module has no declarations, nothing else is in the tree. -/
theorem Program.Walked.eq_root_of_globals {p : Program} (hw : p.Walked)
    (hroot : p.shape? p.root = some (.module p.globals)) (hglobals : p.globals = []) {i : NodeId}
    (hi : p.inTree i = true) : i = p.root := by
  have hnone : p.children p.root = [] := by
    refine List.eq_nil_iff_forall_not_mem.2 fun c hc => ?_
    obtain ⟨n, hn, hslot, _⟩ := Arena.mem_children.1 hc
    have hs : n.shape = .module p.globals :=
      Option.some.inj ((Arena.shape?_of_node? hn).symm.trans hroot)
    simp [hs, hglobals, Shape.slots] at hslot
  have hbelow : ∀ {j}, p.Below p.root j → j = p.root := by
    intro j h
    induction h with
    | self => rfl
    | child _ hc ih =>
      rw [ih, hnone] at hc
      exact absurd hc List.not_mem_nil
  exact hbelow (hw.inTree_iff_below.1 hi).2

namespace Rename

open SymbolTable

section Words

/-- The words that a target keeps for itself. -/
def reserved : RenameTarget → List String
  | .glsl => Reserved.glsl
  | .hlsl => Reserved.hlsl
  | .msl => Reserved.msl
  | _ => []

/-- A target with words of its own. -/
def IsLanguage (t : RenameTarget) : Prop := t = .glsl ∨ t = .hlsl ∨ t = .msl

variable {t : RenameTarget}

theorem ascii_of_not_selected (ht : IsLanguage t) {name : String}
    (h : selects { target := t } name = false) : isAscii name = true ∧ name ∉ reserved t := by
  unfold selects at h
  split at h
  · cases h
  · next hascii =>
    refine ⟨by simpa using hascii, ?_⟩
    rcases ht with rfl | rfl | rfl <;> simp_all [reserved]

theorem hasDoubleUnderscore_of_not_mem {cs : List Char} (h : '_' ∉ cs) :
    hasDoubleUnderscore cs = false := by
  induction cs with
  | nil => rfl
  | cons c cs ih =>
    simp only [List.mem_cons, not_or] at h
    unfold hasDoubleUnderscore
    split
    · simp_all
    · simp_all
    · rfl

/-- Candidates for names without a hint differ in a number at the end. -/
theorem toList_candidate (k : Nat) :
    ∃ ds : List Char, (candidate defaultName k).toList = "tint_symbol".toList ++ ds ∧
    (∀ c ∈ ds, c.toNat < 128) ∧ (ds = [] ∨ ∃ es, ds = '_' :: es ∧ '_' ∉ es) := by
  unfold candidate
  split
  · exact ⟨[], by simp [defaultName], by simp, .inl rfl⟩
  · have hdigit : ∀ c ∈ (toString k).toList, c.isDigit = true := by
      rw [Nat.toString_eq_ofList_toDigits, String.toList_ofList]
      exact fun c hc => Nat.isDigit_of_mem_toDigits (by decide) (by decide) hc
    refine ⟨'_' :: (toString k).toList, by
      simp [defaultName, String.toList_append], fun c hc => ?_, .inr ⟨_, rfl, fun h => ?_⟩⟩
    · rcases List.mem_cons.1 hc with rfl | hc
      · decide
      · have hc := hdigit c hc
        simp only [Char.isDigit, Bool.and_eq_true, decide_eq_true_eq] at hc
        exact Nat.lt_of_le_of_lt (UInt32.le_iff_toNat_le.1 hc.2) (by decide)
    · exact absurd (hdigit _ h) (by decide)

theorem not_prefix_of_reserved :
    ∀ w ∈ Reserved.glsl ++ Reserved.hlsl ++ Reserved.msl, ¬ "tint_symbol".toList <+: w.toList := by
  decide +kernel

/-- No candidate for a fresh name is selected. -/
theorem selects_candidate (ht : IsLanguage t) (k : Nat) :
    selects { target := t } (candidate defaultName k) = false := by
  obtain ⟨ds, hds, hascii, hdigits⟩ := toList_candidate k
  have hfree : ∀ ws : List String, ws ⊆ Reserved.glsl ++ Reserved.hlsl ++ Reserved.msl →
      candidate defaultName k ∉ ws := fun ws hws h =>
    not_prefix_of_reserved _ (hws h) (hds ▸ List.prefix_append _ _)
  have hall : isAscii (candidate defaultName k) = true := by
    rw [isAscii, hds, List.all_append, Bool.and_eq_true]
    exact ⟨by decide, by simpa using hascii⟩
  have hdouble : hasDoubleUnderscore (candidate defaultName k).toList = false := by
    rw [hds]
    rcases hdigits with rfl | ⟨es, rfl, hes⟩
    · decide
    · have hrest := hasDoubleUnderscore_of_not_mem hes
      cases es with
      | nil => decide
      | cons c es =>
        have hc : c ≠ '_' := fun hc => hes (hc ▸ List.mem_cons_self)
        simp_all [hasDoubleUnderscore]
  have hprefix : ∀ cs : List Char, cs.length ≤ 11 → ¬ cs <+: "tint_symbol".toList →
      cs.isPrefixOf (candidate defaultName k).toList = false := by
    refine fun cs hcs hnot => Bool.eq_false_iff.2 fun hp => hnot ?_
    rw [List.isPrefixOf_iff_prefix, hds] at hp
    exact List.prefix_of_prefix_length_le hp (List.prefix_append _ _) hcs
  unfold selects
  rcases ht with rfl | rfl | rfl
  · simp [hall, hdouble, hprefix ['g', 'l', '_'] (by decide) (by decide),
      hfree Reserved.glsl (by simp)]
  · simp [hall, hfree Reserved.hlsl (by simp)]
  · simp [hall, hprefix ['_', '_'] (by decide) (by decide), hfree Reserved.msl (by simp)]

end Words

namespace Renames

variable {p q : Program} {config : RenameConfig} {symbols : List (Symbol × Symbol)}
    {origin : NodeId → NodeId}
  (h : Renames p config symbols origin q)
include h

/-- A node of the renamed program that is not its module comes from a node of the program. -/
theorem origin_ne_zero {j : NodeId} {y : Shape Symbol NodeId} (hj : q.inTree j = true)
    (hy : q.shape? j = some y) (hne : ∀ gs, y ≠ .module gs) : origin j ≠ 0 := by
  refine (h.echoes.traced j hj).resolve_left fun hr => ?_
  rw [hr, h.fit'.module] at hy
  exact hne _ (Option.some.inj hy).symm

/-- A node has the shape of the node that it comes from. -/
theorem shape_origin {j : NodeId} {y : Shape Symbol NodeId} (h0 : origin j ≠ 0)
    (hy : q.shape? j = some y) :
    p.inTree (origin j) = true ∧ ∃ x, p.shape? (origin j) = some x ∧
      Shape.Rel (Named p symbols (origin j)) (Program.Comes origin)
      (Program.ComeLists (fun _ => False) origin) x y := by
  obtain ⟨hin, n, m, hn, hm, hrel⟩ := h.echoes.node j h0
  obtain rfl : m.shape = y := Option.some.inj ((Arena.shape?_of_node? hm).symm.trans hy)
  exact ⟨hin, n.shape, Arena.shape?_of_node? hn, hrel⟩

/-- What is below the copy of a node comes from what is below the node. -/
theorem below_origin {k j : NodeId} (hk : origin k ≠ 0) (hkj : q.Below k j) :
    origin j ≠ 0 ∧ p.Below (origin k) (origin j) := by
  induction hkj with
  | self => exact ⟨hk, .self⟩
  | child _ hc ih =>
    have hmem : origin _ ∈ p.children (origin _) :=
      h.echoes.children_eq (fun _ h => h) ih.1 ▸ List.mem_map_of_mem hc
    exact ⟨Arena.ne_zero_of_mem_children hmem, ih.2.child hmem⟩

/-- What is in a function comes from what is in a function. -/
theorem functionOf_origin (hw : p.Walked) (hw' : q.Walked) {j : NodeId} (hj : q.inTree j = true)
    (hf : q.functionOf j ≠ 0) : p.functionOf (origin j) ≠ 0 := by
  obtain ⟨hkin, hk, hbelow⟩ := hw'.function_of_ascends (hw'.ascends_functionOf j) hf hj
  obtain ⟨f', hf'⟩ := Option.isSome_iff_exists.1 hk
  have hy := Arena.shape?_of_function? hf'
  have hk0 := h.origin_ne_zero hkin hy fun gs hgs => by cases hgs
  obtain ⟨hin, x, hx, hrel⟩ := h.shape_origin hk0 hy
  cases hrel
  exact Program.functionOf_ne_zero h.tree hw hin (by simp [Arena.function?, hx, Shape.function?])
    (h.below_origin hk0 hbelow).2

/-- The copy of what initializes a variable initializes the copy of the variable. -/
theorem initializes_origin {j : NodeId} (h0 : origin j ≠ 0) (hj : q.inTree j = true)
    {v : VariableShape Symbol NodeId} (hv : p.asVariable? (p.parent (origin j)) = some v)
    (hi : v.initializer = origin j) :
    ∃ v', q.asVariable? (q.parent j) = some v' ∧ v'.initializer = j := by
  have hx := Arena.shape?_of_asVariable? hv
  have hd0 := Arena.ne_zero_of_shape hx
  obtain ⟨d, hd, hdd⟩ :=
    (h.echoes.total (fun _ h => h) h.fit h.fit' (h.tree.parent_holds hd0).2).resolve_left
      fun hr => by
    rw [hr, h.fit.module] at hx
    cases hx
  obtain ⟨y, hy, hrel⟩ := h.shape (.inr ⟨hd0, hd, hdd⟩) hx
  cases hrel with
  | @value k _ s _ t i j' _ as _ _ hij _ =>
    obtain rfl : i = origin j := hi
    obtain rfl : j = j' := h.placed_unique.2 (.inr ⟨h0, hj, rfl⟩) hij
    have hj0 : j ≠ 0 := fun hz => h.echoes.present h0 hz
    have hchild := Program.mem_children_of_slot hy (c := j) (by simp [Shape.slots]) hj0
    refine ⟨⟨k, s, t, j, as⟩, ?_, rfl⟩
    rw [h.tree'.parent hd hchild, Arena.asVariable?, hy]
    rfl

/-- A renamed program suits its target. -/
theorem suits {t : RenameTarget} (ht : IsLanguage t) (hconfig : config = { target := t }) :
    q.Suits t := by
  subst hconfig
  intro j y s hj hy hs
  have h0 := h.origin_ne_zero hj hy fun gs hgs => by
    subst hgs
    cases hs
  obtain ⟨hin, x, hx, hrel⟩ := h.shape_origin h0 hy
  obtain ⟨r, hr, hrs, hkeep⟩ : ∃ r, r ∈ x.names ∧ Named p symbols (origin j) r s ∧
      keeps p (origin j) = false := by
    cases hrel <;> simp_all [Shape.declared?, Shape.declName?, Shape.names, keeps]
  unfold Named at hrs
  rw [hkeep, if_neg Bool.false_ne_true] at hrs
  have hmem := mem_of_lookup hrs
  cases hsel : selects { target := t } (p.nameOf r) with
  | true =>
    obtain ⟨_, hname, _, k, rfl⟩ := h.tracks.fresh _ hmem hsel
    rw [show q.nameOf s = _ from hname.nameFor]
    exact selects_candidate ht k
  | false =>
    obtain rfl : s = r := h.tracks.kept _ hmem hsel
    obtain ⟨n, hn, rfl⟩ := Option.map_eq_some_iff.1 hx
    rwa [← h.nameOf_kept hin hn hr]

/-- The bodies of functions come from bodies of functions. -/
theorem bodies {g' : NodeId} (hg' : g' ∈ q.globals) {f' : FunctionShape Symbol NodeId}
    (hf' : q.function? g' = some f') :
    ∃ g ∈ p.globals, ∃ f, p.function? g = some f ∧ Program.Comes origin f.body f'.body := by
  obtain ⟨g, hg, hgg⟩ := Document.exists_of_forall₂ h.globals g' hg'
  obtain ⟨h0, -, rfl⟩ := hgg.resolve_left fun hz => Nat.ne_of_gt (h.fit.globals g hg).1 hz.1
  obtain ⟨-, x, hx, hrel⟩ := h.shape_origin h0 (Arena.shape?_of_function? hf')
  cases hrel with
  | function _ _ _ hbody _ _ => exact ⟨_, hg, _, by rw [Arena.function?, hx]; rfl, hbody⟩

end Renames

namespace Renames

variable {b b' : Builder} {config : RenameConfig} {symbols : List (Symbol × Symbol)}
    {origin : NodeId → NodeId}
  (h : Renames b.build config symbols origin b'.build)
include h

/-- Other names move nothing: where no constructor was to be moved, none is. -/
theorem promotables_eq_nil (hv : b.build.valid = true) (hb : b.Fit) (hb' : b'.Fit)
    (herrors : b'.diagnostics.hasErrors = false) (hnone : Promote.promotables b.build = []) :
    Promote.promotables b'.build = [] := by
  obtain ⟨_, hM⟩ :=
    h.respelling.scopes (congrArg Prod.snd (Program.recorded_build hv hb h.tree).2.names)
  have hR := h.sensible hM
  obtain ⟨hv', -⟩ := Respelling.follows hR hv hb hb' herrors
  refine List.eq_nil_iff_forall_not_mem.2 fun j hj => ?_
  obtain ⟨hjin, hcall, hpromotable⟩ := (Promote.mem_promotables hb'.build).1 hj
  obtain ⟨g, args, hy⟩ := Promote.isCallNode_iff.1 hcall
  obtain ⟨hnocall, hcomposite, hfunction, hinit⟩ := Promote.promotable_iff.1 hpromotable
  have h0 := h.origin_ne_zero hjin hy fun gs hgs => by cases hgs
  -- the call that it comes from was to be moved
  suffices hmem : origin j ∈ Promote.promotables b.build by
    rw [hnone] at hmem
    exact absurd hmem List.not_mem_nil
  obtain ⟨hin, x, hx, hrel⟩ := h.shape_origin h0 hy
  have hicall : Promote.isCallNode b.build (origin j) = true := by
    cases hrel
    exact Promote.isCallNode_iff.2 ⟨_, _, hx⟩
  obtain ⟨t, htype⟩ := Promote.typed_of_isComposite hcomposite
  obtain ⟨e', he', -⟩ := Program.recorded_of_typeOf hv' hy htype
  have hsenses := Respelling.resolves hR hv hb hb' herrors (.inr ⟨h0, hjin, rfl⟩ :
    Placed b'.build origin (origin j) j)
  obtain ⟨e, he, halike⟩ : ∃ e, b.build.facts.exprs[origin j]? = some e ∧
      h.respelling.Alike { e with stmt := 0 } { e' with stmt := 0 } := by
    simp only [Facts.table, he', Option.map_some] at hsenses
    cases he : b.build.facts.exprs[origin j]? with
    | none =>
      rw [he] at hsenses
      cases hsenses
    | some e =>
      rw [he] at hsenses
      cases hsenses with
      | some halike => exact ⟨e, rfl, halike⟩
  obtain ⟨hicalls, hicomposite⟩ :=
    Promote.makes_of_alike he he' halike.type halike.target halike.builtin hnocall hcomposite
  refine (Promote.mem_promotables hb.build).2
    ⟨hin, hicall, Promote.promotable_iff.2 ⟨hicalls, hicomposite, ?_, ?_⟩⟩
  · exact h.functionOf_origin b.walked_build b'.walked_build hjin hfunction
  · intro v hvar heq
    obtain ⟨v', hvar', heq'⟩ := h.initializes_origin h0 hjin hvar heq
    exact hinit v' hvar' heq'

/-- Control reaches all of a renamed program if it reaches all of the program. -/
theorem live (hv : b.build.valid = true) (hv' : b'.build.valid = true) (htidy : b.build.Tidy)
    (hlive : b.build.Live) : b'.build.Live :=
  (h.reworked htidy).live hv hv' h.tree h.tree' (fun _ hg _ hf => h.bodies hg hf) hlive

end Renames
end Rename

/-- Control reaches all of a program with moved expressions if it reaches all of the program. -/
theorem Hoist.Hoisted.live {b b' : Builder} {ms : List Hoist.Moved} {origin : NodeId → NodeId}
    (h : Hoisted b.build ms b' origin) (hb : b.Fit) (ht : b.build.TreeShaped)
    (hv : b.build.valid = true) (hv' : b'.build.valid = true) (htidy : b.build.Tidy)
    (hlive : b.build.Live) : b'.build.Live :=
  (h.reworked hb.build htidy).live hv hv' ht (h.fit.build.treeShaped h.counted)
    (fun _ hg _ hf => h.bodies hb.build hg hf) hlive

namespace Pipeline

variable {s s' : State Topic Payload}

/-- What is left where unreachable statements are left out can be reached. -/
theorem Step.live (hs : s.Orderly) (h : Step Unreachable.pass s s') : s'.current.Live := by
  cases h with
  | skip hskip =>
    intro x f hx
    simpa using NodeMap.any_eq_false_iff.1 hskip x f hx
  | @done out hout hv =>
    obtain ⟨b, hb, hbuilt⟩ := hs.program.built
    obtain ⟨b', origin, hout', hfit, hcounted, -, -, htrims⟩ :=
      Unreachable.apply_trims hs.program.fit hs.program.known hs.valid s.data
    cases hout.symm.trans hout'
    have hvalid := hs.valid
    have ht := hs.program.treeShaped
    rw [hbuilt] at htrims hvalid ht
    obtain ⟨notes, hnotes⟩ := Resolve.recounts_build (Program.hasErrors_of_valid hvalid) ht
    obtain ⟨notes', hnotes'⟩ :=
      Resolve.recounts_build (Program.hasErrors_of_valid hv) (hfit.build.treeShaped hcounted)
    exact fun x f hx =>
      (Unreachable.recorded_agrees hb.build ht htrims (fun _ => Resolve.proper_build hvalid)
        hnotes hnotes' hx).1

/-- Promotion leaves no constructor to be moved, and what it makes can be reached. -/
theorem Step.promoted (hs : s.Orderly) (hlive : s.current.Live) (h : Step Promote.pass s s') :
    s'.current.Live ∧ Promote.promotables s'.current = [] := by
  cases h with
  | skip hskip => exact ⟨hlive, by simpa [Promote.pass] using hskip⟩
  | @done out hout hv =>
    obtain ⟨b, hb, hbuilt⟩ := hs.program.built
    have hvalid := hs.valid
    have ht := hs.program.treeShaped
    have hknown := hs.program.known
    have hcounted := hs.program.counted
    have htidy := hs.program.tidy
    rw [hbuilt] at hout hvalid ht hknown hcounted htidy hlive
    have hruns := Promote.runs_work_moving hvalid hb hknown hcounted
    obtain ⟨b', ⟨ms, origin, hms, hhoisted⟩, hprogram⟩ := Pass.apply_built
      (P := fun _ t => ∃ (ms : List Hoist.Moved) (origin : NodeId → NodeId),
        ms.map (fun m => (m.expr, m.kind)) = (Promote.promotables b.build).map
        (fun i => (i, .letValue)) ∧ Hoist.Hoisted b.build ms t origin)
      rfl (hruns.mono fun _ w hdone => ⟨_, w.2, hdone.2.2.choose_spec⟩) hvalid hout hv
    have hexprs : ms.map (·.expr) = Promote.promotables b.build := by
      simpa [Function.comp_def] using congrArg (List.map Prod.fst) hms
    have hv' : b'.build.valid = true := hprogram ▸ hv
    change out.program.Live ∧ Promote.promotables out.program = []
    rw [hprogram]
    exact ⟨hhoisted.live hb ht hvalid hv' htidy hlive,
      Promote.promotables_made hhoisted hexprs hvalid hb hcounted htidy⟩

/-- Renaming for a target leaves no name that the target cannot use. It keeps what promotion has
reached. -/
theorem Step.suited {t : RenameTarget} (ht : Rename.IsLanguage t) (hs : s.Orderly)
    (hconfig : s.data.Says .renaming { target := t }) (hlive : s.current.Live)
    (hnone : Promote.promotables s.current = []) (h : Step Rename.pass s s') :
    s'.current.Live ∧ Promote.promotables s'.current = [] ∧ s'.current.Suits t := by
  cases h with
  | skip hskip =>
    refine ⟨hlive, hnone, fun i x n hi hx hn => ?_⟩
    have hglobals : s.current.globals = [] := by simpa [Rename.pass] using hskip
    have hroot := hs.program.fit.module
    obtain ⟨b, -, hbuilt⟩ := hs.program.built
    have hw : s.current.Walked := hbuilt ▸ b.walked_build
    rw [hw.eq_root_of_globals hroot hglobals hi, hroot] at hx
    cases hx
    cases hn
  | @done out hout hv =>
    obtain ⟨b, hb, hbuilt⟩ := hs.program.built
    have hvalid := hs.valid
    have hknown := hs.program.known
    have hcounted := hs.program.counted
    have htidy := hs.program.tidy
    rw [hbuilt] at hout hvalid hknown hcounted htidy hlive hnone
    have hget : (s.data.get? .renaming).getD {} = { target := t } := by
      rw [hconfig.get?, Option.getD_some]
    obtain ⟨b', symbols, origin, hout', hb', herrors, hrenames⟩ :=
      Rename.apply_respells hb hknown hcounted hvalid hget
    cases hout.symm.trans hout'
    exact ⟨hrenames.live hvalid hv htidy hlive,
      hrenames.promotables_eq_nil hvalid hb hb' herrors hnone, hrenames.suits ht rfl⟩

end Pipeline

/-- The language of a backend whose program is written as text, with words of its own. -/
def Backend.language? : Backend → Option RenameTarget
  | .glsl => some .glsl
  | .hlsl => some .hlsl
  | .msl => some .msl
  | _ => none

theorem Backend.isLanguage {backend : Backend} {t : RenameTarget} (h : backend.language? = some t) :
    Rename.IsLanguage t := by
  cases backend <;> cases h <;> simp [Rename.IsLanguage]

/-- What the passes of a backend reach together. -/
structure Prepared (backend : Backend) (p : Program) : Prop where
  valid : p.valid = true
  native : p.Native
  live : p.Live
  constructors : ∀ t, backend.language? = some t →
    ∀ i, p.inTree i = true → Promote.isCallNode p i = true → Promote.promotable p i = false
  names : ∀ t, backend.language? = some t →
    ∀ i x s, p.inTree i = true → p.shape? i = some x → x.declared? = some s →
      Rename.selects { target := t } (p.nameOf s) = false ∧
      Rename.isAscii (p.nameOf s) = true ∧ p.nameOf s ∉ Rename.reserved t

namespace Plan

variable {semver : Semver} {p : Program} {o : Options} {backend : Backend} {plan : Plan}

/-- The passes of every backend turn external textures into planes, and then leave out what cannot
be reached. For a language they end with promotion and with renaming for it. -/
theorem of_ends (h : Plan.of semver p o backend = .ok plan) :
    (∃ ts, Planes.pass ∈ ts ∧ plan.passes = ts ++ Unreachable.pass ::
      if backend.language?.isSome then [Promote.pass, Rename.pass] else []) ∧
    ∀ t, backend.language? = some t → plan.data.Says .renaming { target := t } := by
  cases backend with
  | glsl =>
    obtain ⟨_, _, h⟩ := bind_eq_ok.1 h
    obtain ⟨_, _, h⟩ := bind_eq_ok.1 h
    dsimp only at h
    split at h
    · cases h
    obtain ⟨d, _, h⟩ := bind_eq_ok.1 h
    cases h
    refine ⟨⟨[Rebind.pass, Planes.pass, EntryPoint.pass], by simp, rfl⟩, fun t ht => ?_⟩
    cases ht
    exact Exchange.says_put ..
  | hlsl =>
    obtain ⟨d, _, h⟩ := bind_eq_ok.1 h
    cases h
    refine ⟨⟨[Planes.pass, Rebind.pass] ++
      (if o.hlsl.firstIndexOffset.isSome then [FirstIndex.pass] else []) ++ [Workgroups.pass],
      by simp, by simp [Backend.language?]⟩, fun t ht => ?_⟩
    cases ht
    exact Exchange.says_put ..
  | msl =>
    obtain ⟨_, _, h⟩ := bind_eq_ok.1 h
    obtain ⟨d, _, h⟩ := bind_eq_ok.1 h
    cases h
    refine ⟨⟨[Planes.pass, Rebind.pass], by simp, rfl⟩, fun t ht => ?_⟩
    cases ht
    exact Exchange.says_put ..
  | spirv =>
    obtain ⟨d, _, h⟩ := bind_eq_ok.1 h
    cases h
    exact ⟨⟨[Planes.pass, Rebind.pass], by simp, rfl⟩, fun t ht => by cases ht⟩
  | other n => cases h

end Plan

/-- Once all passes of a plan have passed, the program is prepared. -/
theorem Pipeline.Passed.prepared {semver : Semver} {p : Program} {o : Options} {backend : Backend}
    {plan : Plan} {s s' : State Topic Payload} {ds : List Data}
    (hplan : Plan.of semver p o backend = .ok plan) (hs : s.Orderly)
    (hdata : ∀ t, backend.language? = some t → s.data.Says .renaming { target := t })
    (h : Passed (plan.passes.map Pass.toTransform) s s' ds) : Prepared backend s'.current := by
  obtain ⟨hts, -⟩ := Plan.of_sound hplan
  obtain ⟨⟨ts, hplanes, hpasses⟩, -⟩ := Plan.of_ends hplan
  obtain ⟨hs', -, hnative⟩ := h.orderly hts hs
  rw [hpasses] at h hts hnative
  rw [List.map_append] at h
  have hnative' := hnative (List.mem_append_left _ hplanes)
  obtain ⟨s₁, _, _, h₁, h⟩ := h.append_inv
  obtain ⟨hs₁, hkeeps₁, -⟩ := h₁.orderly (fun t ht => hts t (List.mem_append_left _ ht)) hs
  obtain ⟨s₂, _, hunreachable, h⟩ := h.cons_inv
  obtain ⟨hs₂, hkeeps₂⟩ := hunreachable.orderly (hts _ (by simp)) hs₁
  have hlive₂ := hunreachable.live hs₁
  cases hlanguage : backend.language? with
  | none =>
    rw [hlanguage] at h
    cases h
    exact ⟨hs'.valid, hnative', hlive₂, by simp [hlanguage], by simp [hlanguage]⟩
  | some t =>
    rw [hlanguage] at h hts
    obtain ⟨s₃, _, hpromote, h⟩ := h.cons_inv
    obtain ⟨hs₃, hkeeps₃⟩ := hpromote.orderly (hts _ (by simp)) hs₂
    obtain ⟨hlive₃, hnone₃⟩ := hpromote.promoted hs₂ hlive₂
    obtain ⟨s₄, _, hrename, h⟩ := h.cons_inv
    cases h
    have ht := Backend.isLanguage hlanguage
    have hconfig := hkeeps₃.config _ (hkeeps₂.config _ (hkeeps₁.config _ (hdata t hlanguage)))
    obtain ⟨hlive, hnone, hsuits⟩ := hrename.suited ht hs₃ hconfig hlive₃ hnone₃
    refine ⟨hs'.valid, hnative', hlive, fun _ _ i hi hcall => ?_, fun u hu i x n hi hx hn => ?_⟩
    · refine Bool.eq_false_iff.2 fun hpromotable => ?_
      have hmem := (Promote.mem_promotables hs'.program.fit).2 ⟨hi, hcall, hpromotable⟩
      rw [hnone] at hmem
      exact absurd hmem List.not_mem_nil
    · cases hlanguage.symm.trans hu
      have hselects := hsuits i x n hi hx hn
      exact ⟨hselects, Rename.ascii_of_not_selected ht hselects⟩

/-- A run for a backend that reports no error reaches the goals of all passes together: its program
is valid, it has no external texture, control reaches all its statements, and for a language no
constructor is left to be moved and no name is left that the language cannot use. -/
theorem sanitize_prepares {semver : Semver} {m : Document.Module} {p : Program}
    (h : m.decode = .ok p) (hv : p.valid = true) (htidy : p.Tidy) {o : Options} {backend : Backend}
    {run : SanitizeRun} (hrun : sanitize semver p o backend = .ok run) (herror : run.error = none) :
    ∃ r, run.result = some r ∧ Prepared backend r.program := by
  unfold sanitize at hrun
  rw [hv, Bool.not_true, if_neg Bool.false_ne_true] at hrun
  cases hplan : Plan.of semver p o backend with
  | error problem =>
    rw [hplan] at hrun
    cases hrun
    cases herror
  | ok plan =>
    rw [hplan] at hrun
    simp only [Pipeline.run_of_valid hv] at hrun
    obtain ⟨out, hout, hrun⟩ := bind_eq_ok.1 hrun
    cases hrun
    refine ⟨_, rfl, ?_⟩
    have hvalid : out.program.valid = true := by
      by_contra hnot
      simp [hnot] at herror
    obtain ⟨s', ds, hpassed, rfl⟩ :=
      Pipeline.passed_of_runFrom (s := Pipeline.start p plan.data) hv hout hvalid
    exact hpassed.prepared hplan ⟨.decode h htidy, hv⟩ fun t ht =>
      ((Plan.of_ends hplan).2 t ht).merge_empty

/-- The module `struct S { half: i32 }; fn float(k: i32) { if (S(k).half == k) { return; } return;
discard; }`. -/
def unprepared : Document.Module where
  globals := [
    some { kind := "Struct", name := "S", members := [
      some { kind := "StructMember", name := "half", type := some { kind := "I32" } }] },
    some { kind := "Function", name := "float"
           params := [some { kind := "Parameter", name := "k", type := some { kind := "I32" } }]
           body := some { kind := "Block", statements := [
             some { kind := "If"
                    condition := some { kind := "Binary", op := "==", lhs := some made
                                        rhs := some argument }
                    body := some { kind := "Block", statements := [some { kind := "Return" }] } },
             some { kind := "Return" },
             some { kind := "Discard" }] } }]
where
  argument : Document.Record := { kind := "Ident", name := "k" }
  made : Document.Record :=
    { kind := "Member", name := "half"
      object := some { kind := "Call", target := some { kind := "Ident", name := "S" }
                       args := [some argument] } }

theorem sanitize_prepares_unprepared :
    ∃ p run r, unprepared.decode = .ok p ∧ (p.valid = true ∧ p.Tidy) ∧
    (Promote.promotables p).length = 1 ∧ (Unreachable.dropped p).length = 1 ∧
    sanitize .standard p {} .hlsl = .ok run ∧
    run.error = none ∧ run.result = some r ∧ Prepared .hlsl r.program := by
  have hok : (unprepared.decode.toOption.any fun p => p.valid &&
    (p.treeIds.all fun i => (p.shape? i).all p.documents) &&
      (Promote.promotables p).length == 1 && (Unreachable.dropped p).length == 1 &&
      (sanitize .standard p {} .hlsl).toOption.any fun run => run.error.isNone) = true := by
    decide +kernel
  cases hp : unprepared.decode with
  | error e => simp [hp, Except.toOption] at hok
  | ok p =>
    simp only [hp, Except.toOption, Option.any_some, Bool.and_eq_true, beq_iff_eq] at hok
    obtain ⟨⟨⟨⟨hv, hdocuments⟩, hpromotables⟩, hdropped⟩, hok⟩ := hok
    have htidy : p.Tidy := by
      obtain ⟨b, hgood, -, -, -, rfl⟩ := Document.decode_good hp
      exact Program.tidy_of_documents hgood.toFit.build hdocuments
    cases hrun : sanitize .standard p {} .hlsl with
    | error e => simp [hrun] at hok
    | ok run =>
      have herror : run.error = none := by simpa [hrun] using hok
      obtain ⟨r, hr, hprepared⟩ := sanitize_prepares hp hv htidy hrun herror
      exact ⟨p, run, r, rfl, ⟨hv, htidy⟩, hpromotables, hdropped, hrun, herror, hr, hprepared⟩

end ShaderLoom
