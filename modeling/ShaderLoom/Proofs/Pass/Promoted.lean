import ShaderLoom.Proofs.Pass.Idle
import ShaderLoom.Proofs.Pass.Placement
import ShaderLoom.Proofs.Pass.Resolved

/-! Promotion reaches its goal. Every constructor that stands in a body and initializes nothing is
moved, and none is in the program that is made: what resolution finds out about a call there it
found out about a call of the source, which was moved, initializes a variable, or is no part of a
function. -/
namespace ShaderLoom

namespace Program

variable {p : Program} {M : Frame} {i : NodeId}

/-- What is no function is in the function that its holder is in. -/
theorem functionOf_child (ht : p.TreeShaped) (hw : p.Walked) {c : NodeId} (hi : p.inTree i = true)
    (hc : c ∈ p.children i) (hf : p.function? c = none) : p.functionOf c = p.functionOf i := by
  rw [hw.functionOf_eq (Arena.ne_zero_of_mem_children hc), hf, ht.parent hi hc]
  rfl

/-- What is below a function is in a function. -/
theorem functionOf_ne_zero (ht : p.TreeShaped) (hw : p.Walked) {g : NodeId} (hg : p.inTree g = true)
    (hf : (p.function? g).isSome) (h : p.Below g i) : p.functionOf i ≠ 0 := by
  induction h with
  | self =>
    have h0 : g ≠ 0 := by
      rintro rfl
      simp [Arena.function?, Arena.shape?] at hf
    rwa [hw.functionOf_eq h0, if_pos hf]
  | @child j c hj hc ih =>
    rw [hw.functionOf_eq (Arena.ne_zero_of_mem_children hc), ht.parent (ht.inTree_below hg hj) hc]
    split
    · exact Arena.ne_zero_of_mem_children hc
    · exact ih

/-- An expression is in the function that whatever comprises it is in. -/
theorem functionOf_comprised (ht : p.TreeShaped) (hw : p.Walked) {e : NodeId}
    (he : p.inTree e = true) (h : p.Comprises e i) {x : ExprShape Symbol NodeId}
    (hx : p.shape? i = some (.expr x)) : p.inTree i = true ∧ p.functionOf i = p.functionOf e := by
  induction h generalizing x with
  | refl => exact ⟨he, rfl⟩
  | tail _ hstep ih =>
    obtain ⟨y, hy, hi⟩ := hstep
    obtain ⟨hj, hfunction⟩ := ih hy
    have hchild := mem_children_of_slot hy (y.operands_slots.subset hi) (Arena.ne_zero_of_shape hx)
    exact ⟨ht.inTree_child hj hchild,
      (functionOf_child ht hw hj hchild (by simp [Arena.function?, hx, Shape.function?])).trans
      hfunction⟩

/-- The expressions of the module's values are in no function. -/
theorem OfValue.functionOf (hp : p.Fit) (hroot : p.Rooted M) (hw : p.Walked) (h : p.OfValue i)
    {x : ExprShape Symbol NodeId} (hx : p.shape? i = some (.expr x)) : p.functionOf i = 0 := by
  obtain ⟨g, hg, v, hv, hi⟩ := h
  have ht := hroot.tree
  have hgs := Arena.shape?_of_asVariable? hv
  have hgin : p.inTree g = true := ht.inTree_child p.inTree_root (hroot.globals g hg)
  have hnone : p.function? g = none := by simp [Arena.function?, hgs, Shape.function?]
  have hglobal : p.functionOf g = 0 := by
    rw [functionOf_child ht hw p.inTree_root (hroot.globals g hg) hnone]
    exact hw.functionOf_root (by simp [Arena.function?, hp.module, Shape.function?])
  have hinit0 : v.initializer ≠ 0 := hi.ne_zero (Arena.ne_zero_of_shape hx)
  have hchild := mem_children_of_slot hgs (c := v.initializer) (by simp [Shape.slots]) hinit0
  have hinit : p.function? v.initializer = none := by
    rcases Relation.ReflTransGen.cases_head hi with heq | ⟨_, ⟨y, hy, _⟩, _⟩
    · simp [Arena.function?, heq, hx, Shape.function?]
    · simp [Arena.function?, hy, Shape.function?]
  rw [(functionOf_comprised ht hw (ht.inTree_child hgin hchild) hi hx).2,
    functionOf_child ht hw hgin hchild hinit, hglobal]

/-- What functions hold is in functions. -/
theorem Held.functionOf (hroot : p.Rooted M) (hw : p.Walked) {r : NodeId} (h : p.Held r)
    (hi : p.Comprises r i) (h0 : i ≠ 0) : p.functionOf i ≠ 0 := by
  obtain ⟨g, hg, hf, hb⟩ := h.inFunction (hi.ne_zero h0)
  have hgin : p.inTree g = true := hroot.tree.inTree_child p.inTree_root (hroot.globals g hg)
  exact functionOf_ne_zero hroot.tree hw hgin hf (hb.trans (hi.below h0))

end Program

namespace Hoist

/-- Where statements are of the kinds that belong where they stand, there is a place for the
declaration of what a statement holds that is no block. -/
theorem exists_place {p : Program} (ht : p.TreeShaped) (htidy : p.Tidy)
    (hroot : p.shape? p.root = some (.module p.globals))
    (hfields : ∀ i sh, p.inTree i = true → p.shape? i = some sh → p.fields sh = true) {e : NodeId}
    (hs : p.inTree (p.statementOf e) = true) {x : StmtShape NodeId}
    (hx : p.shape? (p.statementOf e) = some (.stmt x)) (hblock : ¬ p.isBlock (p.statementOf e)) :
    ∃ y, place p e = some y := by
  by_cases hloop : isLoopHeader p (p.statementOf e) = true
  · exact ⟨_, place_condition hloop⟩
  by_cases helse : isElseOf p (p.statementOf e) = true
  · exact ⟨_, place_otherwise helse⟩
  cases placeable_of_tidy ht htidy hroot hfields hs hx hblock with
  | elseIf h => exact absurd h helse
  | element hparent => exact ⟨_, by simp [place, placeBefore, hloop, helse, hx, hparent]; rfl⟩
  | continuing hparent hne =>
    exact ⟨_, by simp [place, placeBefore, hloop, helse, hx, hparent, hne]; rfl⟩
  | initializer hparent houter =>
    have hheader := isLoopHeader_of_forLoop hparent
    have hsize : p.size ≠ 0 :=
      Nat.ne_of_gt (Nat.lt_of_lt_of_le (range_of_shape? hx).1 (range_of_shape? hx).2)
    obtain ⟨n, hn⟩ := Nat.exists_eq_succ_of_ne_zero hsize
    cases houter with
    | elseIf h =>
      rw [isElseOf_forLoop hparent] at h
      cases h
    | element h =>
      exact ⟨_, by simp [place, placeBefore, hloop, helse, hx, hparent, hn, h,
        isElseOf_forLoop hparent]; rfl⟩
    | initializer h => exact absurd h (parent_ne_forLoop ht htidy hheader (.inl rfl))
    | continuing h => exact absurd h (parent_ne_forLoop ht htidy hheader (.inr rfl))

end Hoist

namespace Promote

open Copy Hoist

/-- Parameters have no initializers. -/
def PlainParameters (p : Program) : Prop :=
  ∀ d v, p.IsParameter d → p.asVariable? d = some v → v.initializer = 0

section Source

variable {b : Builder} {i : NodeId}

theorem mem_promotables {p : Program} (hp : p.Fit) :
    i ∈ promotables p ↔ p.inTree i = true ∧ isCallNode p i = true ∧ promotable p i = true := by
  rw [promotables, List.mem_filter, hp.mem_treeIds, Bool.and_eq_true]

theorem isCallNode_iff {p : Program} :
    isCallNode p i = true ↔ ∃ g args, p.shape? i = some (.expr (.call g args)) := by
  unfold isCallNode
  split
  · next g args h => simp [h]
  · next h => simpa using fun g args hs => h g args hs

theorem promotable_iff {p : Program} :
    promotable p i = true ↔ p.facts.call? i = none ∧ isComposite (p.facts.typeOf i) = true ∧
    p.functionOf i ≠ 0 ∧ ∀ v, p.asVariable? (p.parent i) = some v → v.initializer ≠ i := by
  unfold promotable
  cases p.asVariable? (p.parent i) <;> simp [and_assoc]

theorem typed_of_isComposite {t : Option Ty} (h : isComposite t = true) : ∃ u, t = some u := by
  cases t with
  | none => cases h
  | some u => exact ⟨u, rfl⟩

/-- A constructor that is to be moved is read in a function, and nothing in it is a statement. -/
theorem read_of_promotable (hv : b.build.valid = true) (hb : b.Fit) (ht : b.build.TreeShaped)
    (hi : i ∈ promotables b.build) :
    (∃ e, b.build.facts.table.Recorded i e) ∧ b.build.Quiet i ∧
    ∃ r, b.build.Held r ∧ b.build.Comprises r i := by
  obtain ⟨-, hcall, hpromotable⟩ := (mem_promotables hb.build).1 hi
  obtain ⟨g, args, hs⟩ := isCallNode_iff.1 hcall
  obtain ⟨-, hcomposite, hfunction, -⟩ := promotable_iff.1 hpromotable
  obtain ⟨t, htype⟩ := typed_of_isComposite hcomposite
  obtain ⟨e, he, -⟩ := Program.recorded_of_typeOf hv hs htype
  have hrecorded : b.build.facts.table.Recorded i { e with stmt := 0 } := by
    simp [Table.Recorded, Facts.table, he]
  refine ⟨⟨_, hrecorded⟩, ((Program.sited_build hv hb ht).2 i _ hrecorded).resolve_left
    fun hvalue => hfunction ?_⟩
  exact hvalue.functionOf hb.build (Program.rooted_build hb ht) b.walked_build hs

/-- The constructors are to be moved as `let` values. -/
abbrev request (i : NodeId) : Request := ⟨i, true, ""⟩

theorem sensible (hv : b.build.valid = true) (hb : b.Fit) (ht : b.build.TreeShaped) :
    Sensible b.build ((promotables b.build).map request) where
  expr r hr := by
    obtain ⟨i, hi, rfl⟩ := List.mem_map.1 hr
    obtain ⟨hin, hcall, -⟩ := (mem_promotables hb.build).1 hi
    obtain ⟨-, hquiet, -⟩ := read_of_promotable hv hb ht hi
    refine ⟨hin, fun hroot => ?_, hquiet⟩
    obtain ⟨g, args, hs⟩ := isCallNode_iff.1 hcall
    rw [show i = b.build.root from hroot, hb.build.module] at hs
    cases hs
  order := by
    rw [List.pairwise_map]
    exact (pairwise_promotables _).imp fun hlt hbelow =>
      Nat.not_lt.2 (hb.build.le_of_below hbelow) hlt

/-- Where parameters have no initializers, there is a place for every declaration. -/
theorem placed (hv : b.build.valid = true) (hb : b.Fit) (ht : b.build.TreeShaped)
    (hkinds : b.build.kinded = true) (htidy : b.build.Tidy) (hparams : PlainParameters b.build)
    (hi : i ∈ promotables b.build) : ∃ x, place b.build i = some x := by
  obtain ⟨hin, hcall, -⟩ := (mem_promotables hb.build).1 hi
  obtain ⟨g, args, hs⟩ := isCallNode_iff.1 hcall
  have h0 := Arena.ne_zero_of_shape hs
  obtain ⟨-, -, r, hr, hcomp⟩ := read_of_promotable hv hb ht hi
  have hroot := Program.rooted_build hb ht
  cases hr with
  | @parameter g f d v hg hf hd hv =>
    exact absurd (hparams d v ⟨g, f, ⟨hg, by simp [hf]⟩, hf, hd⟩ hv) (hcomp.ne_zero h0)
  | statement hg hf hnested hr =>
    obtain ⟨hsin, rfl⟩ := hroot.statementOf_held b.walked_build hg hf hnested hr hcomp h0
    have hs0 : b.build.statementOf i ≠ 0 := fun hz => by
      rw [hz] at hr
      cases hr with
      | simple hx | initializer hx | ifElse hx | forLoop hx | whileLoop hx => cases hx
    obtain ⟨x, hx⟩ := Program.shape?_statementOf hs0
    exact exists_place ht htidy hb.build.module
      (fun _ _ hi hs => Program.fields_of_kinded hkinds hb.build hi hs) hsin hx
      hr.not_isBlock

/-- Every constructor that is to be moved is moved, unless there is no place for a declaration. -/
theorem runs_work_moving (hv : b.build.valid = true) (hb : b.Fit) (hk : b.build.Known)
    (hc : b.build.Counted) :
    Runs (work b.build) ((Session.start b.build {}, fun _ => 0) : World Rule Hoist)
      (fun _ => ∃ i ∈ promotables b.build, place b.build i = none) fun out w =>
      out = {} ∧ w.1.copied = true ∧ ∃ ms : List Moved,
        ms.map (fun m => (m.expr, m.kind)) = (promotables b.build).map (fun i => (i, .letValue)) ∧
        Hoisted b.build ms w.1.target w.2 := by
  have hwork : work b.build = (do
      moving request (promotables b.build)
      return {}) := by
    simp [work, moving]
  rw [hwork]
  exact Runs.bind
    ((runs_moving hb.build hk hc request _ (sensible hv hb (hb.build.treeShaped hc))).mono
    fun _ w ⟨hcopied, ms, hms, hw⟩ => Runs.pure w.2 ⟨rfl, hcopied, ms, hms, hw⟩)

/-- Where statements and fields are of the documented kinds and parameters have no initializers,
there is a place for all of them. -/
theorem runs_promotion (hv : b.build.valid = true) (hb : b.Fit) (hk : b.build.Known)
    (hc : b.build.Counted) (hkinds : b.build.kinded = true) (htidy : b.build.Tidy)
    (hparams : PlainParameters b.build) :
    Runs (work b.build) ((Session.start b.build {}, fun _ => 0) : World Rule Hoist)
    (fun _ => False) fun out w =>
      out = {} ∧ w.1.copied = true ∧ ∃ ms : List Moved,
        ms.map (fun m => (m.expr, m.kind)) = (promotables b.build).map (fun i => (i, .letValue)) ∧
        Hoisted b.build ms w.1.target w.2 := by
  refine relax (fun _ hnone => ?_) (runs_work_moving hv hb hk hc)
  obtain ⟨i, hi, hnone⟩ := hnone
  obtain ⟨x, hx⟩ := placed hv hb (hb.build.treeShaped hc) hkinds htidy hparams hi
  cases hnone.symm.trans hx

end Source
section Goal

theorem isComposite_kin {R : NodeId → NodeId → Prop} {t u : Option Ty} (h : Kin R t u) :
    isComposite u = isComposite t := by
  cases h with
  | none => rfl
  | some h => cases h <;> rfl

variable {b b' : Builder} {ms : List Moved} {origin : NodeId → NodeId} {i j : NodeId}

/-- What resolution found out alike makes an array or a structure in one program if it does so in
the other. -/
theorem makes_of_alike {p q : Program} {R S : NodeId → NodeId → Prop} {e e' : ExprFacts}
    (he : p.facts.exprs[i]? = some e) (he' : q.facts.exprs[j]? = some e')
    (htype : Kin R e.type e'.type) (htarget : Option.Rel S e.target e'.target)
    (hbuiltin : e.builtin = e'.builtin) (hnone : q.facts.call? j = none)
    (hcomposite : isComposite (q.facts.typeOf j) = true) :
    p.facts.call? i = none ∧ isComposite (p.facts.typeOf i) = true := by
  have hisCall : e.isCall = e'.isCall := by
    rw [ExprFacts.isCall, ExprFacts.isCall, isSome_eq_of_rel htarget, hbuiltin]
  have htypes : p.facts.typeOf i = e.type := by simp [Facts.typeOf, he]
  have htypes' : q.facts.typeOf j = e'.type := by simp [Facts.typeOf, he']
  refine ⟨by simpa [Facts.call?, he, he', hisCall] using hnone, ?_⟩
  rwa [htypes, ← isComposite_kin htype, ← htypes']

theorem fromBodies (hv : b.build.valid = true) (hb : b.Fit) (ht : b.build.TreeShaped)
    (hms : ms.map (·.expr) = promotables b.build) : FromBodies b.build ms := by
  intro m hm
  have hi : m.expr ∈ promotables b.build := hms ▸ List.mem_map_of_mem hm
  obtain ⟨-, hcall, -⟩ := (mem_promotables hb.build).1 hi
  obtain ⟨g, args, hs⟩ := isCallNode_iff.1 hcall
  exact ⟨⟨_, hs⟩, (read_of_promotable hv hb ht hi).2.2⟩

/-- The only holder of a node of the tree is its parent. -/
theorem parent_eq {p : Program} (hp : p.Fit) (hc : p.Counted) (hi : p.inTree i = true)
    (hr : i ≠ p.root) {k : NodeId} (hk : i ∈ p.children k) : p.parent i = k :=
  hc.holder ((hp.treeShaped hc).parent_holds ((Program.inTree_iff.1 hi).resolve_left hr)).1 hk

/-- What a variable holds and is read is its initializer. -/
theorem eq_initializer {p : Program} (hc : p.Counted) (hi : p.Sited i) {d : NodeId}
    {v : VariableShape Symbol NodeId} (hv : p.asVariable? d = some v) (hd : i ∈ p.children d) :
    v.initializer = i := by
  obtain ⟨x, hx, hvalued⟩ := hi.holder hc hd
  cases (Arena.shape?_of_asVariable? hv).symm.trans hx
  simpa [Shape.valued, Shape.isStatement, eq_comm] using hvalued

/-- No constructor is left to be moved. -/
theorem promotables_made (h : Hoisted b.build ms b' origin)
    (hms : ms.map (·.expr) = promotables b.build) (hv : b.build.valid = true) (hb : b.Fit)
    (hc : b.build.Counted) (htidy : b.build.Tidy) : promotables b'.build = [] := by
  have ht := hb.build.treeShaped hc
  have ht' := h.fit.build.treeShaped h.counted
  obtain ⟨hv', Φ, hfound⟩ := h.resolves hv hb hc htidy (fromBodies hv hb ht hms)
  refine List.eq_nil_iff_forall_not_mem.2 fun j hj => ?_
  obtain ⟨hjin, hcall, hpromotable⟩ := (mem_promotables h.fit.build).1 hj
  obtain ⟨g, args, hj⟩ := isCallNode_iff.1 hcall
  obtain ⟨hnone, hcomposite, hfunction, hinit⟩ := promotable_iff.1 hpromotable
  obtain ⟨t, htype⟩ := typed_of_isComposite hcomposite
  obtain ⟨e', he', -⟩ := Program.recorded_of_typeOf hv' hj htype
  have hrecorded : b'.build.facts.table.Recorded j { e' with stmt := 0 } := by
    simp [Table.Recorded, Facts.table, he']
  have hjsited := (Program.sited_build hv' h.fit ht').2 j _ hrecorded
  obtain ⟨i, e, hij, ⟨he, hisited⟩, hsenses⟩ := hfound hrecorded g args hj
  obtain ⟨hkept, hself⟩ := hij.resolve_left fun hz => Arena.ne_zero_of_shape hj hz.2
  have hiin := h.inTree_origin hkept.origin hkept.present
  have hjroot : j ≠ b'.build.root := by
    rintro rfl
    cases h.fit.build.module.symm.trans hj
  rcases hself with hnot | ⟨m, hm, -, rfl⟩
  · -- the call stands where it stood, and so does what it initializes
    obtain ⟨x, hx⟩ : ∃ x, b.build.shape? i = some x := by
      obtain ⟨n, hn⟩ := Option.isSome_iff_exists.1 (hb.build.node_of_inTree hiin)
      exact ⟨n.shape, by simp [Arena.shape?, hn]⟩
    have hicall : isCallNode b.build i = true := by
      cases hs : x.isStatement with
      | true =>
        obtain ⟨y, hy, hs'⟩ := h.isStatement_of_origin hkept.present hkept.origin hx hs
        cases hj.symm.trans hy
        cases hs'
      | false =>
        obtain ⟨y, hy, hrel⟩ := h.rel ht hkept.present hkept.origin (.inl hnot) hx hs
        cases hj.symm.trans hy
        cases hrel
        exact isCallNode_iff.2 ⟨_, _, hx⟩
    have hleft : promotable b.build i = false := by
      refine Bool.eq_false_iff.2 fun hp => ?_
      have hmem : i ∈ promotables b.build := (mem_promotables hb.build).2 ⟨hiin, hicall, hp⟩
      obtain ⟨m, hm, rfl⟩ := List.mem_map.1 (hms ▸ hmem)
      exact hnot m hm rfl
    obtain ⟨e₀, he₀, rfl⟩ := Option.map_eq_some_iff.1 he
    obtain ⟨hinone, hicomposite⟩ :=
      makes_of_alike he₀ he' hsenses.type hsenses.target hsenses.builtin hnone hcomposite
    by_cases hf : b.build.functionOf i = 0
    · have hvalue : b.build.OfValue i := by
        refine hisited.resolve_right fun hheld => ?_
        obtain ⟨-, r, hr, hcomp⟩ := hheld
        exact hr.functionOf (Program.rooted_build hb ht) b.walked_build hcomp hkept.present hf
      rcases hjsited with hvalue' | ⟨-, r, hr, hcomp⟩
      · exact hfunction
          (hvalue'.functionOf h.fit.build (Program.rooted_build h.fit ht') b'.walked_build hj)
      · have hj0 := Arena.ne_zero_of_shape hj
        obtain ⟨g, hg, hgf, hbelow⟩ := hr.inFunction (hcomp.ne_zero hj0)
        exact (Program.rooted_build h.fit ht').not_inFunction (hkept.value hvalue)
          ⟨g, hg, hgf, hbelow.trans (hcomp.below hj0)⟩
    · obtain ⟨v, hvar, hvi⟩ : ∃ v, b.build.asVariable? (b.build.parent i) = some v ∧
          v.initializer = i := by
        by_contra hno
        rw [promotable_iff.2 ⟨hinone, hicomposite, hf, fun v hvar heq => hno ⟨v, hvar, heq⟩⟩]
          at hleft
        cases hleft
      have hparent :=
        (ht.parent_holds (Arena.ne_zero_of_shape (Arena.shape?_of_asVariable? hvar))).1
      obtain ⟨d, hd, hjd⟩ := hkept.holder _ (by simp [hvar]) hparent
      obtain ⟨v', hvar'⟩ := Option.isSome_iff_exists.1 hd
      exact hinit v' (parent_eq h.fit.build h.counted hjin hjroot hjd ▸ hvar')
        (eq_initializer h.counted hjsited hvar' hjd)
  · -- the copy of a constructor that was moved initializes its declaration
    have hdecl := Builder.shape?_build_of (h.made m hm).decl
    have hchild := Program.mem_children_of_slot hdecl (c := m.value) (by simp [Shape.slots])
      (Arena.ne_zero_of_shape hj)
    refine hinit ⟨m.kind, m.name, 0, m.value, []⟩ ?_ rfl
    rw [parent_eq h.fit.build h.counted hjin hjroot hchild]
    simp [Arena.asVariable?, hdecl, Shape.asVariable?]

end Goal
end Promote
end ShaderLoom
