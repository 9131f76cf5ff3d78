import ShaderLoom.Pass.Promote
import ShaderLoom.Proofs.Copy.Frame
import ShaderLoom.Proofs.Copy.Regime
import ShaderLoom.Proofs.Kinds

/-! Where a declaration can be put. Hoisting looks for the place of a declaration last, when the
expression is copied and stands for the declaration already. A hoist that fails for want of a
statement leaves no trace; one that finds no place does, and that is the case for blocks and for
what stands where only blocks belong. -/
namespace ShaderLoom

theorem Program.any_ascend {p : Program} {test : Shape Symbol NodeId → Bool} {n : Nat} {i : NodeId}
    (h : p.ascend test n i ≠ 0) : (p.shape? (p.ascend test n i)).any test = true := by
  induction n generalizing i with
  | zero => exact absurd rfl h
  | succ n ih =>
    unfold ascend at h ⊢
    split
    · next h0 => exact absurd (if_pos h0) h
    · next h0 =>
      split
      · assumption
      · next htest =>
        rw [if_neg h0, if_neg htest] at h
        exact ih h

/-- The statement around a node is a statement. -/
theorem Program.shape?_statementOf {p : Program} {i : NodeId} (h : p.statementOf i ≠ 0) :
    ∃ x, p.shape? (p.statementOf i) = some (.stmt x) := by
  obtain ⟨sh, hs, hstmt⟩ := (Option.any_eq_true _ _).1 (any_ascend h)
  cases sh <;> first | exact ⟨_, hs⟩ | cases hstmt

namespace Hoist

open Copy

/-- The statement has a place before it for a declaration: in front of the condition of an `else
if`, in a block, before the loop that it initializes, or in what the loop continues with. -/
inductive Placeable (p : Program) : NodeId → Prop
  | elseIf {i : NodeId} (h : isElseOf p i = true) : Placeable p i
  | element {i : NodeId} {ss : List NodeId} (h : p.shape? (p.parent i) = some (.stmt (.block ss))) :
    Placeable p i
  | initializer {i c t b : NodeId} (h : p.shape? (p.parent i) = some (.stmt (.forLoop i c t b)))
      (outer : Placeable p (p.parent i)) : Placeable p i
  | continuing {i x c b : NodeId} (h : p.shape? (p.parent i) = some (.stmt (.forLoop x c i b)))
    (hx : i ≠ x) : Placeable p i

section Failures

variable {κ σ α β : Type} {s t u : Session κ σ} {e : PassProblem}

/-- The step does not fail with a problem. -/
def Smooth (step : Work κ σ α) (s : Session κ σ) : Prop := ∀ e t, step s ≠ .error (.problem e) t

theorem look_bind (next : Session κ σ → Work κ σ α) (s : Session κ σ) :
    (get >>= next) s = next s s := rfl

theorem Smooth.look {next : Session κ σ → Work κ σ α} (h : Smooth (next s) s) :
    Smooth (get >>= next) s := h

theorem smooth_edit (step : Edit κ σ α) : Smooth (Work.edit step) s := by
  intro e t h
  unfold Work.edit at h
  split at h <;> cases h

theorem edit_ok {step : Edit κ σ α} {a : α} (h : Work.edit step s = .ok a t) :
    step s = .ok a t := by
  unfold Work.edit at h
  split at h <;> cases h
  assumption

theorem Smooth.bind {step : Work κ σ α} {next : α → Work κ σ β} (h : Smooth step s)
    (hn : ∀ a t, step s = .ok a t → Smooth (next a) t) : Smooth (step >>= next) s := by
  intro e t hs
  simp only [Bind.bind, EStateM.bind] at hs
  cases hr : step s with
  | ok a u =>
    rw [hr] at hs
    exact hn a u hr e t hs
  | error e' u =>
    rw [hr] at hs
    cases hs
    exact h _ _ hr

/-- Steps on the session one after the other. -/
theorem Smooth.edit_bind {step : Edit κ σ α} {next : α → Work κ σ β}
    (hn : ∀ a t, step s = .ok a t → Smooth (next a) t) : Smooth (Work.edit step >>= next) s :=
  (smooth_edit step).bind fun a t h => hn a t (edit_ok h)

end Failures

section Insert

variable {κ σ : Type} [Hoisting κ σ] {p : Program} {s : Session κ σ} {i j : NodeId}

/-- Where there is a place, it is found. -/
theorem smooth_insertBefore {rank : NodeId → Nat}
    (hlt : ∀ i, (p.shape? (p.parent i)).isSome → rank (p.parent i) < rank i) (h : Placeable p i)
    {sh : Shape Symbol NodeId} (hi : p.shape? i = some sh) {n : Nat} (hn : rank i < n)
    (hs : s.source = p) : Smooth (insertBefore n i j) s := by
  induction h generalizing n sh with
  | elseIf h =>
    obtain ⟨n, rfl⟩ := Nat.exists_eq_succ_of_ne_zero (Nat.ne_zero_of_lt hn)
    unfold insertBefore
    refine Smooth.look ?_
    simp only [hs, hi, h, if_true]
    exact smooth_edit _
  | element h =>
    obtain ⟨n, rfl⟩ := Nat.exists_eq_succ_of_ne_zero (Nat.ne_zero_of_lt hn)
    unfold insertBefore
    refine Smooth.look ?_
    simp only [hs, hi, h]
    split <;> exact smooth_edit _
  | @initializer i c t b h _ ih =>
    obtain ⟨n, rfl⟩ := Nat.exists_eq_succ_of_ne_zero (Nat.ne_zero_of_lt hn)
    unfold insertBefore
    refine Smooth.look ?_
    simp only [hs, hi, h, if_true]
    split
    · exact smooth_edit _
    · exact ih h (Nat.lt_of_lt_of_le (hlt i (by simp [h])) (Nat.le_of_lt_succ hn))
  | continuing h hx =>
    obtain ⟨n, rfl⟩ := Nat.exists_eq_succ_of_ne_zero (Nat.ne_zero_of_lt hn)
    unfold insertBefore
    refine Smooth.look ?_
    simp only [hs, hi, h, hx, if_false, if_true]
    split <;> exact smooth_edit _

/-- A declaration gets in where its statement is a loop, whose condition it joins, or has a place
before it. -/
def Admits (p : Program) (i : NodeId) : Prop := isLoopHeader p i = true ∨ Placeable p i

theorem smooth_insert (hp : p.TreeShaped) (h : Placeable p i) {sh : Shape Symbol NodeId}
    (hi : p.shape? i = some sh) (hs : s.source = p) : Smooth (insert i j) s := by
  obtain ⟨rank, hle, hlt⟩ := hp.ranked_treeIds
  have hup : ∀ i, (p.shape? (p.parent i)).isSome → rank (p.parent i) < rank i := by
    intro i hi
    have h0 : p.parent i ≠ 0 := by
      rintro h0
      simp [h0, Arena.shape?] at hi
    obtain ⟨hmem, hin⟩ := hp.parent_holds h0
    exact hlt _ _ hin hmem
  unfold insert
  refine Smooth.look ?_
  have hsize : p.treeIds.length ≤ p.size :=
    Nat.le_trans (List.length_filter_le _ _) (by simp [Arena.ids])
  exact smooth_insertBefore hup h hi (Nat.lt_succ_of_le (Nat.le_trans (hle i) (hs ▸ hsize))) hs

/-- Once there is a statement that admits a declaration, nothing stands in the way. -/
theorem add_smooth {act : Act κ σ}
    (hact : ∀ copy, (∀ i, Sourced (copy i)) → ∀ h i, Sourced (act copy h i))
    (hp : s.source.TreeShaped) {before expr : NodeId} {asLet : Bool} {hint : String}
    (h0 : s.source.statementOf before ≠ 0) (h : Admits s.source (s.source.statementOf before)) :
    Smooth (add act before expr asLet hint) s := by
  obtain ⟨x, hx⟩ := Program.shape?_statementOf h0
  unfold add
  refine Smooth.look ?_
  simp only [h0, if_false]
  refine Smooth.edit_bind fun name t₁ ht₁ => ?_
  refine Smooth.edit_bind fun value t₂ ht₂ => ?_
  refine Smooth.edit_bind fun decl t₃ ht₃ => ?_
  refine Smooth.edit_bind fun _ t₄ ht₄ => ?_
  refine Smooth.edit_bind fun declared t₅ ht₅ => ?_
  have hsource : t₅.source = s.source := by
    have h₁ := Sourced.build _ _ _ _ ht₁
    have h₂ := Sourced.frame.copy hact expr _ _ _ ht₂
    have h₃ := Sourced.build _ _ _ _ ht₃
    have h₅ := Sourced.build _ _ _ _ ht₅
    have h₄ := Sourced.replaceWith _ _ _ _ _ ht₄
    rw [h₅, h₄, h₃, h₂, h₁]
  split
  · exact smooth_edit _
  · next hloop => exact smooth_insert hp (h.resolve_left hloop) hx hsource

/-- What hoisting makes of loops and conditionals is copied from the same program. -/
theorem sourced_act {copy : NodeId → Edit κ σ NodeId} (hc : ∀ i, Sourced (copy i)) (rule : Rule) :
    Sourced (Hoist.act copy rule) := by
  have hrecord : Sourced (record : Edit κ σ Hoist) := Sourced.get.bind fun s => .pure _
  have hbreak : ∀ i, Sourced (breakUnless copy i) := fun i => (hc i).bind fun _ => .build _
  unfold Hoist.act
  refine Sourced.get.bind fun s => ?_
  cases rule with
  | reference x => exact .build _
  | lowerLoop id =>
    refine hrecord.bind fun h => ?_
    dsimp only
    split
    · next init cond continuing body _ =>
      -- The loop comes last, with or without an initializer, and what it continues with before it.
      have hloop : ∀ test inner cont, Sourced (do
          let loop ← Edit.build do
            let b ← Build.block ((h.loopOf id).condition ++ test ++ [inner])
            Build.stmt (.loop b cont)
          if init = 0 then return loop
          let first ← copy init
          Edit.build (Build.block [first, loop]) : Edit κ σ NodeId) := by
        intro test inner cont
        refine (Sourced.build _).bind fun loop => ?_
        split
        · exact .pure loop
        · exact (hc init).bind fun _ => .build _
      have hrest : ∀ test inner, Sourced (do
          let cont ← if continuing = 0 then Pure.pure 0 else do
            let before := ((← record).loopOf id).continuing
            let last ← copy continuing
            Edit.build (Build.block (before ++ [last]))
          let loop ← Edit.build do
            let b ← Build.block ((h.loopOf id).condition ++ test ++ [inner])
            Build.stmt (.loop b cont)
          if init = 0 then return loop
          let first ← copy init
          Edit.build (Build.block [first, loop]) : Edit κ σ NodeId) := by
        intro test inner
        dsimp only
        split
        · exact (Sourced.pure 0).bind (hloop test inner)
        · exact hrecord.bind fun _ => (hc continuing).bind fun _ =>
            (Sourced.build _).bind (hloop test inner)
      split
      · exact (Sourced.pure []).bind fun test => (hc body).bind (hrest test)
      · exact (hbreak cond).bind fun _ => (hc body).bind (hrest _)
    · exact (hbreak _).bind fun _ => (hc _).bind fun _ => .build _
    · exact .pure _
  | lowerElse id =>
    dsimp only
    split
    · exact (hc _).bind fun _ =>
        (hc _).bind fun _ => (hc _).bind fun _ => hrecord.bind fun _ => .build _
    · exact .pure _

/-- A hoist that fails for want of a statement leaves the session as it was; and where the statement
admits a declaration, that is the only problem that can arise. -/
theorem add_leaves_no_trace {act : Act κ σ}
    (hact : ∀ copy, (∀ i, Sourced (copy i)) → ∀ h i, Sourced (act copy h i))
    (hp : s.source.TreeShaped) {before expr : NodeId} {asLet : Bool} {hint : String}
    (hadmits : s.source.statementOf before ≠ 0 → Admits s.source (s.source.statementOf before))
    {e : PassProblem} {t : Session κ σ}
    (h : add act before expr asLet hint s = .error (.problem e) t) :
    s.source.statementOf before = 0 ∧ e = .hoistOutsideFunction before ∧ t = s := by
  by_cases h0 : s.source.statementOf before = 0
  · refine ⟨h0, ?_⟩
    unfold add at h
    rw [look_bind] at h
    simp only [h0, if_true] at h
    cases h
    exact ⟨rfl, rfl⟩
  · exact absurd h (add_smooth hact hp h0 (hadmits h0) e t)

end Insert

/-- Where statements are of the kinds that belong where they stand, all but blocks have a place
before them. -/
theorem placeable_of_tidy {p : Program} (hp : p.TreeShaped) (htidy : p.Tidy)
    (hroot : p.shape? p.root = some (.module p.globals))
    (hfields : ∀ i sh, p.inTree i = true → p.shape? i = some sh → p.fields sh = true) {i : NodeId}
    (hi : p.inTree i = true) {x : StmtShape NodeId} (hx : p.shape? i = some (.stmt x))
    (hblock : ¬ p.isBlock i) : Placeable p i := by
  obtain ⟨rank, -, hlt⟩ := hp.ranked
  -- A loop that is initialized by the statement has a place before it, too, and it is not a block.
  generalize hr : rank i = r
  induction r using Nat.strongRecOn generalizing i x with
  | ind r ih =>
  have hne : i ≠ p.root := by
    rintro rfl
    cases hroot.symm.trans hx
  obtain ⟨hmem, hj⟩ := hp.parent_holds ((Program.inTree_iff.1 hi).resolve_left hne)
  obtain ⟨n, hn, hslot, h0⟩ := Arena.mem_children.1 hmem
  have hs : p.shape? (p.parent i) = some n.shape := by simp [Arena.shape?, hn]
  have hmodule : ∀ gs, n.shape ≠ .module gs := by
    intro gs hgs
    have hdecls := hfields _ _ hj hs
    rw [hgs] at hslot hdecls
    have hdecl : p.isDecl i = true := List.all_eq_true.1 hdecls i hslot
    simp [Arena.isDecl, hx, Shape.isDeclaration] at hdecl
  have hheld : i ∈ Arena.statements n.shape := by
    rcases Arena.holder_of_fields (hfields _ _ hj hs) hmodule hslot h0 with hpart | ⟨-, hheld⟩
    · exact absurd (hpart _ hx).1 (by simp [Shape.isStatement])
    · exact hheld
  have hkinds := htidy _ _ hj hs
  unfold Arena.statements at hheld
  split at hheld
  · next y hy =>
    rw [hy] at hs hkinds
    cases y with
    | block ss => exact .element hs
    | ifElse c b o =>
      have hpair : i = b ∨ i = o := by simpa [Flow.substatements] using hheld
      rcases hpair with rfl | rfl
      · exact absurd hkinds.1 hblock
      · obtain ⟨c', b', o', hif⟩ := (hkinds.2.resolve_left h0).resolve_left hblock
        exact .elseIf (by simp [isElseOf, hif, hs])
    | forLoop init c t b =>
      by_cases hinit : i = init
      · subst hinit
        refine .initializer hs (ih _ (hr ▸ hlt _ _ hj hmem) hj hs ?_ rfl)
        simp [Arena.isBlock, Arena.block?, hs, Shape.block?]
      · have htail : i = b ∨ i = t := by simpa [Flow.substatements, hinit] using hheld
        rcases htail with rfl | rfl
        · exact absurd hkinds.2.2 hblock
        · exact .continuing hs hinit
    | whileLoop c b =>
      obtain rfl := List.mem_singleton.1 hheld
      exact absurd hkinds hblock
    | loop b k =>
      have hpair : i = b ∨ i = k := by simpa [Flow.substatements] using hheld
      rcases hpair with rfl | rfl
      · exact absurd hkinds.1 hblock
      · exact absurd (hkinds.2.resolve_left h0) hblock
    | _ => cases hheld
  · next f hf =>
    rw [hf] at hkinds
    obtain rfl := List.mem_singleton.1 hheld
    exact absurd hkinds hblock
  · cases hheld

/-- The module `const c = 1;`. -/
def constantOnly : Builder where
  nodes := #[⟨.expr (.int 1 .none), {}⟩, ⟨.decl (.value ⟨.constant, 1, 0, 1, []⟩), {}⟩]
  symbols := { names := #["c"] }
  globals := [2]

/-- The module `fn f() { var x = 1; }`. -/
def variableOnly : Builder where
  nodes := #[⟨.expr (.int 1 .none), {}⟩,
    ⟨.decl (.value ⟨.var .none .undefined, 2, 0, 1, []⟩), {}⟩,
    ⟨.stmt (.varDecl 2), {}⟩, ⟨.stmt (.block [3]), {}⟩,
    ⟨.decl (.function ⟨1, [], 0, 4, [], []⟩), {}⟩]
  symbols := { names := #["f", "x"] }
  globals := [5]

/-- At module scope there is no statement before which a declaration could be put. -/
theorem add_leaves_no_trace_constant : ∃ e t,
    add Promote.act 1 1 true "" (Session.start constantOnly.build {}) = .error (.problem e) t ∧
    (constantOnly.build.statementOf 1 = 0 ∧ e = .hoistOutsideFunction 1 ∧
      t = Session.start constantOnly.build {}) := by
  have h : add Promote.act 1 1 true "" (Session.start constantOnly.build {}) =
      .error (.problem (.hoistOutsideFunction 1)) (Session.start constantOnly.build {}) := rfl
  have htree : constantOnly.build.TreeShaped :=
    .of_check (by decide) (by decide) rfl (by decide +kernel)
  exact ⟨_, _, h, add_leaves_no_trace (fun _ hc rule _ => sourced_act hc rule) htree
    (fun h0 => absurd rfl h0) h⟩

/-- What becomes of a session: the loops and conditionals are registered, and the module is
copied. -/
def finished (s : Session Rule Hoist) : Option Program :=
  match (do apply; Edit.copyModule (Edit.copy Promote.act) : Edit Rule Hoist Unit) s with
  | .ok _ t => some t.target.build
  | .error _ _ => none

/-- Nothing can be put before the body of a function. The expression stands for a declaration by
then, and the copy has a reference to what is declared nowhere. -/
theorem add_leaves_trace : variableOnly.build.TreeShaped ∧ ∃ t,
    add Promote.act 3 1 true "" (Session.start variableOnly.build {}) =
    .error (.problem (.hoistUnsupportedPosition "Block" 4)) t ∧
    (finished (Session.start variableOnly.build {})).map Program.valid = some true ∧
    (finished t).map Program.valid = some false := by
  refine ⟨.of_check (by decide) (by decide) rfl (by decide +kernel), ?_⟩
  have hrun : (match add Promote.act 3 1 true "" (Session.start variableOnly.build {}) with
      | .error (.problem e) t => decide (e = .hoistUnsupportedPosition "Block" 4 ∧
          (finished t).map Program.valid = some false)
      | _ => false) = true := by decide +kernel
  split at hrun
  · next e t h =>
    obtain ⟨rfl, hvalid⟩ := of_decide_eq_true hrun
    exact ⟨t, h, by decide +kernel, hvalid⟩
  · cases hrun

end Hoist
end ShaderLoom
