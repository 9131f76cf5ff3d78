import ShaderLoom.Proofs.Copy.Register
import ShaderLoom.Proofs.Pass.Lowering

/-! Moving expressions into declarations keeps programs fit. A declaration is made from a copy of
its expression, and later copies stop at the expression, so that what lies below it is used up once.
The declarations of a loop or of an `else if` wait in the state until that is lowered. -/
namespace ShaderLoom

open Copy Builder.Mode

namespace Hoist

/-- Loops wait under the ids of loops, and conditionals under those of conditionals. -/
structure Placed (p : Program) (h : Hoist) : Prop where
  loops : ∀ l ∈ h.loops, isLoopHeader p l.id = true
  elseIfs : ∀ e ∈ h.elseIfs, p.isIf e.id

/-- Expressions become references, and loops and conditionals are lowered under their own ids. -/
def regime (d : Builder.Demands) (p : Program) : Regime Rule Hoist where
  toDemands := d
  keep h _ := h.Placed p
  replaced i
    | .reference _ => p.NoStatement i
    | .lowerLoop id => id = i ∧ isLoopHeader p i = true
    | .lowerElse id => id = i ∧ p.isIf i
  parts _ := True
  owned := waiting
  stops
    | .reference _ => true
    | _ => false
  frozen := True

variable {d : Builder.Demands} {p : Program} {w : World Rule Hoist} {F : List NodeId}
  {s : Session Rule Hoist} {copy : NodeId → Edit Rule Hoist NodeId} {n : Nat} {i : NodeId}

theorem steady : (regime d p).Steady := fun _ h => h

section Lowering

theorem isLoopHeader_iff :
    isLoopHeader p i = true ↔ ∃ x h, p.shape? i = some (.stmt x) ∧ header? x = some h := by
  unfold isLoopHeader
  constructor
  · intro h
    split at h
    · next hs => exact ⟨_, _, hs, rfl⟩
    · next hs => exact ⟨_, _, hs, rfl⟩
    · cases h
  · rintro ⟨x, h, hs, hx⟩
    rw [hs]
    cases x <;> first | rfl | cases hx

/-- Anything can stand where a loop stands. -/
theorem kindred_of_isLoopHeader {b : Arena} {j : NodeId} (h : isLoopHeader p i = true) :
    p.Kindred b i j := by
  obtain ⟨x, h, hs, hx⟩ := isLoopHeader_iff.1 h
  refine ⟨fun hb => ?_, fun hif => ?_, fun hsimple => ?_⟩
  · cases x <;> cases hx <;> simp [Arena.isBlock, Arena.block?, hs, Shape.block?] at hb
  · obtain ⟨_, _, _, he⟩ := hif
    cases hs.symm.trans he
    cases hx
  · obtain ⟨_, he, hm⟩ := hsimple
    cases hs.symm.trans he
    cases x <;> cases hx <;> cases hm

/-- A new node is what becomes of a statement whose place it can take. -/
theorem became {j : NodeId} (hw : ((regime d p).account s).Holds w (j :: F)) (hj0 : j ≠ 0)
    (hj : w.2 j = 0) (hi : i ≠ 0) (ht : s.source.inTree i = true)
    (hk : s.source.Kindred w.1.target.toArena i j) :
    ∃ g, ((regime d p).account s).Holds (w.1, g) (j :: F) ∧
      ((regime d p).account s).Later w (w.1, g) ∧
      ((regime d p).account s).Out (w.1, g) i j := by
  refine ⟨_, hw.became (Regime.stable steady s) hj0 hj hi ht fun v n hv hn ha =>
    ⟨⟨n, ?_, ?_⟩, fun _ => ?_⟩⟩
  · rw [hv]
    exact hn
  · rw [hv]
    exact Regime.permits_of_allows ha
  · rw [hv]
    exact hk


/-- What a lowering makes is what becomes of the statement, whose place it can take. -/
theorem turns_became {m : Edit Rule Hoist NodeId} {uses : List NodeId}
    {P : World Rule Hoist → NodeId → Prop} (hi : i ≠ 0) (ht : s.source.inTree i = true)
    (h : ((regime d p).account s).Turns Regime.any m uses (fun j => [j]) fun w j => j ≠ 0 ∧
      w.2 j = 0 ∧ P w j) (hk : ∀ {w j}, P w j → s.source.Kindred w.1.target.toArena i j) :
    ((regime d p).account s).Turns Regime.any m uses (fun j => [j]) fun w j =>
      ((regime d p).account s).Out w i j :=
  fun w F hw => (h w F hw).renote fun _ _ ⟨hw', hl, hj0, hj, hP⟩ =>
    let ⟨g, hg, hl', ho⟩ := became hw' hj0 hj hi ht (hk hP)
    ⟨g, hg, hl.trans hl', ho⟩

theorem handled (hp : p.Fit) (htidy : d.tidy → p.Tidy) (h : (regime d p).Ready p [] w F) :
    ((regime d p).account w.1).Handled Regime.any (fun _ _ => True) Promote.act := by
  refine Regime.handledOwned (fun n i rule node hc hi ht hn hr => ?_) ?_ fun _ _ _ _ => trivial
  · have hcopied : Copied ((regime d p).account w.1) Regime.any (fun _ => True)
        (Edit.copyTo Promote.act n) n :=
      ⟨Regime.stable steady _, fun hw => hw.state.2.2 trivial, fun c _ => hc c trivial⟩
    have h0 : 0 ∉ w.1.state.waiting i := by
      intro hm
      exact Nat.lt_irrefl 0 (h.free i 0 (List.mem_append_right _ hm)).1
    have hshape : w.1.source.shape? i = some node.shape := by simp [Arena.shape?, hn]
    have hpresent : ∀ c ∈ node.shape.required, c ≠ 0 := hp.present (h.source ▸ hn)
    have hreplaced := h.replaced i rule hr
    cases rule with
    | reference s =>
      refine Regime.turns_built steady (.identSym s) (by simp) hi ht fun _ => ?_
      rw [h.source]
      exact hreplaced
    | lowerLoop id =>
      obtain ⟨rfl, hloop⟩ := hreplaced
      obtain ⟨x, hd, hs, hx⟩ := isLoopHeader_iff.1 hloop
      rw [← h.source, hshape, Option.some.injEq] at hs
      rw [hs] at hshape hpresent
      have hbody : hd.body ≠ 0 := by
        cases x <;> first
          | cases hx; exact hpresent _ (by simp [Shape.required, Shape.slots])
          | cases hx
      have hcond : ∀ c b, x = .whileLoop c b → c ≠ 0 := by
        rintro c b rfl
        exact hpresent c (by simp [Shape.required, Shape.slots])
      refine (turns_became hi ht (turns_lowerLoop hcopied hshape hx hcond hbody h0 fun _ _ =>
        trivial) fun _ => ?_).weaken fun y => ?_
      · rw [h.source]
        exact kindred_of_isLoopHeader hloop
      · have := Header.count_le (A := (regime d p).account w.1) (n := n) hx y
        rw [← hs] at this
        simp only [Account.needs, List.count_append] at this ⊢
        change _ ≤ (w.1.state.waiting id ++ _).count y
        simp only [List.count_append]
        exact Nat.add_le_add_left this _
    | lowerElse id =>
      obtain ⟨rfl, cond, body, otherwise, hs⟩ := hreplaced
      rw [← h.source, hshape, Option.some.injEq] at hs
      rw [hs] at hshape hpresent
      refine (turns_became hi ht
        (turns_lowerElse hcopied hshape (hpresent cond (by simp [Shape.required]))
        (hpresent body (by simp [Shape.required])) h0 (fun _ _ => trivial) fun hd w' b e hb he =>
          ?_) fun hlow => ?_).weaken fun y => ?_
      · obtain ⟨hbody, helse⟩ := htidy hd id _ (h.source ▸ ht) (h.source ▸ hshape)
        rw [← h.source] at hbody helse
        refine ⟨?_, ?_⟩
        · rcases hb with ⟨h0, _⟩ | ⟨_, _, hk⟩
          · exact absurd h0 (hpresent body (by simp [Shape.required]))
          · exact (hk hd).block hbody
        · rcases he with ⟨_, h0⟩ | ⟨h0, _, hk⟩
          · exact .inl h0
          · exact .inr ((helse.resolve_left h0).elim (fun h => .inl ((hk hd).block h)) fun h =>
              ((hk hd).cond h).symm)
      · cases hlow with
        | block _ _ _ _ hj =>
          refine ⟨fun hb => ?_, fun _ =>
            .inr (by simp [Arena.isBlock, Arena.block?, hj, Shape.block?]), fun hsimple => ?_⟩
          · simp [Arena.isBlock, Arena.block?, hshape, Shape.block?] at hb
          · obtain ⟨_, he, hm⟩ := hsimple
            cases hshape.symm.trans he
            cases hm
      · rw [Account.needs, hs]
        change (w.1.state.waiting id ++ _).count y ≤ (w.1.state.waiting id ++ _).count y
        simp only [Shape.slots, List.flatMap_cons, List.flatMap_nil, Account.around,
          List.count_append]
        omega
  · intro n i t rule node _ _ _ _ hfind
    simp [h.handlers] at hfind

end Lowering


section Register

theorem Placed.onLoop {h : Hoist} (hp : h.Placed p) {id : NodeId} {f : PendingLoop → PendingLoop}
    (hf : ∀ l, (f l).id = l.id) (hid : isLoopHeader p id = true) : (h.onLoop id f).Placed p := by
  unfold Hoist.onLoop
  split
  · refine ⟨fun l hl => ?_, hp.elseIfs⟩
    obtain ⟨m, hm, rfl⟩ := List.mem_map.1 hl
    split
    · rw [hf]
      exact hp.loops m hm
    · exact hp.loops m hm
  · refine ⟨fun l hl => ?_, hp.elseIfs⟩
    rcases List.mem_append.1 hl with hl | hl
    · exact hp.loops l hl
    · rw [List.mem_singleton.1 hl, hf]
      exact hid

theorem Placed.onElse {h : Hoist} (hp : h.Placed p) {id : NodeId} {f : PendingElse → PendingElse}
    (hf : ∀ e, (f e).id = e.id) (hid : p.isIf id) : (h.onElse id f).Placed p := by
  unfold Hoist.onElse
  split
  · refine ⟨hp.loops, fun e he => ?_⟩
    obtain ⟨m, hm, rfl⟩ := List.mem_map.1 he
    split
    · rw [hf]
      exact hp.elseIfs m hm
    · exact hp.elseIfs m hm
  · refine ⟨hp.loops, fun e he => ?_⟩
    rcases List.mem_append.1 he with he | he
    · exact hp.elseIfs e he
    · rw [List.mem_singleton.1 he, hf]
      exact hid

theorem range_of_shape? {id : NodeId} {s : Shape Symbol NodeId} (h : p.shape? id = some s) :
    0 < id ∧ id ≤ p.size := by
  obtain ⟨n, hn, _⟩ := Option.map_eq_some_iff.1 h
  exact Arena.range_of_node? hn

variable (d p) in
/-- A step that registers a node of the target and replaces nothing. -/
def Registers (step : Work Rule Hoist Unit) (j : NodeId) : Prop :=
  ∀ w F, (regime d p).Ready p [] w (j :: F) → Runs step w (fun _ => True)
    fun _ w' => (regime d p).Ready p [] w' F ∧ w'.1.replacements = w.1.replacements

/-- A declaration waits for a node. -/
theorem registers_changeRecord {f : Hoist → Hoist} {id j : NodeId} (hid : 0 < id ∧ id ≤ p.size)
    (hk : ∀ h : Hoist, h.Placed p → (f h).Placed p)
    (ho : ∀ h k, k ≠ id → (f h).waiting k = h.waiting k)
    (hnew : ∀ h x, ((f h).waiting id).count x ≤ (h.waiting id).count x + [j].count x) :
    Registers d p (Work.edit (changeRecord f)) j := by
  intro w F h
  refine Work.runs_edit (Runs.modify w.2 ⟨?_, rfl⟩)
  exact Regime.Ready.setState (l := [j]) (hk _ h.state) hid (ho _) (hnew _) h

theorem registers_onLoop {id j : NodeId} {f : PendingLoop → PendingLoop} (hf : ∀ l, (f l).id = l.id)
    (hid : isLoopHeader p id = true) (hnew : ∀ l x, ((f l).condition ++ (f l).continuing).count x ≤
      (l.condition ++ l.continuing).count x + [j].count x) :
    Registers d p (Work.edit (changeRecord (·.onLoop id f))) j := by
  have hrange : 0 < id ∧ id ≤ p.size := by
    unfold isLoopHeader at hid
    split at hid
    · next hs => exact range_of_shape? hs
    · next hs => exact range_of_shape? hs
    · cases hid
  refine registers_changeRecord hrange (fun h hh => hh.onLoop hf hid) (fun h k hk => ?_) fun h x =>
    ?_
  · simp [waiting, loopOf_onLoop _ _ _ hf, hk]
  · have := hnew (h.loopOf id) x
    simp only [waiting, loopOf_onLoop _ _ _ hf, elseOf_onLoop, if_true, List.count_append] at this ⊢
    omega

theorem registers_onElse {id j : NodeId} (hid : p.isIf id) : Registers d p
    (Work.edit (changeRecord (·.onElse id fun e => { e with condition := e.condition ++ [j] })))
    j := by
  have hf : ∀ e : PendingElse, ({ e with condition := e.condition ++ [j] } : PendingElse).id =
      e.id := fun _ => rfl
  have hrange : 0 < id ∧ id ≤ p.size := by
    obtain ⟨_, _, _, hs⟩ := hid
    exact range_of_shape? hs
  refine registers_changeRecord hrange (fun h hh => hh.onElse hf hid) (fun h k hk => ?_) fun h x =>
    ?_
  · simp [waiting, elseOf_onElse _ _ _ hf, hk]
  · simp only [waiting, elseOf_onElse _ _ _ hf, loopOf_onElse, if_true, List.count_append]
    omega

/-- A declaration goes before a statement, or waits where it cannot be put in at once. -/
theorem registers_insertBefore (n : Nat) (id j : NodeId) :
    Registers d p (insertBefore n id j) j := by
  induction n generalizing id with
  | zero => exact fun _ _ _ => Runs.throw trivial
  | succ n ih =>
    intro w F h
    unfold insertBefore
    refine Runs.bind (Runs.get ?_)
    simp only [h.source]
    split
    · exact Runs.throw trivial
    · split
      · next helse =>
        refine registers_onElse ?_ w F h
        unfold isElseOf at helse
        split at helse
        · next hs _ => exact ⟨_, _, _, hs⟩
        · cases helse
      · split
        · refine Work.runs_edit (h.insertBefore.and (D := Regime.any)
            (P := fun _ s => s.replacements = w.1.replacements)
            (Regime.replacements_insertBefore id j))
        · next hs =>
          have hloop : isLoopHeader p (p.parent id) = true := by simp [isLoopHeader, hs]
          split
          · exact ih _ w F h
          · split
            · refine registers_onLoop (f := fun l => { l with continuing := l.continuing ++ [j] })
                (fun _ => rfl) hloop (fun l x => ?_) w F h
              simp only [List.count_append]
              omega
            · exact Runs.throw trivial
        · exact Runs.throw trivial

/-- A step of the builder does not depend on what is registered. -/
theorem runs_build_replacing {α : Type} {step : Build α} {rule : Rule}
    {Q : α → World Rule Hoist → Prop}
    (h : Runs (Edit.build step) (Regime.replacing w i rule) Regime.any Q) :
    Runs (Edit.build step) w Regime.any fun a w' => Q a (Regime.replacing w' i rule) := by
  unfold Runs Edit.build at *
  have htarget : (Regime.replacing w i rule).1.target = w.1.target := rfl
  rw [htarget] at h
  cases hs : step w.1.target with
  | ok a b =>
    simp only [hs] at h ⊢
    exact h
  | error e b =>
    simp only [hs] at h ⊢
    exact h

/-- An expression gets a declaration and becomes a reference to it. -/
theorem runs_add (hp : p.Fit) (hc : d.counted → p.Counted) (htidy : d.tidy → p.Tidy) {asLet : Bool}
    {hint : String} (before : NodeId) (hi : 0 < i ∧ i < p.root) (hs : p.NoStatement i)
    (hbelow : ∀ k, w.1.replacements k ≠ none → ¬ p.Below k i) (h : (regime d p).Ready p [] w []) :
    Runs (add Promote.act before i asLet hint) w (fun _ => True)
      fun _ w' => (regime d p).Ready p [] w' [] ∧
        ∀ k, w'.1.replacements k ≠ none → k = i ∨ w.1.replacements k ≠ none := by
  have hnone : w.1.replacements i = none := Classical.not_not.1 fun hne => hbelow i hne .self
  unfold add
  refine Runs.bind (Runs.get ?_)
  simp only [h.source]
  split
  · exact Runs.bind (Runs.throw trivial)
  have hname := h.makes (u := []) steady (.freshSymbol hint)
  refine Runs.bind (Work.runs_edit ((hname.and (P := fun _ s => s.replacements = w.1.replacements)
    (Regime.replacements_build _)).mono fun name w₁ hname => ?_))
  obtain ⟨h₁, hr₁⟩ := hname
  rw [← hr₁] at hbelow hnone
  have hlive : d.counted → (regime d p).Live w₁.1 i := by
    rintro _ k _ hcut ⟨c, hc, hu⟩
    rw [h₁.source] at hc hu
    refine hbelow k (fun hk => ?_) (.of_child hc hu)
    simp [Regime.cuts, hk] at hcut
  refine Runs.bind
    (Work.runs_edit
      ((h₁.copyReplacing (Rule.reference name) steady hp hc (handled hp htidy h₁) rfl hs hi
    hnone hlive).mono fun value w₂ hvalue => ?_))
  obtain ⟨h₂, ht₂⟩ := hvalue
  have hkind : (if asLet then VariableKind.letValue else .var .none .undefined).Spelled ∧
      (if asLet then VariableKind.letValue else .var .none .undefined).Accessible := by
    cases asLet
    · exact ⟨show AddressSpace.none ∈ AddressSpace.declared by decide,
        show Access.undefined ∈ Access.declared by decide⟩
    · exact ⟨trivial, trivial⟩
  have hdecl :=
    runs_build_replacing (h₂.makes steady (Yields.initialized hkind.1 hkind.2 name value).makes)
  refine Runs.bind (Work.runs_edit ((hdecl.and (P := fun _ s => s.replacements = w₂.1.replacements)
    (Regime.replacements_build _)).mono fun decl w₃ hmade => ?_))
  obtain ⟨h₃, hr₃⟩ := hmade
  refine Runs.bind (Work.runs_edit (Regime.runs_replaceWith fun _ _ _ => ?_))
  have hdeclare := h₃.makes steady (Yields.declare decl).makes
  refine Runs.bind (Work.runs_edit ((hdeclare.and (P := fun _ s => s.replacements = _)
    (Regime.replacements_build _)).mono fun declared w₄ hmade => ?_))
  obtain ⟨h₄, hr₄⟩ := hmade
  have hend : ∀ w₅ : World Rule Hoist, w₅.1.replacements = w₄.1.replacements →
      ∀ k, w₅.1.replacements k ≠ none → k = i ∨ w.1.replacements k ≠ none := by
    intro w₅ hr₅ k hk
    by_cases hki : k = i
    · exact .inl hki
    refine .inr ?_
    rw [hr₅, hr₄] at hk
    simpa [Regime.replacing, update_of_ne _ _ hki, hr₃, ht₂.replacements, hr₁] using hk
  split
  · next hloop =>
    refine (registers_onLoop (f := fun l => { l with condition := l.condition ++ [declared] })
      (fun _ => rfl) hloop (fun l x => ?_) w₄ [] h₄).mono fun _ w₅ h => ⟨h.1, hend w₅ h.2⟩
    simp only [List.count_append]
    omega
  · unfold insert
    refine Runs.bind (Runs.get ?_)
    exact (registers_insertBefore _ _ declared w₄ [] h₄).mono fun _ w₅ h => ⟨h.1, hend w₅ h.2⟩

/-- The lowerings are registered for the statements they are about. -/
theorem runs_apply (h : (regime d p).Ready p [] w F) :
    Runs (apply (κ := Rule) (σ := Hoist)) w Regime.any fun _ w' =>
      (regime d p).Ready p [] w' F := by
  have hplaced : w.1.state.Placed p := h.state
  refine Runs.bind (Runs.bind (Runs.get (Runs.pure w.2 ?_)))
  refine Runs.bind (Runs.forIn (fun _ w => (regime d p).Ready p [] w F) h (fun l _ w hl hw => ?_)
    fun w hw => ?_)
  · exact Runs.yield (hw.replaceWith ⟨rfl, hplaced.loops l hl⟩)
  refine Runs.bind (Runs.forIn (fun _ w => (regime d p).Ready p [] w F) hw (fun e _ w he hw => ?_)
    fun w hw => ?_)
  · exact Runs.yield (hw.replaceWith ⟨rfl, hplaced.elseIfs e he⟩)
  · exact Runs.pure w.2 hw

end Register
end Hoist

namespace Promote

variable {p : Program}

theorem range_of_promotable {id : NodeId} (hp : p.Fit) (h : id ∈ promotables p) :
    (0 < id ∧ id < p.root) ∧ p.NoStatement id := by
  obtain ⟨_, hm⟩ := List.mem_filter.1 h
  obtain ⟨hcall, _⟩ := Bool.and_eq_true_iff.1 hm
  unfold isCallNode at hcall
  split at hcall
  · next hs =>
    have hrange := Hoist.range_of_shape? hs
    refine ⟨⟨hrange.1, Nat.lt_of_le_of_ne (hp.root ▸ hrange.2) fun hr => ?_⟩, ?_⟩
    · rw [hr, hp.module] at hs
      cases hs
    · simp [Arena.NoStatement, hs, Shape.isStatement]
  · cases hcall

theorem pairwise_promotables (p : Program) : (promotables p).Pairwise (· < ·) := by
  have hids : p.ids.Pairwise (· < ·) :=
    List.pairwise_map.2 (List.pairwise_lt_range.imp fun h => Nat.succ_lt_succ h)
  exact (hids.filter _).filter _

theorem runs_work {d : Builder.Demands} (hp : p.Fit) (hc : d.counted → p.Counted)
    (htidy : d.tidy → p.Tidy) :
    Runs (work p) ((Session.start p {}, fun _ => 0) : World Hoist.Rule Hoist) (fun _ => True)
      fun out w => (Hoist.regime d p).Done p out w.1.target := by
  unfold work
  refine Runs.bind
    (Runs.forIn (fun rest w => (Hoist.regime d p).Ready p [] w [] ∧ rest.Pairwise (· < ·) ∧
      ∀ k, w.1.replacements k ≠ none → ∀ x ∈ rest, k < x)
    ⟨.start hp (fun _ => ⟨by simp, by simp⟩) fun _ => rfl, pairwise_promotables p,
      fun k hk => absurd rfl hk⟩
    (fun id rest w hid hready => ?_) fun w hready => ?_)
  · obtain ⟨hw, hsorted, hbelow⟩ := hready
    obtain ⟨hi, hs⟩ := range_of_promotable hp hid
    obtain ⟨hlt, hsorted⟩ := List.pairwise_cons.1 hsorted
    refine Runs.yield ((Hoist.runs_add hp hc htidy id hi hs (fun k hk hb => ?_) hw).mono
      fun _ w' hadd => ⟨hadd.1, hsorted, fun k hk x hx => ?_⟩)
    · exact Nat.not_le.2 (hbelow k hk id (by simp)) (hp.le_of_below hb)
    · rcases hadd.2 k hk with rfl | hk
      · exact hlt x hx
      · exact hbelow k hk x (List.mem_cons_of_mem _ hx)
  refine Runs.bind (Work.runs_edit ((Hoist.runs_apply hready.1).mono fun _ w₁ h₁ => ?_))
  refine Runs.bind
    (Work.runs_edit ((h₁.copyModule Hoist.steady hp hc (Hoist.handled hp htidy h₁)).mono
    fun _ w₂ h₂ => Runs.pure w₂.2 ⟨h₂, fun _ _ _ => rfl⟩))

end Promote
end ShaderLoom