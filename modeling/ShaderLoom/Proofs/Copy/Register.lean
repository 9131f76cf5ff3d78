import ShaderLoom.Proofs.Copy.Regime

/-! The steps by which a session is made ready. -/
namespace ShaderLoom

namespace Copy.Regime

variable {κ σ α : Type} {R : Regime κ σ} {p : Program} {hs : List (Tag × κ)} {w : World κ σ}
    {F uses : List NodeId} {i : NodeId}

variable (R) in
/-- The second session is the first one with nodes registered for one more place. -/
structure Adds (s s' : Session κ σ) (i : NodeId) (ys : List NodeId) : Prop where
  source : s'.source = s.source
  target : s'.target = s.target
  front : s'.front = s.front
  back : s'.back = s.back
  handlers : s'.handlers = s.handlers
  symbolRule : s'.symbolRule = s.symbolRule
  replacements : ∀ k, k ≠ i → s'.replacements k = s.replacements k
  cuts : R.cuts s i = true → R.cuts s' i = true
  registered : ∀ k, k ≠ i → R.registered s' k = R.registered s k
  new : ∀ x, (R.registered s' i).count x ≤ (R.registered s i).count x + ys.count x

/-- A copy stops wherever it stopped before. -/
theorem Adds.live {s s' : Session κ σ} {ys : List NodeId} (h : R.Adds s s' i ys) {k : NodeId}
    (hk : R.Live s' k) : R.Live s k := by
  intro j hr hcut
  have hcut' : R.cuts s' j = true := by
    by_cases hji : j = i
    · subst hji
      exact h.cuts hcut
    · rwa [Regime.cuts, h.replacements j hji]
  have := hk j (by rwa [h.source]) hcut'
  rwa [h.source] at this

/-- A registration brings its nodes along, and no others. -/
theorem Adds.count_tokens {s s' : Session κ σ} {ys : List NodeId} (h : R.Adds s s' i ys)
    (x : NodeId) : (R.tokens s').count x ≤ (R.tokens s).count x + ys.count x := by
  classical
  have hsum : ∀ ids : List NodeId, ids.Nodup →
      ((ids.filter (R.Live s' ·)).flatMap (R.registered s')).count x ≤
        ((ids.filter (R.Live s ·)).flatMap (R.registered s)).count x +
        (if i ∈ ids then ys.count x else 0) := by
    intro ids hids
    induction ids with
    | nil => simp
    | cons k ids ih =>
      obtain ⟨hk, hids⟩ := List.nodup_cons.1 hids
      have hle := ih hids
      have hfirst : (R.registered s' k).count x ≤
          (R.registered s k).count x + if k = i then ys.count x else 0 := by
        split
        · next hki => exact hki ▸ h.new x
        · next hki => exact Nat.le_of_eq (by rw [h.registered k hki, Nat.add_zero])
      have hmem : (if i ∈ ids then ys.count x else 0) + (if k = i then ys.count x else 0) =
          if i ∈ k :: ids then ys.count x else 0 := by grind
      by_cases hlive' : R.Live s' k
      · have hlive := h.live hlive'
        simp only [List.filter_cons, hlive, hlive', decide_true, if_true, List.flatMap_cons,
          List.count_append]
        omega
      · by_cases hlive : R.Live s k
        · simp only [List.filter_cons, hlive, hlive', decide_true, decide_false, if_true,
            Bool.false_eq_true, if_false, List.flatMap_cons, List.count_append]
          omega
        · simp only [List.filter_cons, hlive, hlive', decide_false, Bool.false_eq_true, if_false]
          omega
  have := hsum _ s.source.toArena.nodup_ids
  rw [tokens, tokens, h.source]
  split at this <;> omega

/-- Before anything is registered a session is ready. -/
theorem Ready.start (hp : p.Fit) {state : σ} (hk : ∀ b, R.keep state b)
    (ho : ∀ k, R.owned state k = []) : R.Ready p [] (Session.start p state, fun _ => 0) [] := by
  have hnone : ∀ k, (Session.start (κ := κ) p state).target.node? k = none := by
    intro k
    cases k <;> simp [Session.start]
  have hreg : ∀ k, R.registered (Session.start (κ := κ) p state) k = [] := ho
  have htokens : R.tokens (Session.start (κ := κ) p state) = [] :=
    List.flatMap_eq_nil_iff.2 fun k _ => hreg k
  refine ⟨⟨rfl, rfl, rfl, nofun, nofun, rfl, fun k hk => absurd (hreg k) hk, ?_, nofun,
    fun k hk => absurd rfl hk, fun hn => absurd hn (by simp [hnone]), fun hn =>
      absurd hn (by simp [hnone]),
    hk _⟩, ?_⟩
  · intro k y hy
    rw [hreg] at hy
    cases hy
  · rw [htokens]
    exact .empty rfl rfl hp.named rfl

/-- A step of the builder on the target. -/
theorem Laid.grow (hR : R.Steady) (h : R.Laid p hs w) {b : Builder}
    (hg : R.mode.Grows w.1.target b) : R.Laid p hs ({ w.1 with target := b }, w.2) where
  source := h.source
  front := h.front
  back := h.back
  rule := h.rule
  replaced := h.replaced
  handlers := h.handlers
  anchored := h.anchored
  free k y hy := (h.free k y hy).imp_right fun hle => Nat.le_trans hle hg.size_le
  fixed k j hf := (h.fixed k j hf).imp_right fun hk ht => (hk ht).extends hg.toExtends
  noted k hk := by
    have := h.noted k hk
    have := hg.size_le
    grind
  traced {k n} hn := by
    by_cases hle : k ≤ w.1.target.size
    · have hn' : b.node? k = some n := hn
      rw [hg.node?_eq hle] at hn'
      exact (h.traced hn').extends hg.toExtends
    · exact permits_of_allows (hg.allowed (Nat.lt_of_not_le hle) hn)
  fresh {k n} hn h0 := by
    by_cases hle : k ≤ w.1.target.size
    · have hn' : b.node? k = some n := hn
      rw [hg.node?_eq hle] at hn'
      exact (h.fresh hn' h0).extends hg.toExtends
    · exact hg.allowed (Nat.lt_of_not_le hle) hn
  state := hR hg.toExtends h.state

theorem Ready.grow (hR : R.Steady) (h : R.Ready p hs w F) {b : Builder} {G : List NodeId}
    (hg : R.mode.Grows w.1.target b) (hb : R.mode.Good b (R.tokens w.1 ++ G)) :
    R.Ready p hs ({ w.1 with target := b }, w.2) G :=
  ⟨h.toLaid.grow hR hg, hb⟩

theorem Ready.makes (hR : R.Steady) {step : Build α} {u : List NodeId} {gives : α → List NodeId}
    (hm : R.mode.Makes step u gives) (h : R.Ready p hs w (u ++ F)) :
    Runs (Edit.build step) w any fun a w' => R.Ready p hs w' (gives a ++ F) := by
  obtain ⟨a, b, hs, hb, hg⟩ := hm w.1.target (R.tokens w.1 ++ F) (h.good.weaken fun x => by
    simp only [List.count_append]
    omega)
  refine Account.runs_build hs (h.grow hR hg (hb.weaken fun x => ?_))
  simp only [List.count_append]
  omega

theorem runs_register {Q : PUnit → World κ σ → Prop} {r : Replacement κ} (g : NodeId → NodeId)
    (h : w.1.replacements i = none →
      Q ⟨⟩ ({ w.1 with replacements := update w.1.replacements i (some r) }, g)) :
    Runs (Edit.register i r) w any Q := by
  refine Runs.bind (Runs.get ?_)
  split
  · exact Runs.throw trivial
  · next hn => exact Runs.modify g (h (by simpa using hn))

/-- The check of a list element changes nothing. -/
theorem runs_checkElement (i : NodeId) : Runs (Edit.checkElement i) w any fun _ w' =>
    w' = w ∧ ∃ n, w.1.source.node? i = some n := by
  refine Runs.bind ((Account.runs_checkSource (.inr trivial)).mono ?_)
  rintro n _ ⟨rfl, hn, ht⟩
  rename_i w
  refine Runs.bind (Runs.get ?_)
  dsimp only
  split
  · split
    · exact Runs.pure w.2 ⟨rfl, n, hn⟩
    · exact Runs.throw trivial
  · exact Runs.throw trivial

theorem runs_checkTarget (j : NodeId) : Runs (Edit.checkTarget j) w any fun _ w' => w' = w := by
  refine Runs.bind (Runs.get ?_)
  split
  · exact Runs.pure w.2 rfl
  · exact Runs.throw trivial

theorem Laid.range (h : R.Laid p hs w) {n : Node} (hn : w.1.source.node? i = some n) :
    0 < i ∧ i ≤ p.size := by
  rw [h.source] at hn
  exact Arena.range_of_node? hn

/-- A registration that the regime allows. Nodes of the target may be noted with it. -/
theorem Laid.adds {s' : Session κ σ} {g : NodeId → NodeId} {l : List NodeId}
    (h : R.Laid p hs w) (ha : R.Adds w.1 s' i l) (hi : 0 < i ∧ i ≤ p.size)
    (hl : ∀ y ∈ l, 0 < y ∧ y ≤ w.1.target.size)
    (hr : ∀ hh, s'.replacements i = some (.handler hh) → R.replaced i hh)
    (hf : ∀ j, s'.replacements i = some (.fixed j) →
      g j = i ∧ (R.tidy → p.Kindred w.1.target.toArena i j))
    (hg : ∀ k, w.2 k ≠ 0 → g k = w.2 k)
    (hn : ∀ k, w.2 k = 0 → g k ≠ 0 → p.inTree (g k) = true ∧ 0 < k ∧ k ≤ w.1.target.size)
    (hk : R.keep s'.state w.1.target) : R.Laid p hs (s', g) where
  source := ha.source.trans h.source
  front := ha.front.trans h.front
  back := ha.back.trans h.back
  rule := by rw [ha.symbolRule]; exact h.rule
  replaced k hh hk := by
    by_cases hki : k = i
    · exact hki ▸ hr hh (hki ▸ hk)
    · exact h.replaced k hh ((ha.replacements k hki).symm.trans hk)
  handlers := ha.handlers.trans h.handlers
  anchored k hk := by
    by_cases hki : k = i
    · exact hki ▸ hi
    · exact h.anchored k (by rwa [← ha.registered k hki])
  free k y hy := by
    rw [ha.target]
    by_cases hki : k = i
    · subst hki
      have hnew := ha.new y
      have hpos := List.count_pos_iff.2 hy
      by_cases hm : y ∈ l
      · exact hl y hm
      · rw [List.count_eq_zero_of_not_mem hm] at hnew
        exact h.free k y (List.count_pos_iff.1 (Nat.lt_of_lt_of_le hpos hnew))
    · exact h.free k y (by rwa [← ha.registered k hki])
  fixed k j hk := by
    rw [ha.target]
    by_cases hki : k = i
    · exact hki ▸ hf j (hki ▸ hk)
    · have hk' : w.1.replacements k = some (.fixed j) := (ha.replacements k hki).symm.trans hk
      obtain ⟨hj, hkin⟩ := h.fixed k j hk'
      have h0 : k ≠ 0 :=
        Nat.ne_of_gt (h.anchored k (by simp [registered, Session.registered, hk'])).1
      exact ⟨(hg j (by rwa [hj])).trans hj, hkin⟩
  noted k hk := by
    rw [ha.target]
    by_cases h0 : w.2 k = 0
    · exact hn k h0 hk
    · simp only [hg k h0]
      exact h.noted k h0
  traced := by rw [ha.target]; exact h.traced
  fresh {k n} hn h0 := by
    rw [ha.target] at hn ⊢
    refine h.fresh hn ?_
    by_cases hk : w.2 k = 0
    · exact hk
    · exact absurd h0 (by rwa [show (s', g).2 k = w.2 k from hg k hk])
  state := by rw [ha.target]; exact hk

theorem Ready.adds {s' : Session κ σ} {g : NodeId → NodeId} {l : List NodeId}
    (h : R.Ready p hs w (l ++ F)) (ha : R.Adds w.1 s' i l) (hi : 0 < i ∧ i ≤ p.size)
    (hr : ∀ hh, s'.replacements i = some (.handler hh) → R.replaced i hh)
    (hf : ∀ j, s'.replacements i = some (.fixed j) →
      g j = i ∧ (R.tidy → p.Kindred w.1.target.toArena i j))
    (hg : ∀ k, w.2 k ≠ 0 → g k = w.2 k)
    (hn : ∀ k, w.2 k = 0 → g k ≠ 0 → p.inTree (g k) = true ∧ 0 < k ∧ k ≤ w.1.target.size)
    (hk : R.keep s'.state w.1.target) : R.Ready p hs (s', g) F := by
  refine ⟨h.toLaid.adds ha hi (fun y hy => h.good.free y (by simp [hy])) hr hf hg hn hk, ?_⟩
  rw [ha.target]
  refine h.good.weaken fun x => ?_
  have := ha.count_tokens x
  simp only [List.count_append]
  omega

/-- A node that becomes a new one. -/
theorem Ready.replace {j : NodeId} (hj : w.2 j = 0)
    (hk : R.tidy → p.NoStatement i) (h : R.Ready p hs w (j :: F)) :
    Runs (Edit.replace i j) w any fun _ w' => R.Ready p hs w' F := by
  have hfree := h.good.free j (by simp)
  unfold Edit.replace
  refine Runs.bind ((Account.runs_checkSource (.inr trivial)).mono ?_)
  rintro n _ ⟨rfl, hn, ht⟩
  rename_i w
  have hrest : Runs (Edit.register i (.fixed j)) w any fun _ w' => R.Ready p hs w' F := by
    refine runs_register (update w.2 j i) fun hnone =>
      h.adds (l := [j]) ?_ (h.range hn) ?_ ?_ ?_ ?_ h.state
    · refine ⟨rfl, rfl, rfl, rfl, rfl, rfl, fun k hki => update_of_ne _ _ hki, ?_,
        fun k hki => ?_, fun x => ?_⟩
      · simp [cuts, hnone]
      · simp only [registered, Session.registered, update_of_ne _ _ hki]
      · simp only [registered, Session.registered, update_self, hnone, List.count_append,
          List.count_nil]
        omega
    · simp
    · intro j' hf
      simp only [update_self, Option.some.injEq, Replacement.fixed.injEq] at hf
      subst hf
      exact ⟨by simp, fun ht => (hk ht).kindred⟩
    · intro k hk0
      exact update_of_ne _ _ fun he => hk0 (he ▸ hj)
    · intro k _ hg
      by_cases hkj : k = j
      · subst hkj
        rw [update_self, ← h.source]
        exact ⟨ht, hfree⟩
      · simp_all [update_of_ne _ _ hkj]
  rw [if_pos (Nat.ne_of_gt hfree.1)]
  refine Runs.bind ((runs_checkTarget j).mono ?_)
  rintro _ _ rfl
  exact hrest

theorem Ready.replaceBuilt (hR : R.Steady) {step : Build NodeId} (hm : R.mode.Yields step uses)
    (hk : R.tidy → p.NoStatement i) (h : R.Ready p hs w (uses ++ F)) :
    Runs (Edit.build step >>= fun j => Edit.replace i j) w any fun _ w' => R.Ready p hs w' F := by
  obtain ⟨j, b, hs, hb, hg, hlt⟩ := hm w.1.target (R.tokens w.1 ++ F) (h.good.weaken fun x => by
    simp only [List.count_append]
    omega)
  have h₁ := h.grow (G := j :: F) hR hg (hb.weaken fun x => by
    simp only [List.count_append, List.count_cons]
    omega)
  refine Runs.bind (Account.runs_build hs (h₁.replace ?_ hk))
  by_cases h0 : w.2 j = 0
  · exact h0
  · exact absurd (h.noted j h0).2.2 (Nat.not_le.2 hlt)

/-- The session in which a node becomes what a handler makes. -/
def replacing (w : World κ σ) (i : NodeId) (hh : κ) : World κ σ :=
  ({ w.1 with replacements := update w.1.replacements i (some (.handler hh)) }, w.2)

theorem adds_replacing (hh : κ) (hnone : w.1.replacements i = none) :
    R.Adds w.1 (replacing w i hh).1 i [] := by
  refine ⟨rfl, rfl, rfl, rfl, rfl, rfl, fun k hki => update_of_ne _ _ hki, ?_,
    fun k hki => ?_, fun x => ?_⟩
  · simp [cuts, hnone]
  · simp only [replacing, registered, Session.registered, update_of_ne _ _ hki]
  · simp [replacing, registered, Session.registered, hnone]

theorem Laid.replacing {hh : κ} (hr : R.replaced i hh) (hnone : w.1.replacements i = none)
    (hi : 0 < i ∧ i ≤ p.size) (h : R.Laid p hs w) : R.Laid p hs (Regime.replacing w i hh) := by
  refine h.adds (l := []) (adds_replacing _ hnone) hi (by simp) ?_ ?_ (fun _ _ => rfl) ?_ h.state
  · intro hh' he
    simp only [update_self, Option.some.injEq, Replacement.handler.injEq] at he
    exact he ▸ hr
  · simp
  · exact fun k h0 hk => absurd h0 hk

theorem runs_replaceWith {hh : κ} {Q : PUnit → World κ σ → Prop}
    (h : ∀ n, w.1.source.node? i = some n → w.1.replacements i = none → Q ⟨⟩ (replacing w i hh)) :
    Runs (Edit.replaceWith i hh) w any Q := by
  unfold Edit.replaceWith
  refine Runs.bind ((Account.runs_checkSource (.inr trivial)).mono ?_)
  rintro n _ ⟨rfl, hn, ht⟩
  rename_i w
  exact runs_register w.2 (h n hn)

/-- A node that becomes what a handler makes. -/
theorem Ready.replaceWith {hh : κ} (hr : R.replaced i hh) (h : R.Ready p hs w F) :
    Runs (Edit.replaceWith i hh) w any fun _ w' => R.Ready p hs w' F := by
  refine runs_replaceWith fun n hn hnone => ⟨h.toLaid.replacing hr hnone (h.range hn), ?_⟩
  refine h.good.weaken fun x => ?_
  have := (adds_replacing (R := R) hh hnone).count_tokens x
  simp only [List.count_append, List.count_nil] at this ⊢
  omega

/-- Elements that are left out do not matter before the copy. -/
theorem Ready.remove (h : R.Ready p hs w F) :
    Runs (Edit.remove i) w any fun _ w' => R.Ready p hs w' F := by
  unfold Edit.remove
  refine Runs.bind ((runs_checkElement i).mono ?_)
  rintro _ _ ⟨rfl, hn⟩
  rename_i w
  exact Runs.modify w.2
    ⟨⟨h.source, h.front, h.back, h.rule, h.replaced, h.handlers, h.anchored, h.free, h.fixed,
    h.noted, h.traced, h.fresh, h.state⟩, h.good⟩

theorem registered_remove (i : NodeId) :
    Runs (Edit.remove i) w any fun _ w' => R.registered w'.1 = R.registered w.1 := by
  unfold Edit.remove
  refine Runs.bind ((runs_checkElement i).mono ?_)
  rintro _ _ ⟨rfl, _⟩
  exact Runs.modify (fun _ => 0) rfl

/-- A step of the builder changes the target alone. -/
theorem runs_target (step : Build α) :
    Runs (Edit.build step) w any fun _ w' => ∃ b, w'.1 = { w.1 with target := b } := by
  cases hs : step w.1.target with
  | ok a b => exact Account.runs_build hs ⟨b, rfl⟩
  | error e b =>
    unfold Runs Edit.build
    simp only [hs]
    trivial

theorem registered_build (step : Build α) :
    Runs (Edit.build step) w any fun _ w' => R.registered w'.1 = R.registered w.1 :=
  (runs_target step).mono fun _ _ ⟨_, h⟩ => by rw [h]; rfl

theorem replacements_build (step : Build α) :
    Runs (Edit.build step) w any fun _ w' => w'.1.replacements = w.1.replacements :=
  (runs_target step).mono fun _ _ ⟨_, h⟩ => by rw [h]

theorem Ready.insertBefore {j : NodeId} (h : R.Ready p hs w (j :: F)) :
    Runs (Edit.insertBefore i j) w any fun _ w' => R.Ready p hs w' F := by
  unfold Edit.insertBefore
  refine Runs.bind ((runs_checkElement i).mono ?_)
  rintro _ _ ⟨rfl, n, hn⟩
  rename_i w
  refine Runs.bind ((runs_checkTarget j).mono ?_)
  rintro _ _ rfl
  rename_i w
  refine Runs.modify w.2
    (h.adds (l := [j]) ?_ (h.range hn) (h.replaced i) ?_ (fun _ _ => rfl) ?_ h.state)
  · refine ⟨rfl, rfl, rfl, rfl, rfl, rfl, fun _ _ => rfl, id, fun k hki => ?_, fun x => ?_⟩
    · simp only [registered, Session.registered, update_of_ne _ _ hki]
    · simp only [registered, Session.registered, update_self, List.count_append]
      omega
  · exact h.fixed i
  · exact fun k h0 hk => absurd h0 hk

theorem replacements_insertBefore (i j : NodeId) : Runs (Edit.insertBefore i j) w any fun _ w' =>
    w'.1.replacements = w.1.replacements := by
  unfold Edit.insertBefore
  refine Runs.bind ((runs_checkElement i).mono ?_)
  rintro _ _ ⟨rfl, _⟩
  rename_i w
  refine Runs.bind ((runs_checkTarget j).mono ?_)
  rintro _ _ rfl
  exact Runs.modify (fun _ => 0) rfl

theorem Ready.insertAfter {j : NodeId} (h : R.Ready p hs w (j :: F)) :
    Runs (Edit.insertAfter i j) w any fun _ w' => R.Ready p hs w' F := by
  unfold Edit.insertAfter
  refine Runs.bind ((runs_checkElement i).mono ?_)
  rintro _ _ ⟨rfl, n, hn⟩
  rename_i w
  refine Runs.bind ((runs_checkTarget j).mono ?_)
  rintro _ _ rfl
  rename_i w
  refine Runs.modify w.2
    (h.adds (l := [j]) ?_ (h.range hn) (h.replaced i) ?_ (fun _ _ => rfl) ?_ h.state)
  · refine ⟨rfl, rfl, rfl, rfl, rfl, rfl, fun _ _ => rfl, id, fun k hki => ?_, fun x => ?_⟩
    · simp only [registered, Session.registered, update_of_ne _ _ hki]
    · simp only [registered, Session.registered, update_self, List.count_append]
      omega
  · exact h.fixed i
  · exact fun k h0 hk => absurd h0 hk

theorem Ready.replaceAll {tag : Tag} {hh : κ} (h : R.Ready p hs w F) :
    Runs (Edit.replaceAll tag hh) w any fun _ w' => R.Ready p (hs ++ [(tag, hh)]) w' F := by
  unfold Edit.replaceAll
  refine Runs.bind (Runs.get ?_)
  split
  · exact Runs.throw trivial
  · exact Runs.modify w.2 { h with handlers := by rw [h.handlers] }

/-- The state takes some of the free nodes for a node of the source. -/
theorem Ready.setState {st : σ} {l : List NodeId} (hk : R.keep st w.1.target)
    (hi : 0 < i ∧ i ≤ p.size) (ho : ∀ k, k ≠ i → R.owned st k = R.owned w.1.state k)
    (hnew : ∀ x, (R.owned st i).count x ≤ (R.owned w.1.state i).count x + l.count x)
    (h : R.Ready p hs w (l ++ F)) : R.Ready p hs ({ w.1 with state := st }, w.2) F := by
  refine h.adds (l := l) ?_ hi (h.replaced i) (h.fixed i) (fun _ _ => rfl)
    (fun k h0 hk => absurd h0 hk) hk
  refine ⟨rfl, rfl, rfl, rfl, rfl, rfl, fun _ _ => rfl, id, fun k hki => ?_, fun x => ?_⟩
  · simp only [registered, Session.registered, ho k hki]
  · have := hnew x
    simp only [registered, Session.registered, List.count_append]
    omega

/-- A state that holds the same nodes. -/
theorem Ready.keepState {st : σ} (hk : R.keep st w.1.target) (ho : R.owned st = R.owned w.1.state)
    (h : R.Ready p hs w F) : R.Ready p hs ({ w.1 with state := st }, w.2) F := by
  have hreg : ∀ k, R.registered { w.1 with state := st } k = R.registered w.1 k := by
    intro k
    simp only [registered, Session.registered, ho]
  refine ⟨{ h.toLaid with state := hk, anchored := ?_, free := ?_ }, ?_⟩
  · exact fun k hk => h.anchored k (hreg k ▸ hk)
  · exact fun k y hy => h.free k y (hreg k ▸ hy)
  · have htokens : R.tokens { w.1 with state := st } = R.tokens w.1 := by
      unfold tokens
      congr 1
      funext k
      exact hreg k
    rw [htokens]
    exact h.good

theorem Ready.setSymbolRule {rule : SymbolRule} (ht : rule.Tame) (h : R.Ready p hs w F) :
    Runs (Edit.setSymbolRule rule) w any fun _ w' => R.Ready p hs w' F := by
  unfold Edit.setSymbolRule
  refine Runs.bind (Runs.get ?_)
  split
  · exact Runs.throw trivial
  · refine Runs.modify w.2 { h with rule := fun r hr => ?_ }
    cases hr
    exact ht

section Copying

variable {act : Act κ σ} {s : Session κ σ}

/-- What handlers have to keep under a regime. -/
theorem handledOwned
    (hrep : ∀ n i h node, (R.account s).Copies any (fun _ _ => True) act n → i ≠ 0 →
      s.source.inTree i = true → s.source.node? i = some node →
      s.replacements i = some (.handler h) → (R.account s).Turns any (act (Edit.copyTo act n) h i)
      ((R.account s).needs n h i node) (fun j => [j]) fun w j => (R.account s).Out w i j)
    (hfam : ∀ n i t h node, (R.account s).Copies any (fun _ _ => True) act n → i ≠ 0 →
      s.source.inTree i = true → s.source.node? i = some node →
      s.handlers.find? (fun (t, _) => node.shape.tag.is t) = some (t, h) →
      ∀ w F, (R.account s).Holds w (node.shape.slots.flatMap ((R.account s).around n) ++ F) →
        Runs (act (Edit.copyTo act n) h i) w any fun j w' => (j = 0 ∧ w' = w ∧ R.parts i) ∨ (j ≠ 0 ∧
          (R.account s).Holds w' (j :: F) ∧ (R.account s).Later w w' ∧ (R.account s).Out w' i j))
    (hparts : ∀ i node, s.source.node? i = some node →
      s.handlers.find? (fun (t, _) => node.shape.tag.is t) = none → R.parts i) :
    (R.account s).Handled any (fun _ _ => True) act where
  replaced n i h node hc _ := hrep n i h node hc
  family n i t h node hc _ h0 ht hn _ := hfam n i t h node hc h0 ht hn
  anew _ i node _ _ hn _ := hparts i node hn
  side _ _ _ _ _ _ _ hp := side_of_parts hp

/-- The same where the state holds no nodes and handlers may copy what lies below. -/
theorem handled (ho : R.owned = fun _ _ => []) (hstops : R.stops = fun _ => false)
    (hrep : ∀ n i h node, (R.account s).Copies any (fun _ _ => True) act n → i ≠ 0 →
      s.source.inTree i = true → s.source.node? i = some node →
      s.replacements i = some (.handler h) →
      (R.account s).Turns any (act (Edit.copyTo act n) h i)
      (node.shape.slots.flatMap ((R.account s).around n)) (fun j => [j]) fun w j =>
        (R.account s).Out w i j)
    (hfam : ∀ n i t h node, (R.account s).Copies any (fun _ _ => True) act n → i ≠ 0 →
      s.source.inTree i = true → s.source.node? i = some node →
      s.handlers.find? (fun (t, _) => node.shape.tag.is t) = some (t, h) →
      ∀ w F, (R.account s).Holds w (node.shape.slots.flatMap ((R.account s).around n) ++ F) →
        Runs (act (Edit.copyTo act n) h i) w any fun j w' => (j = 0 ∧ w' = w ∧ R.parts i) ∨ (j ≠ 0 ∧
          (R.account s).Holds w' (j :: F) ∧ (R.account s).Later w w' ∧ (R.account s).Out w' i j))
    (hparts : ∀ i node, s.source.node? i = some node →
      s.handlers.find? (fun (t, _) => node.shape.tag.is t) = none → R.parts i) :
    (R.account s).Handled any (fun _ _ => True) act := by
  refine handledOwned (fun n i h node hc h0 ht hn hr => ?_) hfam hparts
  have hneeds : (R.account s).needs n h i node =
      node.shape.slots.flatMap ((R.account s).around n) := by
    have h₁ : (R.account s).stops h = false := by rw [account, hstops]
    have h₂ : (R.account s).owned i = [] := by rw [account, ho]
    simp [Account.needs, h₁, h₂]
  rw [hneeds]
  exact hrep n i h node hc h0 ht hn hr

theorem handled_of_empty {R : Regime Empty σ} {act : Act Empty σ} {s : Session Empty σ}
    (hparts : ∀ i, R.parts i) : (R.account s).Handled any (fun _ _ => True) act :=
  handledOwned (fun _ _ h => nomatch h) (fun _ _ _ h => nomatch h) fun i _ _ _ => hparts i

/-- What a handler makes by a step of the builder. -/
theorem turns_built (hR : R.Steady) {step : Build NodeId} (hm : R.mode.Yields step uses)
    (h0 : 0 ∉ uses) (hi : i ≠ 0) (ht : s.source.inTree i = true)
    (hk : R.tidy → s.source.NoStatement i) :
    (R.account s).Turns any (Edit.build step) uses (fun j => [j]) fun w j =>
      (R.account s).Out w i j :=
  Account.turns_yields (stable hR s) hm h0 hi ht fun _ _ n hn ha =>
    ⟨⟨n, hn, permits_of_allows ha⟩, fun htidy => (hk htidy).kindred⟩

/-- A node made anew in spite of what is registered for it. -/
theorem turns_copyPlain (hR : R.Steady) (hp : p.Fit) (h : R.Laid p hs w) {n : Nat} {node : Node}
    (hc : (R.account w.1).Copies any (fun _ _ => True) act n) (hi : i ≠ 0)
    (ht : w.1.source.inTree i = true) (hn : w.1.source.node? i = some node) (hparts : R.parts i) :
    (R.account w.1).Turns any (Edit.copyPlain (Edit.copyTo act n) i)
      (node.shape.slots.flatMap ((R.account w.1).around n)) (fun j => [j])
      fun w' j => w'.2 j = i := by
  intro w' F' hw'
  unfold Edit.copyPlain
  rw [if_neg hi]
  refine Runs.bind ((Account.runs_checkSource (.inr trivial)).mono ?_)
  rintro node' _ ⟨rfl, hn', _⟩
  rw [hw'.tables.source] at hn'
  cases hn.symm.trans hn'
  refine (Account.copyParts (stable hR w.1) (plain hR h hp) hi hn ht hparts (fun _ => trivial)
    (fun c _ => hc c trivial) _ F' hw').mono ?_
  rintro j w'' ⟨hw'', hle, hj, _⟩
  exact ⟨hw'', hle, hj⟩

/-- A copy that is made while changes are being registered. -/
theorem Laid.copy (hR : R.Steady) (hp : p.Fit) (h : R.Laid p hs w)
    (hH : (R.account w.1).Handled any (fun _ _ => True) act)
    (hw : R.mode.Good w.1.target
      (((R.account w.1).below (R.account w.1).depth i ++ F).filter (· ≠ 0))) :
    Runs (Edit.copy act i) w any fun j w' => R.Laid p hs w' ∧
      R.mode.Good w'.1.target ((j :: F).filter (· ≠ 0)) ∧ w.1.SameTables w'.1 ∧
      R.registered w'.1 = R.registered w.1 ∧ (i ≠ 0 → j ≠ 0) := by
  refine (Account.turns_copy (Account.copies (stable hR w.1) (plain hR h hp) (reach w.1) hH _)
    trivial w F (h.holds hw)).mono ?_
  rintro j w' ⟨hw', hle, hout⟩
  have htables := hle.tables
  have hsize := hle.target.size_le
  have hreg : R.registered w'.1 = R.registered w.1 := by
    funext k
    simp only [registered, Session.registered, htables.before, htables.after, htables.replacements,
      hw'.state.2.1]
  refine ⟨⟨htables.source.trans h.source, htables.front.trans h.front,
    htables.back.trans h.back, ?_, ?_,
    htables.handlers.trans h.handlers, ?_, ?_, ?_, ?_, ?_, hw'.fresh, hw'.state.1⟩, hw'.good,
    htables, hreg, hout.ne_zero hw'⟩
  · rw [htables.symbolRule]
    exact h.rule
  · rw [htables.replacements]
    exact h.replaced
  · rw [hreg]
    exact h.anchored
  · rw [hreg]
    exact fun k y hy => (h.free k y hy).imp_right fun hle => Nat.le_trans hle hsize
  · intro k j' hf
    rw [htables.replacements] at hf
    rcases hw'.fixed k j' hf with ⟨h0, _⟩ | ⟨_, hj, hside⟩
    · have hk : R.registered w.1 k ≠ [] := by simp [registered, Session.registered, hf]
      exact absurd h0 (Nat.ne_of_gt (h.anchored k hk).1)
    · refine ⟨hj, fun ht => ?_⟩
      rw [← h.source]
      exact hside ht
  · intro k hk
    refine ⟨?_, hw'.range k hk⟩
    rw [← h.source]
    exact (hw'.traced k hk).1
  · exact fun hn => permits_of_holds h.source hw' hn

theorem tokens_congr {s s' : Session κ σ} (ht : s.SameTables s')
    (hr : R.registered s' = R.registered s) : R.tokens s' = R.tokens s := by
  have hlive : R.Live s' = R.Live s := by
    funext k
    simp only [Live, cuts, ht.source, ht.replacements]
  unfold tokens
  rw [hlive, ht.source, hr]

/-- A copy that uses up nothing. -/
theorem Ready.copy (hR : R.Steady) (hp : p.Fit) (hi : i ≠ 0) (h : R.Ready p hs w F)
    (hH : (R.account w.1).Handled any (fun _ _ => True) act)
    (hb : (R.account w.1).below (R.account w.1).depth i = []) :
    Runs (Edit.copy act i) w any fun j w' => R.Ready p hs w' (j :: F) ∧
      R.registered w'.1 = R.registered w.1 := by
  have h0 : 0 ∉ R.tokens w.1 ++ F := fun h0 => Nat.lt_irrefl 0 (h.good.free 0 h0).1
  refine (h.toLaid.copy (F := R.tokens w.1 ++ F) hR hp hH ?_).mono ?_
  · rw [hb, List.nil_append, Account.filter_ne_zero h0]
    exact h.good
  · rintro j w' ⟨hlaid, hgood, htables, hreg, hj⟩
    refine ⟨⟨hlaid, ?_⟩, hreg⟩
    rw [Account.filter_ne_zero (List.not_mem_cons_of_ne_of_not_mem (hj hi).symm h0)] at hgood
    rw [tokens_congr htables hreg]
    exact hgood.weaken fun x => Nat.le_of_eq (List.perm_middle.count_eq x)

/-- What the copy of a node uses up is not used again once the copies stop at the node. -/
theorem count_replacing (hp : p.Fit) (hc : p.Counted) (h : R.Laid p hs w) {hh : κ}
    (hstops : R.stops hh = true) (hi : 0 < i ∧ i < p.root) (hnone : w.1.replacements i = none)
    (hlive : R.Live w.1 i) (n : Nat) (x : NodeId) :
    ((R.account w.1).below n i).count x + (R.tokens (replacing w i hh).1).count x ≤
    (R.tokens w.1).count x := by
  classical
  have hadds := adds_replacing (R := R) hh hnone
  have hcut : R.cuts w.1 i = false := by simp [cuts, hnone]
  have hcut' : R.cuts (replacing w i hh).1 i = true := by simp [cuts, replacing, hstops]
  cases n with
  | zero => simpa [Account.below] using hadds.count_tokens x
  | succ n =>
    have hbelow : (R.account w.1).below (n + 1) i =
        (w.1.source.slotsOf i).flatMap ((R.account w.1).around n) := by
      have : (R.account w.1).base.replacements i = none := hnone
      simp only [Account.below, this]
      rfl
    have hreg : R.registered (replacing w i hh).1 = R.registered w.1 := by
      funext k
      by_cases hki : k = i
      · subst hki
        simp [replacing, registered, Session.registered, hnone]
      · exact hadds.registered k hki
    have hcount : (((w.1.source.slotsOf i).flatMap (R.walk w.1 n) ++
        w.1.source.ids.filter (R.Live (replacing w i hh).1 ·)).flatMap (R.registered w.1)).count x ≤
        (R.tokens w.1).count x := by
      refine count_flatMap_le fun k hk => ?_
      have hrange := h.anchored k (List.ne_nil_of_mem hk)
      have h0 : k ≠ 0 := Nat.ne_of_gt hrange.1
      rw [List.count_append]
      by_cases hm : k ∈ (w.1.source.slotsOf i).flatMap (R.walk w.1 n)
      · have hwalk : k ∈ R.walk w.1 (n + 1) i := by
          rw [walk, hcut]
          exact List.mem_cons_of_mem _ hm
        have hlivek := live_of_mem_walk hc h.source hlive hwalk h0
        have hone : (p.visits (n + 1) i).count k ≤ 1 := hc.visits hp (n + 1) i h0
        have hle := count_walk_le (R := R) w.1 (n + 1) i k
        rw [h.source] at hle
        have hnot : ¬ R.Live (replacing w i hh).1 k := by
          intro hl
          obtain ⟨c, hcm, hkc⟩ := List.mem_flatMap.1 hm
          have hne : c ≠ 0 := by
            rintro rfl
            rw [walk_zero, List.mem_singleton] at hkc
            exact h0 hkc
          rw [h.source] at hcm
          obtain ⟨node, hn, hcn⟩ := Arena.mem_slotsOf hcm
          have hroot : i ≠ (replacing w i hh).1.source.root := by
            change i ≠ w.1.source.root
            rw [h.source]
            exact Nat.ne_of_lt hi.2
          refine hl i hroot hcut' ⟨c, ?_, ?_⟩
          · change c ∈ w.1.source.children i
            rw [h.source]
            exact Arena.mem_children.2 ⟨node, hn, hcn, hne⟩
          · change w.1.source.Below c k
            rw [h.source]
            exact below_of_mem_walk h.source hkc h0
        have hzero : (w.1.source.ids.filter (R.Live (replacing w i hh).1 ·)).count k = 0 :=
          List.count_eq_zero.2 fun hmem => hnot (by simpa using (List.mem_filter.1 hmem).2)
        rw [hzero, List.count_filter (by simpa using hlivek), h.source,
          Arena.count_ids hrange.1 hrange.2]
        have hsub : ((w.1.source.slotsOf i).flatMap (R.walk w.1 n)).count k ≤
            (R.walk w.1 (n + 1) i).count k := by
          rw [walk, hcut]
          simp only [List.count_cons, Bool.false_eq_true, if_false]
          omega
        rw [h.source] at hsub
        omega
      · rw [List.count_eq_zero_of_not_mem hm, Nat.zero_add]
        by_cases hl : R.Live (replacing w i hh).1 k
        · refine Nat.le_of_eq ?_
          rw [List.count_filter (by simpa using hl),
            List.count_filter (by simpa using hadds.live hl)]
        · rw [List.count_eq_zero.2 fun hmem => hl (by simpa using (List.mem_filter.1 hmem).2)]
          exact Nat.zero_le _
    have hle := count_flatMap_around_le (R := R) w.1 n (w.1.source.slotsOf i) x
    rw [hbelow, tokens, hreg]
    rw [List.flatMap_append, List.count_append] at hcount
    exact Nat.le_trans (Nat.add_le_add_right hle _) hcount

/-- A copy of a node at which all later copies stop. -/
theorem Ready.copyReplacing (hh : κ) (hR : R.Steady) (hp : p.Fit) (hc : R.counted → p.Counted)
    (h : R.Ready p hs w F) (hH : (R.account w.1).Handled any (fun _ _ => True) act)
    (hstops : R.stops hh = true) (hr : R.replaced i hh) (hi : 0 < i ∧ i < p.root)
    (hnone : w.1.replacements i = none) (hlive : R.counted → R.Live w.1 i) :
    Runs (Edit.copy act i) w any fun j w' => R.Ready p hs (replacing w' i hh) (j :: F) ∧
      w.1.SameTables w'.1 := by
  have hfree : ∀ x ∈ R.tokens (replacing w i hh).1 ++ F, 0 < x ∧ x ≤ w.1.target.size := by
    intro x hx
    rcases List.mem_append.1 hx with hx | hx
    · have hle := (adds_replacing (R := R) hh hnone).count_tokens x
      have hm : x ∈ R.tokens w.1 :=
        List.count_pos_iff.1 (Nat.lt_of_lt_of_le (List.count_pos_iff.2 hx) (by simpa using hle))
      exact h.good.free x (by simp [hm])
    · exact h.good.free x (by simp [hx])
  have h0 : 0 ∉ R.tokens (replacing w i hh).1 ++ F := fun h0 => Nat.lt_irrefl 0 (hfree 0 h0).1
  refine (h.toLaid.copy (i := i) (F := R.tokens (replacing w i hh).1 ++ F) hR hp hH ?_).mono ?_
  · by_cases hk : R.counted
    · refine h.good.weaken fun x => ?_
      have := count_replacing hp (hc hk) h.toLaid hstops hi hnone (hlive hk) (R.account w.1).depth x
      have :=
        (List.filter_sublist (p := (· ≠ 0)) (l := (R.account w.1).below (R.account w.1).depth i ++
        (R.tokens (replacing w i hh).1 ++ F))).count_le x
      simp only [List.count_append] at this ⊢
      omega
    · refine h.good.again hk fun x hx => ?_
      obtain ⟨hx, _⟩ := List.mem_filter.1 hx
      rcases List.mem_append.1 hx with hx | hx
      · exact h.mem_around (List.mem_append_right _ hx)
      · exact hfree x hx
  · rintro j w' ⟨hlaid, hgood, htables, hreg, hj⟩
    have hnone' : w'.1.replacements i = none := by rw [htables.replacements, hnone]
    refine ⟨⟨hlaid.replacing hr hnone' ⟨hi.1, hp.root ▸ Nat.le_of_lt hi.2⟩, ?_⟩, htables⟩
    have htokens : R.tokens (replacing w' i hh).1 = R.tokens (replacing w i hh).1 := by
      refine tokens_congr ⟨htables.source, ?_, htables.removed, htables.before, htables.after,
        htables.front, htables.back, htables.handlers, htables.symbolRule⟩ ?_
      · simp only [replacing, htables.replacements]
      · funext k
        have hk := congrFun hreg k
        by_cases hki : k = i
        · subst hki
          simpa [replacing, registered, Session.registered, hnone, hnone'] using hk
        · rw [(adds_replacing _ hnone').registered k hki, (adds_replacing _ hnone).registered k hki,
            hk]
    rw [htokens]
    rw [Account.filter_ne_zero
      (List.not_mem_cons_of_ne_of_not_mem (hj (Nat.ne_of_gt hi.1)).symm h0)] at hgood
    exact hgood.weaken fun x => Nat.le_of_eq (List.perm_middle.count_eq x)

end Copying

variable (R) in
/-- What is known once a pass is done: its target is finished, and what it puts out says nothing
about what passes ask for. -/
structure Done (p : Program) (out : Data) (b : Builder) : Prop extends Finished R p b where
  silent : ∀ t, t ≠ .firstIndexData → t ≠ .renamed → out.get? t = none

end Copy.Regime

/-- One payload says nothing on other topics. -/
theorem Data.get?_put_of_ne {t u : Topic} (v : Payload u) (h : t ≠ u) :
    (Exchange.put ({} : Data) u v).get? t = none := by
  simp [Exchange.put, Exchange.has, Exchange.get?, Exchange.payload?, h.symm]

namespace Work

variable {κ σ α : Type} {w : Copy.World κ σ} {E : Stop → Prop} {Q : α → Copy.World κ σ → Prop}

theorem runs_edit {step : Copy.Edit κ σ α} (h : Runs step w (fun m => E (.misuse m)) Q) :
    Runs (Work.edit step) w E Q := by
  unfold Runs Work.edit at *
  cases hs : step w.1 with
  | ok a s =>
    rw [hs] at h
    exact h
  | error e s =>
    rw [hs] at h
    exact h

theorem runs_need {π : Type} {problem : PassProblem} {x : Option π} {Q : π → Copy.World κ σ → Prop}
    (hp : E (.problem problem)) (h : ∀ y, x = some y → Q y w) :
    Runs (Work.need problem x) w E Q := by
  cases x with
  | none => exact Runs.throw hp
  | some y => exact Runs.pure w.2 (h y rfl)

end Work

/-- What a pass makes of a program: the program itself with more diagnostics, or what its work
leaves in the target. -/
theorem Pass.apply_program {κ σ : Type} {t : Pass} {p : Program} {inputs : Data} {out : Output}
    {work : Work κ σ Data} {state : σ} {P : Data → Builder → Prop}
    (hrun : t.run p inputs = work.perform p state)
    (h : Runs work ((Copy.Session.start p state, fun _ => 0) : Copy.World κ σ) (fun _ => True)
      fun out w => P out w.1.target)
    (hout : t.apply p inputs = .ok out) :
    (out.data = {} ∧ ∃ ds, out.program = p.withDiagnostics ds) ∨
      ∃ b, P out.data b ∧ out.program = b.build := by
  unfold Pass.apply Result.outcome at hout
  split at hout
  · cases hout
    exact .inl ⟨rfl, [], (Program.withDiagnostics_nil p).symm⟩
  · rw [hrun] at hout
    unfold Work.perform at hout
    unfold Runs at h
    split at h
    · next outputs s hs =>
      simp only [hs] at hout
      split at hout
      · cases hout
        obtain ⟨_, hP⟩ := h
        exact .inr ⟨s.target, hP, rfl⟩
      · cases hout
    · next e s hs =>
      cases e with
      | misuse m =>
        simp only [hs] at hout
        cases hout
      | problem problem =>
        simp only [hs] at hout
        cases hout
        exact .inl ⟨rfl, _, rfl⟩

end ShaderLoom
