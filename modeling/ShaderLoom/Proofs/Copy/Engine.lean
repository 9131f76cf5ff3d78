import ShaderLoom.Proofs.Copy.Account

/-! The engine keeps every account: one level of copying after another, from the parts of a node to
the whole module. -/
namespace ShaderLoom.Copy

variable {κ σ α β : Type}

namespace Account

variable {A : Account κ σ} {w : World κ σ} {l F : List NodeId} {E : Misuse → Prop}

/-- A step turns what it uses into what it gives, and the account stays right. -/
def Turns (A : Account κ σ) (E : Misuse → Prop) (step : Edit κ σ α) (uses : List NodeId)
    (gives : α → List NodeId) (R : World κ σ → α → Prop) : Prop :=
  ∀ w F, A.Holds w (uses ++ F) →
    Runs step w E fun a w' => A.Holds w' (gives a ++ F) ∧ A.Later w w' ∧ R w' a

theorem Turns.weaken {step : Edit κ σ α} {u uses : List NodeId} {gives : α → List NodeId}
    {R : World κ σ → α → Prop} (h : A.Turns E step u gives R)
    (hu : ∀ x, u.count x ≤ uses.count x) : A.Turns E step uses gives R := by
  intro w F hw
  refine h w F (hw.weaken fun x => ?_)
  have := hu x
  simp only [List.count_append]
  omega

theorem Turns.bind {step : Edit κ σ α} {next : α → Edit κ σ β} {uses : List NodeId}
    {gives : α → List NodeId} {R : World κ σ → α → Prop} (h : A.Turns E step uses gives R)
    {Q : β → World κ σ → Prop} (F : List NodeId) (hw : A.Holds w l)
    (hl : ∀ x, (uses ++ F).count x ≤ l.count x)
    (hnext : ∀ a w', A.Holds w' (gives a ++ F) → A.Later w w' → R w' a → Runs (next a) w' E Q) :
    Runs (step >>= next) w E Q :=
  Runs.bind ((h w F (hw.weaken hl)).mono fun a w' ⟨hi, hle, hr⟩ => hnext a w' hi hle hr)

/-- A step that uses and gives nothing comes first. -/
theorem Turns.first {step : Edit κ σ α} {next : α → Edit κ σ β} {uses : List NodeId}
    {gives : β → List NodeId} {R : World κ σ → α → Prop} {R' : World κ σ → β → Prop}
    (h : A.Turns E step [] (fun _ => []) R) (hn : ∀ a, A.Turns E (next a) uses gives R') :
    A.Turns E (step >>= next) uses gives R' := by
  intro w F hw
  refine h.bind (uses ++ F) hw (fun _ => Nat.le_refl _) fun a w₁ h₁ l₁ _ => ?_
  exact (hn a w₁ F h₁).mono fun b w₂ ⟨h₂, l₂, hr⟩ => ⟨h₂, l₁.trans l₂, hr⟩

theorem Turns.pure {a : α} : A.Turns E (pure a) [] (fun _ => []) fun _ _ => True :=
  fun w _ hw => Runs.pure w.2 ⟨hw, .refl w, trivial⟩

theorem filter_ne_zero {xs : List NodeId} (h0 : 0 ∉ xs) : xs.filter (· ≠ 0) = xs := by
  refine List.filter_eq_self.2 fun x hx => ?_
  simpa using fun he : x = 0 => h0 (he ▸ hx)

/-- What is free is free for a step of the builder, absent nodes aside. -/
theorem Holds.good_append {uses : List NodeId} (hw : A.Holds w (uses ++ F)) (h0 : 0 ∉ uses) :
    A.mode.Good w.1.target (uses ++ F.filter (· ≠ 0)) := by
  have hg := hw.good
  rwa [List.filter_append, filter_ne_zero h0] at hg

/-- A step of the builder runs on the target. -/
theorem Holds.build (hA : A.Stable) {step : Build α} {uses : List NodeId} {gives : α → List NodeId}
    (hm : A.mode.Makes step uses gives) (h0 : 0 ∉ uses) (hw : A.Holds w (uses ++ F)) :
    ∃ a b, step w.1.target = .ok a b ∧ A.Holds ({ w.1 with target := b }, w.2) (gives a ++ F) ∧
      A.Later w ({ w.1 with target := b }, w.2) ∧ A.mode.Grows w.1.target b := by
  obtain ⟨a, b, hs, hb, hgrow⟩ := hm _ _ (hw.good_append h0)
  have hb' : A.mode.Good b ((gives a ++ F).filter (· ≠ 0)) := by
    refine hb.weaken fun x => ?_
    rw [List.filter_append, List.count_append, List.count_append]
    have := (List.filter_sublist (p := (· ≠ 0)) (l := gives a)).count_le x
    omega
  obtain ⟨hh, hl⟩ := hw.grow hA hgrow hb'
  exact ⟨a, b, hs, hh, hl, hgrow⟩

theorem runs_build {step : Build α} {a : α} {b : Builder} {Q : α → World κ σ → Prop}
    (hs : step w.1.target = .ok a b) (hq : Q a ({ w.1 with target := b }, w.2)) :
    Runs (Edit.build step) w E Q := by
  refine Runs.of_ok (a := a) (s := { w.1 with target := b }) ?_ w.2 hq
  simp only [Edit.build, hs]

theorem turns_makes (hA : A.Stable) {step : Build α} {uses : List NodeId} {gives : α → List NodeId}
    (hm : A.mode.Makes step uses gives) (h0 : 0 ∉ uses) :
    A.Turns E (Edit.build step) uses gives fun _ _ => True := by
  intro w F hw
  obtain ⟨a, b, hs, hw', hle, _⟩ := hw.build hA hm h0
  exact runs_build hs ⟨hw', hle, trivial⟩

/-- A step of the builder that makes a new node. -/
theorem runs_new (hA : A.Stable) {step : Build NodeId} {uses : List NodeId}
    (hm : A.mode.YieldsAt w.1.target step uses) (h0 : 0 ∉ uses) (hw : A.Holds w (uses ++ F)) :
    Runs (Edit.build step) w E fun j w' => A.Holds w' (j :: F) ∧ A.Later w w' ∧ j ≠ 0 ∧
      w'.2 j = 0 := by
  obtain ⟨j, b, hs, hb, hgrow, hlt⟩ := hm _ (hw.good_append h0)
  have hj : j ≠ 0 := Nat.ne_of_gt (Nat.lt_of_le_of_lt (Nat.zero_le _) hlt)
  obtain ⟨hh, hl⟩ := hw.grow (m := j :: F) hA hgrow (by
    rwa [List.filter_cons_of_pos (by simpa using hj)])
  refine runs_build hs ⟨hh, hl, hj, ?_⟩
  by_cases hj : w.2 j = 0
  · exact hj
  · exact absurd (hw.range j hj).2 (Nat.not_le.2 hlt)

theorem turns_new (hA : A.Stable) {step : Build NodeId} {uses : List NodeId}
    (hm : A.mode.Yields step uses) (h0 : 0 ∉ uses) :
    A.Turns E (Edit.build step) uses (fun j => [j]) fun w j => j ≠ 0 ∧ w.2 j = 0 :=
  fun w _ hw => runs_new hA (hm w.1.target) h0 hw

/-- A new node is what becomes of a node. -/
theorem Holds.became (hA : A.Stable) {i j : NodeId} (hw : A.Holds w (j :: F)) (hj0 : j ≠ 0)
    (hj : w.2 j = 0) (hi : i ≠ 0) (ht : A.base.source.inTree i = true)
    (hd : ∀ w' n, w'.1 = w.1 → w.1.target.node? j = some n → A.mode.Allows w.1.target n.shape →
      A.special w' i j ∧ A.side w' i j) :
    A.Holds (Account.note w i j) (j :: F) ∧ A.Later w (Account.note w i j) ∧
    A.Out (Account.note w i j) i j := by
  have hrange : 0 < j ∧ j ≤ w.1.target.size := hw.good.free j (by simpa using hj0)
  obtain ⟨n, hn⟩ := Option.isSome_iff_exists.1 (Arena.node?_isSome_iff.2 hrange)
  obtain ⟨hspecial, hside⟩ := hd (Account.note w i j) n rfl hn (hw.fresh hn hj)
  obtain ⟨hw', hle⟩ := hw.note hA hi hj hrange ht (.inr hspecial)
  exact ⟨hw', hle, .inr ⟨hi, by simp [Account.note], hside⟩⟩

/-- A step of the builder that makes what becomes of a node. -/
theorem turns_yields (hA : A.Stable) {step : Build NodeId} {uses : List NodeId} {i : NodeId}
    (hm : A.mode.Yields step uses) (h0 : 0 ∉ uses) (hi : i ≠ 0) (ht : A.base.source.inTree i = true)
    (hd : ∀ w j n, w.1.target.node? j = some n → A.mode.Allows w.1.target n.shape →
      A.special w i j ∧ A.side w i j) :
    A.Turns E (Edit.build step) uses (fun j => [j]) fun w j => A.Out w i j := by
  intro w F hw
  refine (runs_new hA (hm w.1.target) h0 hw).renote fun j w' ⟨hw', hle, hj0, hj⟩ =>
    ⟨(Account.note w' i j).2, ?_⟩
  obtain ⟨hw'', hle', ho⟩ := hw'.became hA hj0 hj hi ht fun v n hv hn ha => by
    rw [← hv] at hn ha
    exact hd v j n hn ha
  exact ⟨hw'', hle.trans hle', ho⟩

/-- The same, where what is known of the node is read off the step. -/
theorem turns_make (hA : A.Stable) {step : Build NodeId} {i : NodeId} (hm : A.mode.Yields step [])
    (hi : i ≠ 0) (ht : A.base.source.inTree i = true)
    (hd : ∀ (w : World κ σ) b j, step b = .ok j w.1.target → A.special w i j ∧ A.side w i j) :
    A.Turns E (Edit.build step) [] (fun j => [j]) fun w j => A.Out w i j := by
  intro w F hw
  obtain ⟨j, b, hs, hb, hgrow, hlt⟩ := hm w.1.target _ (hw.good_append (by simp))
  have hj0 : j ≠ 0 := Nat.ne_of_gt (Nat.lt_of_le_of_lt (Nat.zero_le _) hlt)
  obtain ⟨hh, hl⟩ := hw.grow (m := j :: F) hA hgrow (by
    rwa [List.filter_cons_of_pos (by simpa using hj0)])
  have hj : w.2 j = 0 := by
    by_cases hj : w.2 j = 0
    · exact hj
    · exact absurd (hw.range j hj).2 (Nat.not_le.2 hlt)
  obtain ⟨hh', hl', ho⟩ := hh.became hA hj0 hj hi ht fun v n hv _ _ =>
    hd v w.1.target j (by rw [hs, hv])
  refine Runs.of_ok (s := { w.1 with target := b }) ?_ _ ⟨hh', hl.trans hl', ho⟩
  simp only [Edit.build, hs]

/-- A symbol stays what it is where nothing was said of symbols. -/
theorem turns_keep {s : Symbol} (hrule : A.base.symbolRule = none) (h0 : s ≠ 0)
    (hstate : ∀ w, A.state w → w.1.symbols = [] ∧ A.name w s s) :
    A.Turns E (Edit.copySymbol s) [] (fun _ => []) fun w t => A.name w s t := by
  intro w F hw
  obtain ⟨hnone, hname⟩ := hstate w hw.state
  unfold Edit.copySymbol
  rw [if_neg h0]
  refine Runs.bind (Runs.get ?_)
  have hrule : w.1.symbolRule = none := hw.tables.symbolRule.trans hrule
  simp only [hnone, hrule, List.lookup_nil]
  exact Runs.pure w.2 ⟨hw, .refl w, hname⟩

section Lists

variable {copy : NodeId → Edit κ σ NodeId} {n : Nat}

/-- Adding nodes to a list changes nothing else. -/
theorem runs_append (xs out : List NodeId) (w : World κ σ) :
    Runs (xs.foldlM (fun out id => (pure (out ++ [id]) : Edit κ σ (List NodeId))) out) w E
      fun ys w' => ys = out ++ xs ∧ w' = w := by
  induction xs generalizing out with
  | nil => exact Runs.pure w.2 ⟨by simp, rfl⟩
  | cons x xs ih =>
    rw [List.foldlM_cons]
    refine Runs.bind (Runs.pure w.2 ((ih (out ++ [x])).mono fun ys w' h => ?_))
    simpa using h

/-- The elements of a list, copied one after another. -/
theorem copyElements {ids : List NodeId} (hA : A.Stable)
    (hcopy : ∀ c ∈ ids, A.Turns E (copy c) (A.below n c) (fun d => [d]) fun w d => A.Out w c d)
    (hne : ∀ c ∈ ids, c ≠ 0) (out : List NodeId) (hw : A.Holds w (ids.flatMap (A.around n) ++ F)) :
    Runs (Edit.foldElements copy (fun out id => pure (out ++ [id])) ids out) w E fun ys w' =>
      ∃ zs, ys = out ++ zs ∧ A.Holds w' (zs ++ F) ∧ A.Later w w' ∧ A.Lists w' ids zs := by
  induction ids generalizing w out F with
  | nil => exact Runs.pure w.2 ⟨[], by simp, by simpa using hw, .refl w, .nil, .nil⟩
  | cons c cs ih =>
    have htables := hw.tables
    refine Runs.bind (Runs.get (Runs.bind ((runs_append _ out w).mono ?_)))
    rintro _ _ ⟨rfl, rfl⟩
    rename_i w
    have hb : w.1.before c = A.base.before c := by rw [htables.before]
    -- Once the element is copied or left out, what stands after it and the rest of the list follow.
    have hrest : ∀ zs w₁,
        A.Holds w₁ (zs ++ (A.base.before c ++ A.base.after c ++ cs.flatMap (A.around n) ++ F)) →
        A.Later w w₁ → ((A.gone c ∧ zs = []) ∨ ∃ d, ¬ A.gone c ∧ A.Out w₁ c d ∧ zs = [d]) →
        Runs (do
          let b ← ((← get).after c).foldlM (fun out id => pure (out ++ [id]))
              (out ++ w.1.before c ++ zs)
          Edit.foldElements copy (fun out id => pure (out ++ [id])) cs b) w₁ E
        fun ys w' => ∃ zs, ys = out ++ zs ∧ A.Holds w' (zs ++ F) ∧ A.Later w w' ∧
          A.Lists w' (c :: cs) zs := by
      intro zs w₁ h₁ hle₁ hl₁
      have ha : w₁.1.after c = A.base.after c := by rw [h₁.tables.after]
      refine Runs.bind (Runs.get (Runs.bind ((runs_append _ _ w₁).mono ?_)))
      rintro _ _ ⟨rfl, rfl⟩
      rename_i w₁
      refine (ih (F := A.base.before c ++ zs ++ A.base.after c ++ F)
        (fun d hd => hcopy d (by simp [hd]))
        (fun d hd => hne d (by simp [hd])) _ (h₁.weaken ?_)).mono ?_
      · intro x
        simp only [List.count_append]
        omega
      · rintro _ w₂ ⟨us, rfl, h₂, hle₂, hl₂⟩
        refine ⟨A.base.before c ++ zs ++ A.base.after c ++ us, ?_, h₂.weaken ?_,
          hle₁.trans hle₂, ?_⟩
        · simp only [hb, ha, List.append_assoc]
        · intro x
          simp only [List.count_append]
          omega
        · have hin : ∀ y ∈ A.base.before c ++ A.base.after c, y ≠ 0 ∧ A.extra w₂ y := h₂.inserted c
          have hbefore :
              Listed (fun y => y ≠ 0 ∧ A.extra w₂ y) A.gone (A.Out w₂) [] (A.base.before c) :=
            .inserts fun y hy => hin y (by simp [hy])
          have hafter : Listed (fun y => y ≠ 0 ∧ A.extra w₂ y) A.gone (A.Out w₂)
              [] (A.base.after c) :=
            .inserts fun y hy => hin y (by simp [hy])
          rcases hl₁ with ⟨hgone, rfl⟩ | ⟨d, hgone, ho, rfl⟩
          · refine ⟨?_, by simpa using hl₂.flanked.drop hgone⟩
            simpa using ((hbefore.append (.drop hgone .nil)).append hafter).append hl₂.listed
          · have ho₂ := ho.grown hA hle₂.toGrown
            refine ⟨?_, by simpa using hl₂.flanked.keep hgone ho₂⟩
            simpa using ((hbefore.append (.keep hgone ho₂ .nil)).append hafter).append hl₂.listed
    refine Runs.bind (Runs.get ?_)
    dsimp only
    split
    · next hgone =>
      refine Runs.bind (Runs.pure w.2 ?_)
      rw [← List.append_nil (out ++ w.1.before c)]
      refine hrest [] w (hw.weaken ?_) (.refl w) (.inl ⟨?_, rfl⟩)
      · intro x
        simp only [List.flatMap_cons, around, List.count_append, List.count_nil]
        omega
      · rwa [gone, ← htables.removed]
    · next hgone =>
      refine (hcopy c (by simp)).bind (A.base.before c ++ A.base.after c ++
        cs.flatMap (A.around n) ++ F) hw ?_ fun d w₁ h₁ hle ho => ?_
      · intro x
        simp only [List.flatMap_cons, around, List.count_append]
        omega
      · have hd : d ≠ 0 := by
          rcases ho with ⟨h0, _⟩ | ⟨h0, hd, _⟩
          · exact absurd h0 (hne c (by simp))
          · exact Nat.ne_of_gt (h₁.range d (by rwa [hd])).1
        rw [if_neg hd]
        refine Runs.bind (Runs.pure w₁.2 (hrest [d] w₁ h₁ hle (.inr ⟨d, ?_, ho, rfl⟩)))
        rwa [gone, ← htables.removed]

theorem copyListOf {ids : List NodeId} (hA : A.Stable) (hfront : A.base.front = fun _ _ => [])
    (hback : A.base.back = fun _ _ => [])
    (hcopy : ∀ c ∈ ids, A.Turns E (copy c) (A.below n c) (fun d => [d]) fun w d => A.Out w c d)
    (hne : ∀ c ∈ ids, c ≠ 0) (owner : NodeId) (kind : ListKind) :
    A.Turns E (Edit.copyListOf copy owner kind ids) (ids.flatMap (A.around n)) id
      fun w ys => A.Lists w ids ys := by
  intro w F hw
  have hf : w.1.front owner kind = [] := by rw [hw.tables.front, hfront]
  refine Runs.bind (Runs.get ?_)
  rw [hf]
  refine Runs.bind (Runs.pure w.2 (Runs.bind ((copyElements hA hcopy hne [] hw).mono ?_)))
  rintro _ w₁ ⟨zs, rfl, h₁, hle, hl⟩
  have hb : w₁.1.back owner kind = [] := by rw [h₁.tables.back, hback]
  refine Runs.bind (Runs.get ?_)
  rw [hb]
  exact Runs.pure w₁.2 ⟨h₁, hle, hl⟩

end Lists

theorem Out.ne_zero (hw : A.Holds w l) {i j : NodeId} (h : A.Out w i j) (hi : i ≠ 0) : j ≠ 0 := by
  rcases h with ⟨h0, _⟩ | ⟨_, hj, _⟩
  · exact absurd h0 hi
  · exact Nat.ne_of_gt (hw.range j (by rwa [hj])).1

theorem Lists.ne_zero (hw : A.Holds w l) {xs ys : List NodeId} (h : A.Lists w xs ys)
    (hx : ∀ x ∈ xs, x ≠ 0) : ∀ y ∈ ys, y ≠ 0 := by
  intro y hy
  rcases h.listed.mem hy with ⟨h0, _⟩ | ⟨x, hm, _, ho⟩
  · exact h0
  · exact ho.ne_zero hw (hx x hm)

/-- The world with one more node in the target, which comes from the node `i`. -/
def pushed (w : World κ σ) (s : Shape Symbol NodeId) (span : Span) (i : NodeId) : World κ σ :=
  ({ w.1 with target := (w.1.target.push s span).2 }, update w.2 (w.1.target.size + 1) i)

theorem Holds.origin_new (h : A.Holds w l) : w.2 (w.1.target.size + 1) = 0 := by
  by_cases h0 : w.2 (w.1.target.size + 1) = 0
  · exact h0
  · exact absurd (h.range _ h0).2 (Nat.not_succ_le_self _)

theorem Holds.later_pushed (h : A.Holds w l) (s : Shape Symbol NodeId) (span : Span) (i : NodeId) :
    A.Later w (pushed w s span i) := by
  refine ⟨⟨.of_target _ _, Builder.Mode.extends_push _ _ _, fun k hk => ?_, fun _ _ h => h⟩,
    rfl, fun _ => rfl⟩
  exact update_of_ne _ _ fun he => hk (he ▸ h.origin_new)

theorem Holds.push (hA : A.Stable) (h : A.Holds w l) {s : Shape Symbol NodeId} {span : Span}
    {i : NodeId} (hs : s.Spelled) (hr : ∀ c ∈ s.required, c ≠ 0)
    (hl : ∀ x, (s.slots ++ F).count x ≤ l.count x) (hi : i ≠ 0)
    (ht : A.base.source.inTree i = true)
    (hd : A.Describes (pushed w s span i) i (w.1.target.size + 1)) :
    A.Holds (pushed w s span i) ((w.1.target.size + 1) :: F) := by
  have hext := Builder.Mode.extends_push w.1.target s span
  have hlater := h.later_pushed s span i
  have hsize : (w.1.target.push s span).2.size = w.1.target.size + 1 := by
    simp [Builder.push, Arena.size]
  refine ⟨h.tables.trans (.of_target _ _), ?_, ?_, ?_, ?_, ?_, ?_, ?_⟩
  · rw [List.filter_cons_of_pos (by simp)]
    refine h.good.push span hs hr (fun x hx => ?_) (by simp)
    rw [List.count_filter (by simpa using hx), List.count_filter (by simpa using hx),
      ← List.count_append]
    exact hl x
  · exact fun i y hy => (h.inserted i y hy).imp_right (hA.extra hlater.toGrown)
  · exact fun i j hf => (h.fixed i j hf).grown hA hlater.toGrown
  · intro k hk
    by_cases hkj : k = w.1.target.size + 1
    · subst hkj
      simp only [pushed, update_self]
      exact ⟨ht, hd⟩
    · simp only [pushed, update_of_ne _ _ hkj] at hk ⊢
      exact (h.traced k hk).imp_right (Describes.grown hA hlater.toGrown)
  · intro k hk
    by_cases hkj : k = w.1.target.size + 1
    · rw [hkj, pushed, hsize]
      exact ⟨Nat.succ_pos _, Nat.le_refl _⟩
    · simp only [pushed, update_of_ne _ _ hkj] at hk ⊢
      have := h.range k hk
      grind
  · intro k n hn hk
    by_cases hkj : k = w.1.target.size + 1
    · subst hkj
      exact absurd hk (by simpa [pushed] using hi)
    · simp only [pushed, update_of_ne _ _ hkj] at hk hn
      rw [Builder.Mode.node?_push, if_neg hkj] at hn
      exact (h.fresh hn hk).extends hext
  · exact hA.state hlater.toGrown rfl rfl h.state

/-- What the engine needs to know about the tables of a session. -/
structure Plain (A : Account κ σ) (E : Misuse → Prop) : Prop where
  source : A.base.source.Fit
  front : A.base.front = fun _ _ => []
  back : A.base.back = fun _ _ => []
  name : ∀ {i node}, A.base.source.inTree i = true → A.base.source.node? i = some node → A.parts i →
    ∀ x ∈ node.shape.names, A.Turns E (Edit.copySymbol x) [] (fun _ => []) fun w y => A.name w x y

/-- A node made anew from the copies of its parts. -/
theorem copyParts {copy : NodeId → Edit κ σ NodeId} {n : Nat} {i : NodeId} {node : Node}
    (hA : A.Stable) (hP : A.Plain E) (hi : i ≠ 0) (hnode : A.base.source.node? i = some node)
    (ht : A.base.source.inTree i = true) (hparts : A.parts i)
    (hmodule : i = A.base.source.root → E .moduleCopy)
    (hcopy : ∀ c ∈ node.shape.slots,
      A.Turns E (copy c) (A.below n c) (fun d => [d]) fun w d => A.Out w c d) :
    A.Turns E (Edit.copyParts copy i node) (node.shape.slots.flatMap (A.around n)) (fun j => [j])
      fun w j => w.2 j = i ∧ A.Parts w i j := by
  intro w F hw
  unfold Edit.copyParts
  split
  · next gs hs =>
    have hshape : A.base.source.shape? i = some (.module gs) := by simp [Arena.shape?, hnode, hs]
    exact Runs.throw (hmodule (hP.source.eq_root hshape))
  · next hmod =>
    have hlists : ∀ xs ∈ node.shape.lists, ∀ c ∈ xs, c ∈ node.shape.required :=
      fun xs hxs => Shape.mem_required_of_lists hxs
    have hchild : ∀ c ∈ node.shape.slots,
        A.Turns E (copy c) (A.around n c) (fun d => [d]) fun w d => A.Out w c d := by
      intro c hc
      refine (hcopy c hc).weaken fun x => ?_
      simp only [around, List.count_append]
      omega
    have hlist : ∀ k, ∀ xs ∈ node.shape.lists, A.Turns E (Edit.copyListOf copy i k xs)
        (xs.flatMap (A.around n)) id fun w ys => A.Lists w xs ys := by
      intro k xs hxs
      refine copyListOf hA hP.front hP.back (fun c hc => hcopy c ?_) (fun c hc => ?_) i k
      · exact Shape.required_subset _ c (hlists xs hxs c hc)
      · exact hP.source.present hnode c (hlists xs hxs c hc)
    have htrav := Shape.Copying.traverse (K := copying hA n) (E := E)
      (hP.name ht hnode hparts) hchild hlist
    refine Runs.bind ((htrav w F hw).mono ?_)
    rintro t w₁ ⟨h₁, hle₁, hrel⟩
    have hspelled : t.Spelled := by
      refine (Shape.Rel.spelled hrel).1 (hP.source.spelled hnode fun hroot => ?_)
      have hs := hP.source.module
      simp only [Arena.shape?, ← hroot, hnode, Option.map_some, Option.some.injEq] at hs
      exact hmod _ hs
    have hrequired : ∀ c ∈ t.required, c ≠ 0 :=
      Shape.Rel.required hrel (fun x y h hx => Out.ne_zero h₁ h hx)
        (fun xs ys h hx => Lists.ne_zero h₁ h hx) (hP.source.present hnode)
    have hle₂ := h₁.later_pushed t node.span i
    have hp : A.Parts (pushed w₁ t node.span i) i (w₁.1.target.size + 1) := by
      refine ⟨hparts, node, ⟨t, if node.span.valid then node.span else w₁.1.target.span⟩,
        hnode, ?_, ?_, Shape.Copying.Shapes.mono (K := copying hA n) hle₂ hrel⟩
      · simp only [pushed, Builder.Mode.node?_push, if_true]
      · simp only [h₁.good.span]
    have h₂ := h₁.push hA (F := F) hspelled hrequired (fun _ => Nat.le_refl _) hi ht (.inl hp)
    refine Runs.of_ok (a := w₁.1.target.size + 1) rfl (pushed w₁ t node.span i).2 ?_
    exact ⟨h₂, hle₁.trans hle₂, by simp [pushed], hp⟩

/-- The nodes that may be copied to a given depth, and what may go wrong on the way. Where nothing
may go wrong the depth has to suffice and the nodes have to be in the tree. -/
structure Reach (A : Account κ σ) (E : Misuse → Prop) (D : Nat → NodeId → Prop) : Prop where
  zero : ∀ i, D 0 i → E .endlessCopy
  inTree : ∀ n i, D (n + 1) i → i ≠ 0 →
    ((A.base.source.node? i).isSome ∧ A.base.source.inTree i = true) ∨ E (.nodeNotInSource i)
  child : ∀ n i node, D (n + 1) i → A.base.source.node? i = some node →
    ∀ c ∈ node.shape.slots, D n c
  module : ∀ n, D (n + 1) A.base.source.root → E .moduleCopy

/-- The copies of nodes that may be copied to a depth are as the account says. -/
def Copies (A : Account κ σ) (E : Misuse → Prop) (D : Nat → NodeId → Prop) (act : Act κ σ)
    (n : Nat) : Prop :=
  ∀ i, D n i → A.Turns E (Edit.copyTo act n i) (A.below n i) (fun j => [j]) fun w j => A.Out w i j

/-- What handlers have to keep: a node that is replaced becomes one that the account describes, and
a node of a handled family becomes such a one or is left to be made anew. -/
structure Handled (A : Account κ σ) (E : Misuse → Prop) (D : Nat → NodeId → Prop) (act : Act κ σ) :
    Prop where
  replaced : ∀ n i h node, A.Copies E D act n → D (n + 1) i → i ≠ 0 →
    A.base.source.inTree i = true →
    A.base.source.node? i = some node → A.base.replacements i = some (.handler h) →
    A.Turns E (act (Edit.copyTo act n) h i) (A.needs n h i node) (fun j => [j])
      fun w j => A.Out w i j
  family : ∀ n i t h node, A.Copies E D act n → D (n + 1) i → i ≠ 0 →
    A.base.source.inTree i = true →
    A.base.source.node? i = some node → A.base.replacements i = none →
    A.base.handlers.find? (fun (t, _) => node.shape.tag.is t) = some (t, h) → ∀ w F,
    A.Holds w (node.shape.slots.flatMap (A.around n) ++ F) →
    Runs (act (Edit.copyTo act n) h i) w E fun j w' => (j = 0 ∧ w' = w ∧ A.parts i) ∨
      (j ≠ 0 ∧ A.Holds w' (j :: F) ∧ A.Later w w' ∧ A.Out w' i j)
  anew : ∀ n i node, D (n + 1) i → i ≠ 0 → A.base.source.node? i = some node →
    A.base.replacements i = none →
    A.base.handlers.find? (fun (t, _) => node.shape.tag.is t) = none → A.parts i
  side : ∀ n i w j, D (n + 1) i → i ≠ 0 → A.base.replacements i = none →
    A.Parts w i j → A.side w i j

/-- The check of a node of the source changes nothing. -/
theorem runs_checkSource {i : NodeId}
    (h : (w.1.source.node? i).isSome ∧ w.1.source.inTree i = true ∨ E (.nodeNotInSource i)) :
    Runs (Edit.checkSource i) w E fun node w' =>
      w' = w ∧ w.1.source.node? i = some node ∧ w.1.source.inTree i = true := by
  refine Runs.bind (Runs.get ?_)
  split
  · next node hn =>
    split
    · next ht => exact Runs.pure w.2 ⟨rfl, hn, ht⟩
    · next ht => exact Runs.throw (h.resolve_left fun h => ht h.2)
  · next hn => exact Runs.throw (h.resolve_left fun h => by simp [hn] at h)

/-- Copying keeps the account, to any depth. -/
theorem copies {D : Nat → NodeId → Prop} {act : Act κ σ} (hA : A.Stable) (hP : A.Plain E)
    (hD : A.Reach E D) (hH : A.Handled E D act) (n : Nat) : A.Copies E D act n := by
  induction n with
  | zero => exact fun i hi w F hw => Runs.throw (hD.zero i hi)
  | succ n ih =>
    intro i hi w F hw
    change Runs (Edit.copyStep act (Edit.copyTo act n) i) w E _
    unfold Edit.copyStep
    split
    · next h0 =>
      exact Runs.pure w.2 ⟨hw.absent, .refl w, .inl ⟨h0, rfl⟩⟩
    · next h0 =>
      have htree := hD.inTree n i hi h0
      rw [← hw.tables.source] at htree
      refine Runs.bind ((runs_checkSource htree).mono ?_)
      rintro node _ ⟨rfl, hnode, ht⟩
      rename_i w
      rw [hw.tables.source] at hnode ht
      rw [below_succ hnode] at hw
      have hnew : A.base.replacements i = none → A.parts i →
          A.Turns E (Edit.copyParts (Edit.copyTo act n) i node)
          (node.shape.slots.flatMap (A.around n))
            (fun j => [j]) fun w j => A.Out w i j := by
        intro hnone hparts w F hw
        refine (copyParts hA hP h0 hnode ht hparts ?_ ?_ w F hw).mono ?_
        · rintro rfl
          exact hD.module n hi
        · exact fun c hc => ih c (hD.child n i node hi hnode c hc)
        · exact fun j w' h => ⟨h.1, h.2.1, .inr ⟨h0, h.2.2.1, hH.side n i w' j hi h0 hnone h.2.2.2⟩⟩
      refine Runs.bind (Runs.get ?_)
      rw [hw.tables.replacements, hw.tables.handlers]
      cases hrep : A.base.replacements i with
      | some r =>
        simp only [hrep] at hw
        cases r with
        | fixed j => exact Runs.pure w.2 ⟨hw, .refl w, hw.fixed i j hrep⟩
        | handler h => exact hH.replaced n i h node ih hi h0 ht hnode hrep w F hw
      | none =>
        simp only [hrep] at hw
        dsimp only
        split
        · next t h hfind =>
          refine Runs.bind ((hH.family n i t h node ih hi h0 ht hnode hrep hfind w F hw).mono ?_)
          rintro j w' (⟨rfl, rfl, hparts⟩ | ⟨hj, h₁, hle, ho⟩)
          · exact hnew hrep hparts _ F hw
          · rw [if_neg hj]
            exact Runs.pure w'.2 ⟨h₁, hle, ho⟩
        · next hfind =>
          exact hnew hrep (hH.anew n i node hi h0 hnode hrep hfind) w F hw

section Module

variable {copy : NodeId → Edit κ σ NodeId} {n : Nat}

/-- A copied declaration joins the globals unless it is known. -/
theorem runs_addOnce (hA : A.Stable) {seen : List NodeId} {y : NodeId} (hy : y ≠ 0)
    (hseen : A.mode.closed → ∀ z ∈ seen, z ∈ w.1.target.globals) (hw : A.Holds w (y :: F)) :
    Runs (Edit.addOnce seen y) w E fun seen' w' => A.Holds w' F ∧ Grown w w' ∧
      w'.1.copied = w.1.copied ∧ (A.mode.closed → ∀ z ∈ seen', z ∈ w'.1.target.globals) ∧
      ∃ ys, w'.1.target.globals = w.1.target.globals ++ ys ∧ (∀ z ∈ ys, z = y) ∧
        (A.mode.closed → A.mode.counted → ys = [y]) := by
  have hg := hw.good
  rw [List.filter_cons_of_pos (by simpa using hy)] at hg
  unfold Edit.addOnce
  split
  · next hmem =>
    refine Runs.pure w.2 ⟨?_, .refl w, rfl, hseen, [], by simp, by simp, fun hc hk => ?_⟩
    · exact hw.weaken fun x => by simp [List.count_cons]
    · have hone := hg.once hk y hy
      have : 0 < w.1.target.globals.count y :=
        List.count_pos_iff.2 (hseen hc y (by simpa using hmem))
      simp only [Builder.held, List.count_cons_self] at hone
      omega
  · have hgrown : Grown w ({ w.1 with target :=
        { w.1.target with globals := w.1.target.globals ++ [y] } }, w.2) :=
      ⟨.of_target _ _, ⟨⟨#[], by simp⟩, ⟨#[], by simp⟩, rfl, rfl⟩, fun _ _ => rfl, fun _ _ h => h⟩
    refine Runs.of_ok (a := y :: seen) rfl w.2
      ⟨?_, hgrown, rfl, fun hc z hz => ?_, [y], rfl, by simp, fun _ _ => rfl⟩
    · exact hw.alike hA hgrown rfl rfl hg.addGlobal (hA.state hgrown rfl rfl hw.state)
    · rcases List.mem_cons.1 hz with rfl | hz
      · simp
      · simp [hseen hc z hz]

/-- Nodes that are put around a declaration join the globals too. -/
theorem runs_addAll (hA : A.Stable) {seen ys : List NodeId} (hy : ∀ y ∈ ys, y ≠ 0)
    (hseen : A.mode.closed → ∀ z ∈ seen, z ∈ w.1.target.globals) (hw : A.Holds w (ys ++ F)) :
    Runs (ys.foldlM Edit.addOnce seen) w E fun seen' w' => A.Holds w' F ∧ Grown w w' ∧
      w'.1.copied = w.1.copied ∧ (A.mode.closed → ∀ z ∈ seen', z ∈ w'.1.target.globals) ∧
      (ys = [] → w' = w) := by
  induction ys generalizing w seen with
  | nil => exact Runs.pure w.2 ⟨hw, .refl w, rfl, hseen, fun _ => rfl⟩
  | cons y ys ih =>
    rw [List.foldlM_cons]
    refine Runs.bind ((runs_addOnce hA (hy y (by simp)) hseen hw).mono ?_)
    rintro seen₁ w₁ ⟨h₁, hg₁, hc₁, hs₁, _⟩
    refine (ih (fun z hz => hy z (by simp [hz])) hs₁ h₁).mono ?_
    rintro seen₂ w₂ ⟨h₂, hg₂, hc₂, hs₂, _⟩
    exact ⟨h₂, hg₁.trans hg₂, hc₂.trans hc₁, hs₂, by simp⟩

/-- What the globals of the target become while those of a list are copied. -/
structure Declared (A : Account κ σ) (w w' : World κ σ) (ids : List NodeId) : Prop where
  grown : Grown w w'
  copied : w'.1.copied = w.1.copied
  globals : A.mode.closed → (∀ c ∈ ids, A.base.before c = [] ∧ A.base.after c = []) →
    ∃ ys, w'.1.target.globals = w.1.target.globals ++ ys ∧
      (∀ y ∈ ys, ∃ x ∈ ids, ¬ A.gone x ∧ A.Out w' x y) ∧
      (A.mode.counted → Listed (fun _ => False) A.gone (A.Out w') ids ys)

theorem Declared.append (hA : A.Stable) {w' w'' : World κ σ} {s t : List NodeId}
    (h : A.Declared w w' s) (h' : A.Declared w' w'' t) : A.Declared w w'' (s ++ t) := by
  refine ⟨h.grown.trans h'.grown, h'.copied.trans h.copied, fun hc hins => ?_⟩
  obtain ⟨us, hus, hout, hlist⟩ := h.globals hc fun c hm => hins c (by simp [hm])
  obtain ⟨vs, hvs, hout', hlist'⟩ := h'.globals hc fun c hm => hins c (by simp [hm])
  refine ⟨us ++ vs, by rw [hvs, hus, List.append_assoc], fun y hy => ?_, fun hk => ?_⟩
  · rcases List.mem_append.1 hy with hy | hy
    · obtain ⟨x, hx, hgone, hxy⟩ := hout y hy
      exact ⟨x, by simp [hx], hgone, hxy.grown hA h'.grown⟩
    · obtain ⟨x, hx, hxy⟩ := hout' y hy
      exact ⟨x, by simp [hx], hxy⟩
  · exact ((hlist hk).mono (fun _ h => h) fun _ _ => Out.grown hA h'.grown).append (hlist' hk)

/-- The declarations of the source, copied one after another. -/
theorem copyGlobals (hA : A.Stable) {ids : List NodeId}
    (hcopy : ∀ c ∈ ids, A.Turns E (copy c) (A.below n c) (fun d => [d]) fun w d => A.Out w c d)
    (hne : ∀ c ∈ ids, c ≠ 0) (seen : List NodeId)
    (hseen : A.mode.closed → ∀ z ∈ seen, z ∈ w.1.target.globals)
    (hw : A.Holds w (ids.flatMap (A.around n) ++ F)) :
    Runs (Edit.foldElements copy Edit.addOnce ids seen) w E fun _ w' =>
      A.Holds w' F ∧ A.Declared w w' ids := by
  induction ids generalizing w seen with
  | nil =>
    refine Runs.pure w.2
      ⟨by simpa using hw, .refl w, rfl, fun _ _ => ⟨[], by simp, by simp, fun _ => .nil⟩⟩
  | cons c cs ih =>
    -- After the declaration is copied or left out, what stands after it and the rest of the list
    -- follow.
    have hrest : ∀ seen' w₁, A.Holds w₁ (A.base.after c ++ cs.flatMap (A.around n) ++ F) →
        A.Declared w w₁ [c] → (A.mode.closed → ∀ z ∈ seen', z ∈ w₁.1.target.globals) →
        Runs (do
          let b ← ((← get).after c).foldlM Edit.addOnce seen'
          Edit.foldElements copy Edit.addOnce cs b) w₁ E fun _ w' =>
            A.Holds w' F ∧ A.Declared w w' (c :: cs) := by
      intro seen' w₁ h₁ hd₁ hs₁
      have ha : w₁.1.after c = A.base.after c := by rw [h₁.tables.after]
      refine Runs.bind (Runs.get ?_)
      rw [ha]
      rw [List.append_assoc] at h₁
      refine Runs.bind ((runs_addAll hA (fun y hy => ?_) hs₁ h₁).mono ?_)
      · exact (h₁.inserted c y (by simp [hy])).1
      rintro seen₂ w₂ ⟨h₂, hg₂, hc₂, hs₂, hnil⟩
      refine (ih (fun d hd => hcopy d (by simp [hd])) (fun d hd => hne d (by simp [hd])) seen₂
        hs₂ h₂).mono ?_
      rintro _ w₃ ⟨h₃, hd₃⟩
      refine ⟨h₃, Declared.append (s := [c]) hA ⟨hd₁.grown.trans hg₂, hc₂.trans hd₁.copied,
        fun hc hins => ?_⟩ hd₃⟩
      rw [hnil (hins c (by simp)).2]
      exact hd₁.globals hc hins
    have hb : w.1.before c = A.base.before c := by rw [hw.tables.before]
    refine Runs.bind (Runs.get ?_)
    rw [hb]
    have h₀ : A.Holds w (A.base.before c ++
        (A.base.after c ++ A.below n c ++ cs.flatMap (A.around n) ++ F)) := by
      refine hw.weaken fun x => ?_
      simp only [List.flatMap_cons, around, List.count_append]
      omega
    refine Runs.bind ((runs_addAll hA (fun y hy => ?_) hseen h₀).mono ?_)
    · exact (hw.inserted c y (by simp [hy])).1
    rintro seen₁ w₁ ⟨h₁, hg₁, hc₁, hs₁, hnil⟩
    refine Runs.bind (Runs.get ?_)
    dsimp only
    split
    · next hgone =>
      refine Runs.bind
        (Runs.pure w₁.2 (hrest seen₁ w₁ (h₁.weaken ?_) ⟨hg₁, hc₁, fun hc hins => ?_⟩ hs₁))
      · intro x
        simp only [List.count_append]
        omega
      · rw [hnil (hins c (by simp)).1]
        refine ⟨[], by simp, by simp, fun _ => .drop ?_ .nil⟩
        rwa [gone, ← h₁.tables.removed]
    · next hgone =>
      refine (hcopy c (by simp)).bind (A.base.after c ++ cs.flatMap (A.around n) ++ F) h₁ ?_
        fun d w₂ h₂ hle ho => ?_
      · intro x
        simp only [List.count_append]
        omega
      · have hd : d ≠ 0 := ho.ne_zero h₂ (hne c (by simp))
        have hs₂ : A.mode.closed → ∀ z ∈ seen₁, z ∈ w₂.1.target.globals := by
          intro hc
          rw [hle.globals hc]
          exact hs₁ hc
        rw [if_neg hd]
        refine Runs.bind ((runs_addOnce hA hd hs₂ h₂).mono ?_)
        rintro seen₃ w₃ ⟨h₃, hg₃, hc₃, hs₃, ys, hys, hall, hone⟩
        refine hrest seen₃ w₃ h₃ ⟨(hg₁.trans hle.toGrown).trans hg₃,
          (hc₃.trans hle.copied).trans hc₁, fun hc hins => ?_⟩ hs₃
        have hgone' : ¬ A.gone c := by rwa [gone, ← h₁.tables.removed]
        have ho₃ := ho.grown hA hg₃
        have heq := hnil (hins c (by simp)).1
        refine ⟨ys, by rw [hys, hle.globals hc, heq], fun y hy => ?_, fun hk => ?_⟩
        · exact ⟨c, by simp, hgone', hall y hy ▸ ho₃⟩
        · rw [hone hc hk]
          exact .keep hgone' ho₃ .nil

end Module

/-- Where nothing is put in and nothing replaced, nothing is used up. -/
theorem below_eq_nil (hb : ∀ i, A.base.before i = []) (ha : ∀ i, A.base.after i = [])
    (ho : ∀ i, A.owned i = []) (hr : ∀ i j, A.base.replacements i ≠ some (.fixed j)) (n : Nat)
    (i : NodeId) : A.below n i = [] := by
  induction n generalizing i with
  | zero => rfl
  | succ n ih =>
    unfold below
    split
    · next j hj => exact absurd hj (hr i j)
    · simp [hb, ha, ho, ih]
    · simp [hb, ha, ih]

variable (A) in
/-- How deep a session copies. -/
def depth : Nat := 2 * A.base.source.size + 2

/-- Before anything is copied the account is right, whatever the target declares already. -/
theorem Holds.begin (hgood : A.mode.Good A.base.target [])
    (hallow : ∀ {k n}, A.base.target.node? k = some n → A.mode.Allows A.base.target n.shape)
    (hb : ∀ i, A.base.before i = []) (ha : ∀ i, A.base.after i = []) (ho : ∀ i, A.owned i = [])
    (hr : ∀ i j, A.base.replacements i ≠ some (.fixed j)) (hstate : A.state (A.base, fun _ => 0)) :
    A.Holds (A.base, fun _ => 0) (A.base.source.globals.flatMap (A.around A.depth) ++ []) := by
  have haround : A.around A.depth = fun _ => [] := by
    funext i
    simp [around, below_eq_nil hb ha ho hr, hb, ha]
  refine ⟨.refl _, ?_, ?_, ?_, fun _ h => absurd rfl h, fun _ h => absurd rfl h,
    fun hk _ => hallow hk, hstate⟩
  · have hnil : A.base.source.globals.flatMap (A.around A.depth) ++ [] = [] := by
      rw [haround, List.append_nil]
      exact List.flatMap_eq_nil_iff.2 fun _ _ => rfl
    rw [hnil]
    exact hgood
  · simp [hb, ha]
  · exact fun i j hf => absurd hf (hr i j)

/-- Before anything is made for the target, the account is right. -/
theorem Holds.start (hn : A.base.target.nodes = #[]) (hg : A.base.target.globals = [])
    (hs : "" ∉ A.base.target.symbols.names.toList) (hspan : A.base.target.span = {})
    (hb : ∀ i, A.base.before i = []) (ha : ∀ i, A.base.after i = []) (ho : ∀ i, A.owned i = [])
    (hr : ∀ i j, A.base.replacements i ≠ some (.fixed j)) (hstate : A.state (A.base, fun _ => 0)) :
    A.Holds (A.base, fun _ => 0) (A.base.source.globals.flatMap (A.around A.depth) ++ []) := by
  have hnone : ∀ k, A.base.target.node? k = none := by
    intro k
    cases k <;> simp [hn]
  exact .begin (.empty hn hg hs hspan) (fun hk => absurd hk (by simp [hnone])) hb ha ho hr hstate

theorem turns_copy {act : Act κ σ} {D : Nat → NodeId → Prop} (h : A.Copies E D act A.depth)
    {i : NodeId} (hi : D A.depth i) : A.Turns E (Edit.copy act i) (A.below A.depth i) (fun j => [j])
      fun w j => A.Out w i j := by
  intro w F hw
  refine Runs.bind (Runs.get ?_)
  rw [hw.tables.source]
  exact h i hi w F hw

variable (A) in
/-- The globals of the target once the module is copied: those that were there, and copies of those
of the source. -/
def Globals (before : List NodeId) (w : World κ σ) : Prop :=
  A.mode.closed → (∀ g ∈ A.base.source.globals, A.base.before g = [] ∧ A.base.after g = []) →
    ∃ ys, w.1.target.globals = before ++ ys ∧
      (∀ y ∈ ys, ∃ x ∈ A.base.source.globals, ¬ A.gone x ∧ A.Out w x y) ∧
      (A.mode.counted → Listed (fun _ => False) A.gone (A.Out w) A.base.source.globals ys)

/-- Copying the whole module keeps the account and copies every global. -/
theorem copyModule {act : Act κ σ} {D : Nat → NodeId → Prop} (hA : A.Stable) (hP : A.Plain E)
    (hD : A.Reach E D) (hH : A.Handled E D act) (hroot : ∀ g ∈ A.base.source.globals, D A.depth g)
    (hcopied : w.1.copied = true → E .alreadyCopied)
    (hw : A.Holds w (A.base.source.globals.flatMap (A.around A.depth) ++ F)) :
    Runs (Edit.copyModule (Edit.copy act)) w E fun _ w' => A.Holds w' F ∧ Grown w w' ∧
      w'.1.copied = true ∧ A.Globals w.1.target.globals w' := by
  unfold Edit.copyModule
  refine Runs.bind (Runs.get ?_)
  split
  · next hc => exact Runs.throw (hcopied hc)
  have hg₁ : Grown w ({ w.1 with copied := true }, w.2) :=
    ⟨⟨rfl, rfl, rfl, rfl, rfl, rfl, rfl, rfl, rfl⟩, .refl _, fun _ _ => rfl, fun _ _ h => h⟩
  have h₁ : A.Holds ({ w.1 with copied := true }, w.2)
      (A.base.source.globals.flatMap (A.around A.depth) ++ F) :=
    hw.alike hA hg₁ rfl rfl hw.good (hA.state hg₁ rfl rfl hw.state)
  refine Runs.bind (Runs.modify w.2 ?_)
  have hcopy : ∀ c ∈ A.base.source.globals, A.Turns E (Edit.copy act c) (A.below A.depth c)
      (fun d => [d]) fun w d => A.Out w c d :=
    fun c hc => turns_copy (copies hA hP hD hH A.depth) (hroot c hc)
  have hne : ∀ c ∈ A.base.source.globals, c ≠ 0 :=
    fun c hc => Nat.ne_of_gt (hP.source.globals c hc).1
  refine Runs.bind (Runs.bind (Runs.get ?_))
  have hfront : ∀ w' : World κ σ, A.base.SameTables w'.1 → ∀ i k, w'.1.front i k = [] := by
    intro w' ht i k
    rw [ht.front, hP.front]
  have hglobals : w.1.source.globals = A.base.source.globals := by rw [hw.tables.source]
  rw [hfront _ h₁.tables, hglobals]
  refine Runs.bind (Runs.pure w.2 (Runs.bind ((copyGlobals hA hcopy hne _ ?_ h₁).mono ?_)))
  · exact fun _ z hz => hz
  · rintro _ w₂ ⟨h₂, hd₂⟩
    refine Runs.bind (Runs.get ?_)
    rw [h₂.tables.back, hP.back]
    exact Runs.pure w₂.2 (Runs.pure w₂.2 ⟨h₂, hg₁.trans hd₂.grown, hd₂.copied, hd₂.globals⟩)

end Account
end ShaderLoom.Copy
