import ShaderLoom.Proofs.Meaning.Findings
import ShaderLoom.Proofs.Meaning.Static
import ShaderLoom.Proofs.Meaning.Unique

/-! The types and values of a module, once all of them are known. Whatever is found out while they
are resolved at their first use still holds in the end, so that it does not depend on what was known
at the time. -/
namespace ShaderLoom

variable {a : Arena} {M : Frame} {F F' : NodeId → ExprFacts → Prop} {T T₁ T' E : Table}

/-- What a table says belongs together: structures with members have a type, and a variable that a
declaration made last is that declaration's. -/
structure Table.Coherent (T : Table) : Prop where
  structs : ∀ d, (T.structs d).isSome → (T.types d).isSome
  latest : ∀ d n, T.latest d = some n → ∃ t, T.vars n = some ⟨d, t⟩
  bound : ∀ n, (T.vars n).isSome → n < T.size

/-- What the first table says of declarations, the second one says too. -/
structure Table.Within (a : Arena) (T E : Table) : Prop where
  types : ∀ d t, (a.shape? d).any Shape.isTypeDecl = true → T.types d = some t → E.types d = some t
  structs : ∀ d s, T.structs d = some s → E.structs d = some s
  latest : ∀ d n, T.latest d = some n → E.latest d = some n
  vars : ∀ n x, T.vars n = some x → E.vars n = some x

theorem Table.Coherent.empty : Table.empty.Coherent :=
  ⟨(fun _ h => by cases h), (fun _ _ h => by cases h), (fun _ h => by cases h)⟩

namespace Table.Within

theorem refl (T : Table) : T.Within a T :=
  ⟨fun _ _ _ h => h, fun _ _ h => h, fun _ _ h => h, fun _ _ h => h⟩

theorem trans (h : T.Within a T₁) (h' : T₁.Within a T') : T.Within a T' :=
  ⟨fun d t hd ht => h'.types d t hd (h.types d t hd ht),
    fun d s hs => h'.structs d s (h.structs d s hs),
    fun d n hn => h'.latest d n (h.latest d n hn), fun n x hx => h'.vars n x (h.vars n x hx)⟩

end Table.Within

/-- A step that keeps what a coherent table says, and that it is coherent. -/
def Table.Adds (a : Arena) (T T' : Table) : Prop := T.Coherent → T.Within a T' ∧ T'.Coherent

namespace Table.Adds

theorem refl (T : Table) : T.Adds a T := fun h => ⟨.refl T, h⟩

theorem trans (h : T.Adds a T₁) (h' : T₁.Adds a T') : T.Adds a T' := by
  intro hT
  obtain ⟨hw, hT₁⟩ := h hT
  obtain ⟨hw', hT'⟩ := h' hT₁
  exact ⟨hw.trans hw', hT'⟩

/-- The table before a step says no more than the one after it. -/
theorem within (h : T.Adds a T') (hT : T.Coherent) (hE : T'.Within a E) : T.Within a E :=
  (h hT).1.trans hE

/-- Steps that change nothing that is looked at. -/
theorem of_eq (htypes : T'.types = T.types) (hstructs : T'.structs = T.structs)
    (hlatest : T'.latest = T.latest) (hvars : T'.vars = T.vars) (hsize : T'.size = T.size) :
    T.Adds a T' := by
  intro h
  refine ⟨⟨fun d t _ ht => htypes ▸ ht, fun d s hs => hstructs ▸ hs, fun d n hn => hlatest ▸ hn,
    fun n x hx => hvars ▸ hx⟩, ?_⟩
  refine ⟨fun d hd => ?_, fun d n hn => ?_, fun n hn => ?_⟩
  · rw [hstructs] at hd
    rw [htypes]
    exact h.structs d hd
  · rw [hlatest] at hn
    rw [hvars]
    exact h.latest d n hn
  · rw [hvars] at hn
    rw [hsize]
    exact h.bound n hn

theorem note (i : NodeId) (e : ExprFacts) : T.Adds a (T.note i e) := of_eq rfl rfl rfl rfl rfl

theorem keepSense (i : NodeId) (o : Option ExprFacts) : T.Adds a (T.keepSense i o) := by
  cases o <;> exact of_eq rfl rfl rfl rfl rfl

theorem setName (i d : NodeId) : T.Adds a (T.setName i d) := of_eq rfl rfl rfl rfl rfl

theorem setResult (d : NodeId) (t : Option Ty) : T.Adds a (T.setResult d t) :=
  of_eq rfl rfl rfl rfl rfl

/-- A type for a node that is no declaration, or is one without a type so far. -/
theorem setType {i : NodeId} (t : Ty)
    (hi : (a.shape? i).any Shape.isTypeDecl = true → T.types i = none) :
    T.Adds a (T.setType i t) := by
  intro h
  refine ⟨⟨fun d u hd hu => ?_, fun _ _ h => h, fun _ _ h => h, fun _ _ h => h⟩,
    ⟨fun d hd => ?_, h.latest, h.bound⟩⟩
  · refine (Function.update_of_ne ?_ _ _).trans hu
    rintro rfl
    rw [hi hd] at hu
    cases hu
  · change (Function.update T.types i (some t) d).isSome
    rw [Function.update_apply]
    split
    · rfl
    · exact h.structs d hd

theorem keepType {i : NodeId} (t : Option Ty)
    (hi : (a.shape? i).any Shape.isTypeDecl = true → T.types i = none) :
    T.Adds a (T.keepType i t) := by
  cases t with
  | none => exact refl T
  | some t => exact setType t hi

/-- One more variable for a declaration that has none so far. -/
theorem addValue {d : NodeId} (t : Option Ty) (hd : T.latest d = none) :
    T.Adds a (T.addValue d t) := by
  intro h
  have hvars : ∀ n x, T.vars n = some x → (T.addValue d t).vars n = some x := by
    intro n x hx
    exact (Function.update_of_ne (Nat.ne_of_lt (h.bound n (by simp [hx]))) _ _).trans hx
  refine ⟨⟨fun _ _ _ h => h, fun _ _ h => h, fun d' n hn => ?_, hvars⟩,
    ⟨h.structs, fun d' n hn => ?_, fun n hn => ?_⟩⟩
  · refine (Function.update_of_ne ?_ _ _).trans hn
    rintro rfl
    rw [hd] at hn
    cases hn
  · rw [latest_addValue, Function.update_apply] at hn
    split at hn
    · next heq =>
      cases hn
      exact ⟨t, heq ▸ Function.update_self ..⟩
    · obtain ⟨u, hu⟩ := h.latest d' n hn
      exact ⟨u, hvars n _ hu⟩
  · change (Function.update T.vars T.size _ n).isSome at hn
    rw [Function.update_apply] at hn
    split at hn
    · next heq => exact Nat.lt_succ_of_le (Nat.le_of_eq heq)
    · exact Nat.lt_succ_of_lt (h.bound n hn)

end Table.Adds

theorem not_isTypeDecl_of_type {i : NodeId} {x : TypeShape Symbol NodeId}
    (hx : a.shape? i = some (.type x)) {P : Prop} :
    (a.shape? i).any Shape.isTypeDecl = true → P := fun h => by
  rw [hx] at h
  cases h

/-- A declaration that is pending does not become known meanwhile. -/
theorem Typing.pending {P : List NodeId} {f : TypeFinding} (h : Typing a M P T f T') {d : NodeId}
    (hd : d ∈ P) (hdecl : (a.shape? d).any Shape.isTypeDecl = true) : T'.types d = T.types d := by
  have hset : ∀ {T : Table} {i t}, d ≠ i → (T.keepType i t).types d = T.types d := by
    intro T i t hne
    cases t with
    | none => rfl
    | some t => exact Function.update_of_ne hne _ _
  have hnode : ∀ {i x}, a.shape? i = some (.type x) → d ≠ i := by
    rintro i x hx rfl
    exact not_isTypeDecl_of_type hx hdecl
  induction h with
  | absent => rfl
  | plain hx _ => exact hset (t := some _) (hnode hx)
  | around hx _ _ ih => exact (hset (hnode hx)).trans (ih hd)
  | named hx _ _ _ ih => exact (hset (hnode hx)).trans (ih hd)
  | known _ => rfl
  | @struct P T T' d' s ms as found _ _ hnot _ ih =>
    have hne : d ≠ d' := fun h => hnot (h ▸ hd)
    exact (ih (List.mem_cons_of_mem _ hd)).trans (Function.update_of_ne hne _ _)
  | @typeAlias P T T' d' s ty t _ _ hnot _ ih =>
    have hne : d ≠ d' := fun h => hnot (h ▸ hd)
    exact (hset hne).trans (ih (List.mem_cons_of_mem _ hd))
  | nil => rfl
  | member _ _ _ ih₁ ih₂ => exact (ih₂ hd).trans (ih₁ hd)
  | stray _ _ ih => exact ih hd

theorem Typing.adds {P : List NodeId} {f : TypeFinding} (h : Typing a M P T f T') :
    T.Adds a T' := by
  induction h with
  | absent => exact .refl _
  | plain hx _ => exact .setType _ (not_isTypeDecl_of_type hx)
  | around hx _ _ ih => exact ih.trans (.keepType _ (not_isTypeDecl_of_type hx))
  | named hx _ _ _ ih =>
    exact ((Table.Adds.setName _ _).trans ih).trans (.keepType _ (not_isTypeDecl_of_type hx))
  | known _ => exact .refl _
  | @struct P T T' d s ms as found hx hnone _ hms ih =>
    -- the open structure is there while its members are resolved; nothing was known of it before
    intro hT
    have hno : T.structs d = none := by
      by_contra hsome
      have := hT.structs d (Option.isSome_iff_ne_none.2 hsome)
      rw [hnone] at this
      cases this
    have hopen : ((T.setStruct d { decl := d, name := a.nameOf s }).setType d
      (.struct d (a.nameOf s))).Coherent := by
      refine ⟨fun x hx => ?_, hT.latest, hT.bound⟩
      change (Function.update T.structs d _ x).isSome at hx
      change (Function.update T.types d _ x).isSome
      rw [Function.update_apply] at hx ⊢
      split
      · rfl
      · next hne =>
        rw [if_neg hne] at hx
        exact hT.structs x hx
    obtain ⟨hw, hT'⟩ := ih hopen
    have hstructs : ∀ x, x ≠ d → ∀ y, T.structs x = some y →
        (T'.setStruct d { decl := d, name := a.nameOf s, members := found }).structs x =
        some y := by
      intro x hne y hy
      exact (Function.update_of_ne hne _ _).trans
        (hw.structs x y ((Function.update_of_ne hne _ _).trans hy))
    refine ⟨⟨fun x t hdecl ht => hw.types x t hdecl ((Function.update_of_ne ?_ _ _).trans ht),
      fun x y hy => ?_, hw.latest, hw.vars⟩, ⟨fun x hx => ?_, hT'.latest, hT'.bound⟩⟩
    · rintro rfl
      rw [hnone] at ht
      cases ht
    · refine hstructs x ?_ y hy
      rintro rfl
      rw [hno] at hy
      cases hy
    · by_cases hxd : x = d
      · subst hxd
        have hself := hw.types x _ (by rw [‹a.shape? x = _›]; rfl) (Function.update_self ..)
        change (T'.types x).isSome
        rw [hself]
        rfl
      · refine hT'.structs x ?_
        change (Function.update T'.structs d _ x).isSome at hx
        rwa [Function.update_of_ne hxd] at hx
  | @typeAlias P T T' d s ty t hx hnone _ hty ih =>
    refine ih.trans (.keepType t fun hd => ?_)
    rw [hty.pending List.mem_cons_self hd, hnone]
  | nil => exact .refl _
  | member _ _ _ ih₁ ih₂ => exact ih₁.trans ih₂
  | stray _ _ ih => exact ih

theorem Valued.adds {v : VariableShape Symbol NodeId} {t₀ t : Option Ty}
    (h : Valued a M v t₀ T t T') : T.Adds a T' := by
  cases h with
  | named _ h => exact h.adds
  | inferred _ _ => exact .refl _

theorem Calling.adds {g : NodeId} {k : Callee} (h : Calling a M T g k T') : T.Adds a T' := by
  cases h with
  | typed _ h => exact h.adds
  | declared _ _ _ h => exact h.adds
  | function _ _ _ _ => exact .refl _
  | builtin _ _ _ => exact .refl _

/-- A variable that is resolved for an expression is one that the expression leads to. -/
theorem Sensing.leads {f : ExprFinding} (h : Sensing a M F [] T f T') {d : NodeId}
    {v : VariableShape Symbol NodeId} (hv : a.asVariable? d = some v) (hnone : T.latest d = none)
    (hsome : (T'.latest d).isSome) :
    ∃ e ∈ f.nodes, Relation.TransGen (Leads a M) e v.initializer := by
  induction h with
  | absent => simp [hnone] at hsome
  | known _ _ _ _ => simp [hnone] at hsome
  | @entered T T₁ T₂ i s d' v' t₀ t hs hd _ hv' _ hval _ ih =>
    by_cases hdd : d = d'
    · subst hdd
      cases hv.symm.trans hv'
      exact ⟨i, List.mem_singleton.2 rfl, .single (.inr ⟨s, d, v, hs, hd, hv, rfl⟩)⟩
    · rw [Table.latest_use, Table.latest_addValue, Function.update_of_ne hdd,
        (Valued.beyond hval).latest] at hsome
      obtain ⟨e, he, hlead⟩ := ih hnone hsome
      cases List.mem_singleton.1 he
      exact ⟨i, List.mem_singleton.2 rfl, .head (.inr ⟨s, d', v', hs, hd, hv', rfl⟩) hlead⟩
  | plain hx _ _ _ ih =>
    obtain ⟨e, he, hlead⟩ := ih hnone (by simpa using hsome)
    exact ⟨_, List.mem_singleton.2 rfl, .head (.inl ⟨_, hx, he⟩) hlead⟩
  | call hx _ hk _ ih =>
    rw [Table.latest_note, (Calling.beyond hk).latest] at hsome
    obtain ⟨e, he, hlead⟩ := ih hnone hsome
    exact ⟨_, List.mem_singleton.2 rfl, .head (.inl ⟨_, hx, he⟩) hlead⟩
  | nil => simp [hnone] at hsome
  | @cons T T₁ T₂ e t es ts _ _ ih₁ ih₂ =>
    cases hmid : T₁.latest d with
    | some n =>
      obtain ⟨e', he, hlead⟩ := ih₁ hnone (by simp [hmid])
      exact ⟨e', by simp_all, hlead⟩
    | none =>
      obtain ⟨e', he, hlead⟩ := ih₂ hmid hsome
      exact ⟨e', List.mem_cons_of_mem _ he, hlead⟩

/-- Resolving the initializer of a variable does not resolve the variable. -/
theorem Sensing.latest_self {d : NodeId} {v : VariableShape Symbol NodeId} {t₀ : Option Ty}
    (h : Sensing a M F [] T (.one v.initializer t₀) T') (hT : GroundedIn a M T)
    (hv : a.asVariable? d = some v) (hnone : T.latest d = none) : T'.latest d = none := by
  by_contra hsome
  obtain ⟨e, he, hlead⟩ := h.leads hv hnone (Option.isSome_iff_ne_none.2 hsome)
  cases List.mem_singleton.1 he
  exact not_lead_back ((h.grounded hT).2 _ (List.mem_singleton.2 rfl)) hlead

theorem Sensing.adds {f : ExprFinding} (h : Sensing a M F [] T f T') (hT : GroundedIn a M T) :
    T.Adds a T' := by
  induction h with
  | absent => exact .refl _
  | known => exact (Table.Adds.note _ _).trans (.keepSense _ _)
  | @entered T T₁ T₂ i s d v t₀ t _ _ hnone hv hinit hval _ ih =>
    have hfree : T₂.latest d = none := by
      rw [(Valued.beyond hval).latest]
      exact hinit.latest_self (T := T.note i {}) hT hv hnone
    exact ((((Table.Adds.note _ _).trans (ih hT)).trans hval.adds).trans (.addValue t hfree)).trans
      (.keepSense _ _)
  | plain _ _ _ _ ih => exact ((Table.Adds.note _ _).trans (ih hT)).trans (.keepSense _ _)
  | call _ _ hk _ ih =>
    exact (((Table.Adds.note _ _).trans (ih hT)).trans hk.adds).trans (.note _ _)
  | nil => exact .refl _
  | cons he _ ih₁ ih₂ => exact (ih₁ hT).trans (ih₂ (he.grounded hT).1)

theorem Sensing.results {Γ : List Frame} {f : ExprFinding} (h : Sensing a M F Γ T f T') :
    T'.results = T.results := by
  induction h with
  | absent => rfl
  | @known T i s d n =>
    unfold Table.use
    cases (T.note i {}).identifier? n <;> rfl
  | @entered T T₁ T₂ i s d v t₀ t _ _ _ _ _ hval _ ih =>
    have huse : ((T₂.addValue d t).use i T₂.size).results = T₂.results := by
      unfold Table.use
      cases (T₂.addValue d t).identifier? T₂.size <;> rfl
    exact huse.trans ((Valued.beyond hval).results.trans ih)
  | @plain T T₁ i x ts o _ _ _ _ ih =>
    have hkeep : (T₁.keepSense i o).results = T₁.results := by cases o <;> rfl
    exact hkeep.trans ih
  | call _ _ hk _ ih => exact (Calling.beyond hk).results.trans ih
  | nil => rfl
  | cons _ _ ih₁ ih₂ => exact ih₂.trans ih₁

section Lasting

/-- What is found out about a type in a table that says no more than `E`. -/
def TypeFinding.Lasts (a : Arena) (M : Frame) (E : Table) : TypeFinding → Prop
  | node i t => TypeOf a M E i t
  | decl d t => (a.shape? d).any Shape.isTypeDecl = true → E.types d = t ∧ t.isSome
  | members _ _ => True

theorem Typing.lasts (ha : a.TypesPresent) {P : List NodeId} {f : TypeFinding}
    (h : Typing a M P T f T') (hT : T.Coherent) (hE : T'.Within a E) : f.Lasts a M E := by
  have hkeep : ∀ {T : Table} {i x t}, a.shape? i = some (.type x) → (T.keepType i t).Within a E →
      T.Within a E := by
    intro T i x t hx h
    cases t with
    | none => exact h
    | some t =>
      refine ⟨fun d u hd hu => h.types d u hd ((Function.update_of_ne ?_ _ _).trans hu), h.structs,
        h.latest, h.vars⟩
      rintro rfl
      exact not_isTypeDecl_of_type hx hd
  induction h with
  | absent => exact .absent
  | plain hx ht => exact .plain hx ht
  | around hx he _ ih => exact .around hx he (ih hT (hkeep hx hE))
  | named hx hs hd _ ih =>
    obtain ⟨htype, hsome⟩ := ih ((Table.Adds.setName (a := a) _ _) hT).2 (hkeep hx hE) hd
    obtain ⟨t, rfl⟩ := Option.isSome_iff_exists.1 hsome
    exact .named hx hs hd htype
  | known ht => exact fun hd => ⟨hE.types _ _ hd ht, rfl⟩
  | @struct P T T' d s ms as found hx hnone hnot hms _ =>
    intro hd
    have hself : T'.types d = some (.struct d (a.nameOf s)) := by
      rw [hms.pending List.mem_cons_self hd]
      exact Function.update_self ..
    exact ⟨hE.types d _ hd hself, rfl⟩
  | @typeAlias P T T' d s ty t hx hnone hnot hty _ =>
    intro hd
    obtain ⟨u, rfl⟩ := Option.isSome_iff_exists.1 ((hty.present ha) (ha.typeAlias hx))
    exact ⟨hE.types d u hd (Function.update_self ..), rfl⟩
  | nil => trivial
  | member => trivial
  | stray => trivial

theorem Valued.lasts (ha : a.TypesPresent) {v : VariableShape Symbol NodeId} {t₀ t : Option Ty}
    (h : Valued a M v t₀ T t T') (hT : T.Coherent) (hE : T'.Within a E) : ValueOf a M E v t₀ t := by
  cases h with
  | named h0 ht => exact .named h0 (ht.lasts ha hT hE)
  | inferred h0 hi => exact .inferred h0 hi

/-- No function can be called while the values of the module are resolved. -/
theorem Calling.lasts (ha : a.TypesPresent) {g : NodeId} {k : Callee} (h : Calling a M T g k T')
    (hT : T.Coherent) (hresults : ∀ d, T.results d = none) (hE : T'.Within a E) :
    Calls a M E g k := by
  cases h with
  | typed hx ht => exact .typed hx (ht.lasts ha hT hE)
  | declared hs hd hdecl ht =>
    obtain ⟨htype, hsome⟩ := ht.lasts ha hT hE hdecl
    obtain ⟨t, rfl⟩ := Option.isSome_iff_exists.1 hsome
    exact .declared hs hd hdecl htype
  | function _ _ _ ht =>
    rw [hresults] at ht
    cases ht
  | builtin hs hnot hrule => exact .builtin hs hnot hrule

theorem Table.Within.compose (h : T.Within a E) {x : ExprShape Symbol NodeId}
    {ts : List (Option Ty)} {o : Option ExprFacts} (ho : T.compose a x ts = some o) :
    E.compose a x ts = some o := by
  have hselect : ∀ {name t e}, T.select name t = some e → E.select name t = some e := by
    intro name t e he
    cases t with
    | struct d n =>
      obtain ⟨m, hm, rfl⟩ := Option.map_eq_some_iff.1 he
      obtain ⟨s, hs, hm⟩ := Option.bind_eq_some_iff.1 hm
      simp [Table.select, h.structs d s hs, hm]
    | _ => exact he
  unfold Table.compose at ho ⊢
  split at ho
  all_goals first
    | exact ho
    | skip
  next t =>
    obtain ⟨e, he, rfl⟩ := Option.map_eq_some_iff.1 ho
    simp [hselect he]

theorem Table.Within.addValue {d : NodeId} {t : Option Ty} (h : (T.addValue d t).Within a E) :
    E.latest d = some T.size ∧ E.vars T.size = some ⟨d, t⟩ :=
  ⟨h.latest d _ (by simp), h.vars _ _ (Function.update_self ..)⟩

/-- The initializer of a variable of the module, and the variable, once everything is known. -/
def Initialized (a : Arena) (M : Frame) (E : Table) (F : NodeId → ExprFacts → Prop) (d : NodeId)
    (v : VariableShape Symbol NodeId) : Prop :=
  ∃ t₀ t n, Reads a M E F [] (.one v.initializer t₀) ∧ ValueOf a M E v t₀ t ∧ E.latest d = some n ∧
    E.vars n = some ⟨d, t⟩

/-- Whatever is known so far is initialized. -/
def Table.Initialized (T : Table) (a : Arena) (M : Frame) (E : Table)
    (F : NodeId → ExprFacts → Prop) : Prop :=
  ∀ d v, (T.latest d).isSome → a.asVariable? d = some v → ShaderLoom.Initialized a M E F d v

theorem Table.Initialized.of_latest (h : T.Initialized a M E F) (hl : T'.latest = T.latest) :
    T'.Initialized a M E F :=
  fun d v hd hv => h d v (by rwa [← hl]) hv

theorem Table.Initialized.addValue (h : T.Initialized a M E F) {d : NodeId}
    {v : VariableShape Symbol NodeId} (hv : a.asVariable? d = some v)
    (hd : ShaderLoom.Initialized a M E F d v) (t : Option Ty) :
    (T.addValue d t).Initialized a M E F := by
  intro d' v' hd' hv'
  by_cases hdd : d' = d
  · subst hdd
    cases hv.symm.trans hv'
    exact hd
  · rw [Table.latest_addValue, Function.update_of_ne hdd] at hd'
    exact h d' v' hd' hv'

/-- What may be found out, restricted to what there is to find at module scope. -/
def Lasting (a : Arena) (M : Frame) (E : Table) (F : NodeId → ExprFacts → Prop) (i : NodeId)
    (e : ExprFacts) : Prop :=
  F i e ∧ Found a M E [] i e

/-- What is found out about expressions of the module's own declarations lasts. -/
theorem Sensing.lasts (ha : a.TypesPresent) {f : ExprFinding} (h : Sensing a M F [] T f T')
    (hT : T.Coherent) (hg : GroundedIn a M T) (hresults : ∀ d, T.results d = none)
    (hE : T'.Within a E) :
    Reads a M E F [] f ∧ Sensing a M (Lasting a M E F) [] T f T' ∧
    (T.Initialized a M E F → T'.Initialized a M E F) := by
  induction h with
  | absent => exact ⟨.absent, .absent, id⟩
  | @known T i s d n hs hd hn hF =>
    have hE₀ := Table.Adds.within
      ((Table.Adds.note i {}).trans (.keepSense i ((T.note i {}).identifier? n))) hT hE
    obtain ⟨t, ht⟩ := hT.latest d n hn
    have hid : (T.identifier? n).getD {} = { variableId := some n, type := t } := by
      simp [Table.identifier?, ht]
    have htype : T.typeAt n = t := by simp [Table.typeAt, ht]
    have hscope : inScope M E [] s = some (n, t) := by
      have hd : M.find? s = some d := hd
      simp [inScope, Levels.find?, hd, hE₀.latest d n hn, Table.typeAt, hE₀.vars n _ ht]
    refine ⟨?_, .known hs hd hn ⟨hF, ?_⟩, fun h => h.of_latest (by simp)⟩
    · rw [htype]
      exact .ident hs hscope (hid ▸ hF)
    · rw [hid]
      exact .ident hs hscope
  | @entered T T₁ T₂ i s d v t₀ t hs hd hnone hv hinit hval hF ih =>
    have hT₀ := ((Table.Adds.note (a := a) i {}) hT).2
    have hT₁ := (hinit.adds hg hT₀).2
    have hT₂ := (hval.adds hT₁).2
    have hfree : T₂.latest d = none := by
      rw [(Valued.beyond hval).latest]
      exact hinit.latest_self (T := T.note i {}) hg hv hnone
    have hT₃ := (Table.Adds.addValue (a := a) t hfree hT₂).2
    have hE₃ := (Table.Adds.keepSense i _).within hT₃ hE
    have hE₂ := (Table.Adds.addValue t hfree).within hT₂ hE₃
    obtain ⟨hread, hsense, hknown⟩ := ih hT₀ hg hresults (hval.adds.within hT₁ hE₂)
    obtain ⟨hlatest, hvars⟩ := hE₃.addValue
    have hdone : ShaderLoom.Initialized a M E F d v :=
      ⟨t₀, t, _, hread, hval.lasts ha hT₁ hE₂, hlatest, hvars⟩
    have hscope : inScope M E [] s = some (T₂.size, t) := by
      have hd : M.find? s = some d := hd
      simp [inScope, Levels.find?, hd, hlatest, Table.typeAt, hvars]
    refine ⟨.ident hs hscope hF, .entered hs hd hnone hv hsense hval ⟨hF, .ident hs hscope⟩,
      fun h => ?_⟩
    refine Table.Initialized.of_latest (T := T₂.addValue d t) ?_ (by simp)
    exact Table.Initialized.addValue ((hknown h).of_latest (Valued.beyond hval).latest) hv hdone t
  | @plain T T₁ i x ts o hx hall ho hF ih =>
    have hT₀ := ((Table.Adds.note (a := a) i {}) hT).2
    have hT₁ := (hall.adds hg hT₀).2
    have hE₁ := (Table.Adds.keepSense i o).within hT₁ hE
    obtain ⟨hread, hsense, hknown⟩ := ih hT₀ hg hresults hE₁
    exact ⟨.plain hx hread (hE₁.compose ho) hF,
      .plain hx hsense ho ⟨hF, .plain hx hread.anything (hE₁.compose ho)⟩,
      fun h => Table.Initialized.of_latest (hknown h) (by simp)⟩
  | @call T T₁ T₂ i g args ts k hx hall hk hF ih =>
    have hT₀ := ((Table.Adds.note (a := a) i {}) hT).2
    have hT₁ := (hall.adds hg hT₀).2
    have hT₂ := (hk.adds hT₁).2
    have hE₂ := (Table.Adds.note i _).within hT₂ hE
    obtain ⟨hread, hsense, hknown⟩ := ih hT₀ hg hresults (hk.adds.within hT₁ hE₂)
    have hnone : ∀ d, T₁.results d = none := fun d => (congrFun hall.results d).trans (hresults d)
    have hcalls := hk.lasts ha hT₁ hnone hE₂
    exact ⟨.call hx hread hcalls hF, .call hx hsense hk ⟨hF, .call hx hread.anything hcalls⟩,
      fun h => Table.Initialized.of_latest (hknown h) (Calling.beyond hk).latest⟩
  | nil => exact ⟨.nil, .nil, id⟩
  | @cons T T₁ T₂ e t es ts he hes ih₁ ih₂ =>
    have hT₁ := (he.adds hg hT).2
    have hg₁ := (he.grounded hg).1
    obtain ⟨hread₁, hsense₁, hknown₁⟩ := ih₁ hT hg hresults ((hes.adds hg₁).within hT₁ hE)
    obtain ⟨hread₂, hsense₂, hknown₂⟩ :=
      ih₂ hT₁ hg₁ (fun d => (congrFun he.results d).trans (hresults d)) hE
    exact ⟨.cons hread₁ hread₂, .cons hsense₁ hsense₂, fun h => hknown₂ (hknown₁ h)⟩

end Lasting

/-- How far the declarations of a module are through. -/
structure Table.Underway (T : Table) (a : Arena) (M : Frame) : Prop where
  coherent : T.Coherent
  grounded : GroundedIn a M T
  results : ∀ d, T.results d = none

theorem Table.Underway.empty (a : Arena) (M : Frame) : Table.empty.Underway a M :=
  ⟨.empty, fun _ _ h => by simp [Table.empty] at h, fun _ => rfl⟩

theorem Introducing.underway {d : NodeId} (h : Introducing a M F d T T') (hT : T.Underway a M) :
    T'.Underway a M ∧ T.Within a T' := by
  cases h with
  | type _ ht =>
    obtain ⟨hw, hc⟩ := ht.adds hT.coherent
    refine ⟨⟨hc, ?_, fun d => by rw [ht.beyond.results]; exact hT.results d⟩, hw⟩
    rw [GroundedIn, ht.beyond.latest]
    exact hT.grounded
  | known _ _ => exact ⟨hT, .refl _⟩
  | @value T₁ T₂ v t₀ t hv hnone hinit hval =>
    have hfree : T₂.latest d = none := by
      rw [(Valued.beyond hval).latest]
      exact hinit.latest_self hT.grounded hv hnone
    obtain ⟨hw, hc⟩ :=
      ((hinit.adds hT.grounded).trans hval.adds).trans (.addValue t hfree) hT.coherent
    obtain ⟨hg₁, hinitial⟩ := hinit.grounded hT.grounded
    refine ⟨⟨hc, fun x v' hx hv' => ?_, fun d => ?_⟩, hw⟩
    · by_cases hxd : x = d
      · subst hxd
        cases hv.symm.trans hv'
        exact hinitial _ (List.mem_singleton.2 rfl)
      · rw [Table.latest_addValue, Function.update_of_ne hxd, (Valued.beyond hval).latest] at hx
        exact hg₁ x v' hx hv'
    · exact (congrFun ((Valued.beyond hval).results.trans hinit.results) d).trans (hT.results d)
  | other _ _ => exact ⟨hT, .refl _⟩

theorem Introducing.lasts (ha : a.TypesPresent) {d : NodeId} (h : Introducing a M F d T T')
    (hT : T.Underway a M) (hE : T'.Within a E) :
    Introducing a M (Lasting a M E F) d T T' ∧
    (T.Initialized a M E F → T'.Initialized a M E F) := by
  cases h with
  | type hd ht => exact ⟨.type hd ht, fun h => h.of_latest ht.beyond.latest⟩
  | known hv hn => exact ⟨.known hv hn, id⟩
  | @value T₁ T₂ v t₀ t hv hnone hinit hval =>
    have hT₁ := (hinit.adds hT.grounded hT.coherent).2
    have hT₂ := (hval.adds hT₁).2
    have hfree : T₂.latest d = none := by
      rw [(Valued.beyond hval).latest]
      exact hinit.latest_self hT.grounded hv hnone
    have hE₂ := (Table.Adds.addValue t hfree).within hT₂ hE
    have hE₁ := hval.adds.within hT₁ hE₂
    obtain ⟨hread, hsense, hmore⟩ := hinit.lasts ha hT.coherent hT.grounded hT.results hE₁
    obtain ⟨hlatest, hvars⟩ := hE.addValue
    refine ⟨.value hv hnone hsense hval, fun hknown => ?_⟩
    exact ((hmore hknown).of_latest (Valued.beyond hval).latest).addValue hv
      ⟨t₀, t, _, hread, hval.lasts ha hT₁ hE₂, hlatest, hvars⟩ t
  | other hd hv => exact ⟨.other hd hv, id⟩

theorem Heading.adds {d : NodeId} (h : Heading a M d T T') : T.Adds a T' := by
  cases h with
  | typed _ _ ht => exact ((Table.Adds.setResult _ _).trans ht.adds).trans (.setResult _ _)
  | void _ _ => exact .setResult _ _
  | other _ => exact .refl _

theorem Heading.latest {d : NodeId} (h : Heading a M d T T') : T'.latest = T.latest := by
  cases h with
  | typed _ _ ht => exact ht.beyond.latest
  | void _ _ => rfl
  | other _ => rfl

theorem Along.latest {gs : List NodeId} (h : Along (Heading a M) gs T T') :
    T'.latest = T.latest := by
  induction h with
  | nil => rfl
  | cons h _ ih => exact ih.trans h.latest

theorem Along.adds {step : NodeId → Table → Table → Prop}
    (hstep : ∀ {d T T'}, step d T T' → T.Adds a T') {gs : List NodeId} (h : Along step gs T T') :
    T.Adds a T' := by
  induction h with
  | nil => exact .refl _
  | cons h _ ih => exact (hstep h).trans ih

theorem Along.underway {gs : List NodeId} (h : Along (Introducing a M F) gs T T')
    (hT : T.Underway a M) : T'.Underway a M ∧ T.Within a T' := by
  induction h with
  | nil => exact ⟨hT, .refl _⟩
  | cons h _ ih =>
    obtain ⟨hT₁, hw⟩ := h.underway hT
    obtain ⟨hT₂, hw'⟩ := ih hT₁
    exact ⟨hT₂, hw.trans hw'⟩

theorem Along.lasts (ha : a.TypesPresent) {gs : List NodeId} (h : Along (Introducing a M F) gs T T')
    (hT : T.Underway a M) (hE : T'.Within a E) :
    Along (Introducing a M (Lasting a M E F)) gs T T' ∧
    (T.Initialized a M E F → T'.Initialized a M E F) := by
  induction h with
  | nil => exact ⟨.nil, id⟩
  | cons h hrest ih =>
    obtain ⟨hT₁, _⟩ := h.underway hT
    obtain ⟨_, hw⟩ := hrest.underway hT₁
    obtain ⟨hstep, hmore⟩ := h.lasts ha hT (hw.trans hE)
    obtain ⟨hsteps, hmores⟩ := ih hT₁ hE
    exact ⟨.cons hstep hsteps, fun h => hmores (hmore h)⟩

/-- The values of a module whose declarations and heads are through. -/
theorem initialized_of_phases (ha : a.TypesPresent) {gs : List NodeId}
    (h₁ : Along (Introducing a M F) gs .empty T) (h₂ : Along (Heading a M) gs T E) :
    Along (Introducing a M (Lasting a M E F)) gs .empty T ∧
      E.Initialized a M E F ∧ E.Coherent := by
  obtain ⟨hT, _⟩ := h₁.underway (.empty a M)
  obtain ⟨hw, hE⟩ := h₂.adds Heading.adds hT.coherent
  obtain ⟨hlast, hknown⟩ := h₁.lasts ha (.empty a M) hw
  refine ⟨hlast, (hknown fun d v hd => ?_).of_latest h₂.latest, hE⟩
  simp [Table.empty] at hd

end ShaderLoom
