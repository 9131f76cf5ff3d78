import ShaderLoom.Proofs.Meaning.Typed

/-! What is in the record of expressions was found out, and what was found out is what the rules
allow. -/
namespace ShaderLoom

variable {a : Arena} {M : Frame} {F F' : NodeId → ExprFacts → Prop} {Γ Γ' : List Frame}
    {T T₁ T' : Table}

/-- Whatever the second table says anew of expressions is allowed. -/
def Table.Finds (F : NodeId → ExprFacts → Prop) (T T' : Table) : Prop :=
  ∀ j, T'.senses j = T.senses j ∨ ∃ e, T'.senses j = some e ∧ F j e

namespace Table.Finds

theorem of_eq (h : T'.senses = T.senses) : T.Finds F T' := fun j => .inl (congrFun h j)

theorem refl (T : Table) : T.Finds F T := of_eq rfl

theorem trans (h : T.Finds F T₁) (h' : T₁.Finds F T') : T.Finds F T' := by
  intro j
  rcases h' j with h₁ | h₁
  · rw [h₁]
    exact h j
  · exact .inr h₁

/-- A node that was noted as met before and is found to be something in the end. -/
theorem noted {i : NodeId} {o : Option ExprFacts} (h : (T.note i {}).Finds F T')
    (hF : F i (o.getD {})) : T.Finds F (T'.keepSense i o) := by
  intro j
  by_cases hj : j = i
  · subst hj
    cases o with
    | some e => exact .inr ⟨e, by simp [keepSense, note], hF⟩
    | none =>
      rcases h j with h₁ | h₁
      · exact .inr ⟨{}, h₁.trans (by simp [note]), hF⟩
      · exact .inr h₁
  · have hout : (T'.keepSense i o).senses j = T'.senses j := by
      cases o <;> simp [keepSense, note, hj]
    have hin : (T.note i {}).senses j = T.senses j := by simp [note, hj]
    rw [hout, ← hin]
    exact h j

end Table.Finds

theorem Sensing.finds {f : ExprFinding} (h : Sensing a M F Γ T f T') : T.Finds F T' := by
  induction h with
  | absent => exact .refl _
  | known _ _ _ hF => exact Table.Finds.noted (.refl _) hF
  | @entered T T₁ T₂ i s d v t₀ t _ _ _ _ _ hval hF ih =>
    have hid : (T₂.addValue d t).identifier? T₂.size =
        some { variableId := some T₂.size, type := t } := by
      simp [Table.identifier?, Table.addValue]
    have hsenses : (T₂.addValue d t).senses = T₁.senses := (Valued.beyond hval).senses
    unfold Table.use
    rw [hid]
    exact Table.Finds.noted (ih.trans (.of_eq hsenses)) hF
  | plain _ _ _ hF ih => exact ih.noted hF
  | @call T T₁ T₂ i g args ts k _ _ hk hF ih =>
    exact Table.Finds.noted (ih.trans (.of_eq (Calling.beyond hk).senses))
      (o := some (k.sense ts)) hF
  | nil => exact .refl _
  | cons _ _ ih₁ ih₂ => exact ih₁.trans ih₂

theorem Declaring.finds {d : NodeId} {v : VariableShape Symbol NodeId}
    (h : Declaring a M F d v Γ T Γ' T') : T.Finds F T' := by
  obtain ⟨hinit, hval, _⟩ := h
  exact hinit.finds.trans (.of_eq (Valued.beyond hval).senses)

theorem Scoping.finds {part : Part} (h : Scoping a M F Γ T part Γ' T') : T.Finds F T' := by
  induction h with
  | absent => exact .refl _
  | simple _ _ hes => exact hes.finds
  | varDecl _ _ hd => exact hd.finds
  | stray => exact .refl _
  | block _ _ ih => exact ih
  | ifElse _ hcond _ _ ih₁ ih₂ => exact (hcond.finds.trans ih₁).trans ih₂
  | forLoop _ _ hcond _ _ ih₁ ih₂ ih₃ => exact ((ih₁.trans hcond.finds).trans ih₂).trans ih₃
  | whileLoop _ hcond _ ih => exact hcond.finds.trans ih
  | loop _ _ _ ih₁ ih₂ => exact ih₁.trans ih₂
  | opened _ _ ih => exact ih
  | lacking => exact .refl _
  | nil => exact .refl _
  | cons _ _ ih₁ ih₂ => exact ih₁.trans ih₂

theorem Parameters.finds {ds : List NodeId} (h : Parameters a M F ds Γ T Γ' T') : T.Finds F T' := by
  induction h with
  | nil => exact .refl _
  | cons _ _ hd _ ih => exact hd.finds.trans ih

theorem Introducing.finds {d : NodeId} (h : Introducing a M F d T T') : T.Finds F T' := by
  cases h with
  | type _ ht => exact .of_eq ht.beyond.senses
  | known _ _ => exact .refl _
  | value _ _ hinit hval => exact hinit.finds.trans (.of_eq (Valued.beyond hval).senses)
  | other _ _ => exact .refl _

theorem Heading.senses {d : NodeId} (h : Heading a M d T T') : T'.senses = T.senses := by
  cases h with
  | typed _ _ ht => exact ht.beyond.senses
  | void _ _ => rfl
  | other _ => rfl

theorem Containing.finds {d : NodeId} (h : Containing a M F d T T') : T.Finds F T' := by
  cases h with
  | function _ hparams hbody => exact hparams.finds.trans hbody.finds
  | other _ => exact .refl _

theorem Along.finds {step : NodeId → Table → Table → Prop}
    (hstep : ∀ {d T T'}, step d T T' → T.Finds F T') {gs : List NodeId} (h : Along step gs T T') :
    T.Finds F T' := by
  induction h with
  | nil => exact .refl _
  | cons h _ ih => exact (hstep h).trans ih

/-- What the record of a well typed module says of an expression is allowed. -/
theorem WellTyped.allowed {gs : List NodeId} (h : WellTyped a F gs M T) {j : NodeId} {e : ExprFacts}
    (he : T.senses j = some e) : F j e := by
  obtain ⟨_, T₁, T₂, h₁, h₂, h₃⟩ := h
  have hfinds := ((h₁.finds Introducing.finds).trans (h₂.finds fun h => .of_eq h.senses)).trans
    (h₃.finds Containing.finds)
  rcases hfinds j with h | ⟨e', he', hF⟩
  · rw [he] at h
    cases h
  · cases he.symm.trans he'
    exact hF

section Restrict

variable {region : NodeId → Prop}

/-- The expressions that are resolved from those of a region are in the region. -/
structure ClosedRegion (a : Arena) (M : Frame) (region : NodeId → Prop) : Prop where
  operands : ∀ {i x}, region i → a.shape? i = some (.expr x) → ∀ e ∈ x.operands, e ≠ 0 → region e
  initializer : ∀ {s d v}, M.find? s = some d → a.asVariable? d = some v → v.initializer ≠ 0 →
    region v.initializer

/-- What is found out in a region may be asked to be more, as far as the region goes. -/
theorem Sensing.restrict (hregion : ClosedRegion a M region)
    (hF : ∀ {i e}, region i → F i e → F' i e) {f : ExprFinding} (h : Sensing a M F [] T f T')
    (hf : ∀ e ∈ f.nodes, e ≠ 0 → region e) : Sensing a M F' [] T f T' := by
  have hne : ∀ {i x}, a.shape? i = some x → i ≠ 0 := by
    rintro _ _ hx rfl
    cases hx
  induction h with
  | absent => exact .absent
  | known hs hd hn h => exact .known hs hd hn (hF (hf _ (List.mem_singleton.2 rfl) (hne hs)) h)
  | entered hs hd hnone hv _ hval h ih =>
    refine .entered hs hd hnone hv (ih ?_) hval (hF (hf _ (List.mem_singleton.2 rfl) (hne hs)) h)
    simpa using hregion.initializer hd hv
  | plain hx _ hcompose h ih =>
    have hi := hf _ (List.mem_singleton.2 rfl) (hne hx)
    exact .plain hx (ih (hregion.operands hi hx)) hcompose (hF hi h)
  | call hx _ hk h ih =>
    have hi := hf _ (List.mem_singleton.2 rfl) (hne hx)
    exact .call hx (ih (hregion.operands hi hx)) hk (hF hi h)
  | nil => exact .nil
  | cons _ _ ih₁ ih₂ =>
    exact .cons (ih₁ fun e he => hf e (by simp_all))
      (ih₂ fun e he => hf e (List.mem_cons_of_mem _ he))

theorem Introducing.restrict (hregion : ClosedRegion a M region)
    (hF : ∀ {i e}, region i → F i e → F' i e) {d : NodeId}
    (hd : ∀ {v}, a.asVariable? d = some v → v.initializer ≠ 0 → region v.initializer)
    (h : Introducing a M F d T T') : Introducing a M F' d T T' := by
  cases h with
  | type hd ht => exact .type hd ht
  | known hv hn => exact .known hv hn
  | value hv hnone hinit hval =>
    exact .value hv hnone (hinit.restrict hregion hF (by simpa using hd hv)) hval
  | other hd hv => exact .other hd hv

/-- Steps may be replaced by others along the list. -/
theorem Along.imp {σ : Type} {step step' : NodeId → σ → σ → Prop} {gs : List NodeId} {S S' : σ}
    (hstep : ∀ d ∈ gs, ∀ {S S'}, step d S S' → step' d S S') (h : Along step gs S S') :
    Along step' gs S S' := by
  induction h with
  | nil => exact .nil
  | cons h _ ih =>
    exact .cons (hstep _ List.mem_cons_self h) (ih fun d hd => hstep d (List.mem_cons_of_mem _ hd))

end Restrict

section Rules

/-- A call is one of a builtin function only where the module has nothing to call under its name. -/
def Ruled (a : Arena) (M : Frame) (i : NodeId) (e : ExprFacts) : Prop :=
  ∀ g args s d, a.shape? i = some (.expr (.call g args)) → a.shape? g = some (.expr (.ident s)) →
    e.builtin ≠ "" →
    M.find? s = some d → (a.shape? d).any Shape.isTypeDecl = false ∧ a.function? d = none

/-- What is known of a member is what its declaration says of it. -/
def Arena.Member (a : Arena) (m : MemberFacts) : Prop :=
  ∃ s ty as, a.shape? m.decl = some (.structMember s ty as) ∧ m.name = a.nameOf s ∧
    m.builtin = a.builtinOf as

/-- A structure of the module has the member. -/
def Arena.HasMember (a : Arena) (gs : List NodeId) (d : NodeId) (m : MemberFacts) : Prop :=
  d ∈ gs ∧ ∃ s ms as, a.shape? d = some (.decl (.struct s ms as)) ∧ m.decl ∈ ms ∧ a.Member m

/-- What is known of structures is about members that they have. -/
def Table.Formed (a : Arena) (gs : List NodeId) (T : Table) : Prop :=
  ∀ d st, T.structs d = some st → ∀ m ∈ st.members, a.HasMember gs d m

/-- A member is one of the structure that its object was found to be. -/
def Selected (a : Arena) (F : NodeId → ExprFacts → Prop) (gs : List NodeId) (i : NodeId)
    (e : ExprFacts) : Prop :=
  ∀ m, e.member = some m → ∃ o s e' d n, a.shape? i = some (.expr (.member o s)) ∧ F o e' ∧
    e'.type = some (.struct d n) ∧ a.HasMember gs d m

variable {gs : List NodeId}

theorem Table.Formed.setStruct (hT : T.Formed a gs) {d : NodeId} {st : StructFacts}
    (h : ∀ m ∈ st.members, a.HasMember gs d m) : (T.setStruct d st).Formed a gs := by
  intro d' st' hst
  simp only [Table.setStruct, Function.update_apply] at hst
  split at hst
  · next hd =>
    cases hst
    rwa [hd]
  · exact hT d' st' hst

theorem Table.Formed.of_eq (hT : T.Formed a gs) (h : T'.structs = T.structs) : T'.Formed a gs := by
  unfold Formed
  rwa [h]

theorem Table.structs_keepType (T : Table) (i : NodeId) (t : Option Ty) :
    (T.keepType i t).structs = T.structs := by
  cases t <;> rfl

theorem Table.structs_keepSense (T : Table) (i : NodeId) (o : Option ExprFacts) :
    (T.keepSense i o).structs = T.structs := by
  cases o <;> rfl

theorem Typing.decl_of_members {P : List NodeId} {f : TypeFinding} (h : Typing a M P T f T') :
    ∀ ms found, f = .members ms found → ∀ m ∈ found, m.decl ∈ ms.map Prod.fst ∧ a.Member m := by
  induction h with
  | nil =>
    rintro _ _ ⟨⟩ m hm
    cases hm
  | member hs _ _ _ ih =>
    rintro _ _ ⟨⟩ m hm
    rcases List.mem_cons.1 hm with rfl | hm
    · exact ⟨List.mem_cons_self, _, _, _, hs, rfl, rfl⟩
    · exact (ih _ _ rfl m hm).imp_left (List.mem_cons_of_mem _)
  | stray _ _ ih =>
    rintro _ _ ⟨⟩ m hm
    exact (ih _ _ rfl m hm).imp_left (List.mem_cons_of_mem _)
  | _ => exact nofun

/-- A structure or alias that something is found out about is a declaration of the module. -/
def TypeFinding.Of (gs : List NodeId) : TypeFinding → Prop
  | decl d _ => d ∈ gs
  | _ => True

section

variable (hM : ∀ s d, M.find? s = some d → d ∈ gs)
include hM

theorem Typing.formed {P : List NodeId} {f : TypeFinding} (h : Typing a M P T f T') (hf : f.Of gs)
    (hT : T.Formed a gs) : T'.Formed a gs := by
  induction h with
  | absent => exact hT
  | plain _ _ => exact hT
  | around _ _ _ ih => exact (ih trivial hT).of_eq (Table.structs_keepType _ _ _)
  | named _ hd _ _ ih => exact (ih (hM _ _ hd) hT).of_eq (Table.structs_keepType _ _ _)
  | known _ => exact hT
  | struct hs _ _ hms ih =>
    refine (ih trivial ?_).setStruct fun m hm => ?_
    · refine Table.Formed.setStruct hT ?_
      simp
    · obtain ⟨hmem, hmember⟩ := hms.decl_of_members _ _ rfl m hm
      exact ⟨hf, _, _, _, hs, by simpa using hmem, hmember⟩
  | typeAlias _ _ _ _ ih => exact (ih trivial hT).of_eq (Table.structs_keepType _ _ _)
  | nil => exact hT
  | member _ _ _ ih₁ ih₂ => exact ih₂ trivial (ih₁ trivial hT)
  | stray _ _ ih => exact ih trivial hT

theorem Valued.formed {v : VariableShape Symbol NodeId} {t₀ t : Option Ty}
    (h : Valued a M v t₀ T t T') (hT : T.Formed a gs) : T'.Formed a gs := by
  cases h with
  | named _ h => exact h.formed hM trivial hT
  | inferred _ _ => exact hT

theorem Calling.formed {g : NodeId} {k : Callee} (h : Calling a M T g k T') (hT : T.Formed a gs) :
    T'.Formed a gs := by
  cases h with
  | typed _ h => exact h.formed hM trivial hT
  | declared _ hd _ h => exact h.formed hM (hM _ _ hd) hT
  | function _ _ _ _ => exact hT
  | builtin _ _ _ => exact hT

end

/-- An expression was found to have its type. -/
theorem Sensing.typed {f : ExprFinding} (h : Sensing a M F Γ T f T') :
    ∀ {i t}, f = .one i (some t) → ∃ e, F i e ∧ e.type = some t := by
  cases h with
  | @known T i _ _ n _ _ _ hF =>
    intro j t hf
    injection hf with hi ht
    obtain ⟨v, hv, hvt⟩ := Option.bind_eq_some_iff.1 ht
    exact ⟨_, hi ▸ hF, by simp [Table.identifier?, hv, hvt]⟩
  | entered _ _ _ _ _ _ hF =>
    intro j t hf
    injection hf with hi ht
    exact ⟨_, hi ▸ hF, ht⟩
  | @plain T T₁ i x ts o _ _ _ hF =>
    intro j t hf
    injection hf with hi ht
    obtain ⟨e, rfl, he⟩ := Option.bind_eq_some_iff.1 ht
    exact ⟨e, hi ▸ hF, he⟩
  | call _ _ _ hF =>
    intro j t hf
    injection hf with hi ht
    exact ⟨_, hi ▸ hF, ht⟩
  | _ => exact nofun

/-- What is selected of an object is a vector's parts or a member of its structure. -/
theorem Table.Formed.select (hT : T.Formed a gs) {name : String} {t : Ty} {e : ExprFacts}
    (h : T.select name t = some e) {m : MemberFacts} (hm : e.member = some m) :
    ∃ d n, t = .struct d n ∧ a.HasMember gs d m := by
  unfold Table.select at h
  split at h
  · next d n =>
    obtain ⟨m', hm', rfl⟩ := Option.map_eq_some_iff.1 h
    obtain ⟨st, hst, hfind⟩ := Option.bind_eq_some_iff.1 hm'
    cases hm
    exact ⟨d, n, rfl, hT d st hst _ (List.mem_of_find?_eq_some hfind)⟩
  · obtain ⟨is, _, rfl⟩ := Option.map_eq_some_iff.1 h
    cases hm
  · cases h

/-- Only a member access is found to be a member. -/
theorem Table.Formed.compose (hT : T.Formed a gs) {x : ExprShape Symbol NodeId}
    {ts : List (Option Ty)} {o : Option ExprFacts} (h : T.compose a x ts = some o) {m : MemberFacts}
    (hm : (o.getD {}).member = some m) :
    ∃ b s d n, x = .member b s ∧ ts = [some (.struct d n)] ∧ a.HasMember gs d m := by
  unfold Table.compose at h
  split at h
  case h_9 b s t =>
    obtain ⟨e, he, rfl⟩ := Option.map_eq_some_iff.1 h
    obtain ⟨d, n, rfl, hmem⟩ := hT.select he hm
    exact ⟨b, s, d, n, rfl, rfl, hmem⟩
  case h_7 =>
    obtain ⟨u, _, rfl⟩ := Option.map_eq_some_iff.1 h
    cases hm
  all_goals cases h <;> cases hm

variable (hM : ∀ s d, M.find? s = some d → d ∈ gs)
  (hF : ∀ {i e}, F i e → Ruled a M i e → Selected a F gs i e → F' i e)
include hM hF

theorem Sensing.ruled {f : ExprFinding} (h : Sensing a M F Γ T f T') (hT : T.Formed a gs) :
    Sensing a M F' Γ T f T' ∧ T'.Formed a gs := by
  have hnot : ∀ {i e}, e.member = none → Selected a F gs i e := fun h m hm => by simp [h] at hm
  induction h with
  | absent => exact ⟨.absent, hT⟩
  | @known T i s d n hs hd hn h =>
    refine ⟨.known hs hd hn (hF h (fun _ _ _ _ hcall => by simp [hs] at hcall) (hnot ?_)),
      hT.of_eq (Table.structs_keepSense _ _ _)⟩
    cases hv : T.vars n <;> simp [Table.identifier?, hv]
  | entered hs hd hnone hv _ hval h ih =>
    obtain ⟨hinit, hT₁⟩ := ih hT
    have hT₂ := hval.formed hM hT₁
    exact ⟨.entered hs hd hnone hv hinit hval
      (hF h (fun _ _ _ _ hcall => by simp [hs] at hcall) (hnot rfl)),
      hT₂.of_eq (Table.structs_keepSense _ _ _)⟩
  | @plain T T₁ i x ts o hx hes hcompose h ih =>
    obtain ⟨hops, hT₁⟩ := ih hT
    refine ⟨.plain hx hops hcompose (hF h (fun g args s d hcall => ?_) ?_), ?_⟩
    · cases hx.symm.trans hcall
      simp [Table.compose] at hcompose
    · intro m hm
      obtain ⟨b, s, d, n, rfl, rfl, hmem⟩ := hT₁.compose hcompose hm
      cases hes with
      | cons hobject _ =>
        obtain ⟨e, he, ht⟩ := hobject.typed rfl
        exact ⟨b, s, e, d, n, hx, he, ht, hmem⟩
    · exact hT₁.of_eq (Table.structs_keepSense _ _ _)
  | call hx _ hk h ih =>
    obtain ⟨hargs, hT₁⟩ := ih hT
    have hT₂ := hk.formed hM hT₁
    refine ⟨.call hx hargs hk (hF h (fun g args s d hcall hs hb hd => ?_) (hnot ?_)), hT₂⟩
    · cases hx.symm.trans hcall
      cases hk with
      | typed => exact absurd rfl hb
      | declared => exact absurd rfl hb
      | function => exact absurd rfl hb
      | builtin hs' hnot =>
        cases hs.symm.trans hs'
        exact hnot d hd
    · cases hk <;> rfl
  | nil => exact ⟨.nil, hT⟩
  | cons _ _ ih₁ ih₂ =>
    obtain ⟨h₁, hT₁⟩ := ih₁ hT
    obtain ⟨h₂, hT₂⟩ := ih₂ hT₁
    exact ⟨.cons h₁ h₂, hT₂⟩

theorem Declaring.ruled {d : NodeId} {v : VariableShape Symbol NodeId}
    (h : Declaring a M F d v Γ T Γ' T') (hT : T.Formed a gs) :
    Declaring a M F' d v Γ T Γ' T' ∧ T'.Formed a gs := by
  obtain ⟨hinit, hval, henter⟩ := h
  obtain ⟨hinit, hT₁⟩ := hinit.ruled hM hF hT
  have hT₂ := hval.formed hM hT₁
  exact ⟨.intro hinit hval henter, hT₂⟩

theorem Scoping.ruled {part : Part} (h : Scoping a M F Γ T part Γ' T') (hT : T.Formed a gs) :
    Scoping a M F' Γ T part Γ' T' ∧ T'.Formed a gs := by
  induction h with
  | absent => exact ⟨.absent, hT⟩
  | simple hs hes h =>
    obtain ⟨h, hT'⟩ := h.ruled hM hF hT
    exact ⟨.simple hs hes h, hT'⟩
  | varDecl hs hv hd =>
    obtain ⟨hd, hT'⟩ := hd.ruled hM hF hT
    exact ⟨.varDecl hs hv hd, hT'⟩
  | stray hs hv => exact ⟨.stray hs hv, hT⟩
  | block hs _ ih =>
    obtain ⟨h, hT'⟩ := ih hT
    exact ⟨.block hs h, hT'⟩
  | ifElse hs hcond _ _ ih₁ ih₂ =>
    obtain ⟨hcond, hT₁⟩ := hcond.ruled hM hF hT
    obtain ⟨h₁, hT₂⟩ := ih₁ hT₁
    obtain ⟨h₂, hT₃⟩ := ih₂ hT₂
    exact ⟨.ifElse hs hcond h₁ h₂, hT₃⟩
  | forLoop hs _ hcond _ _ ih₁ ih₂ ih₃ =>
    obtain ⟨h₁, hT₁⟩ := ih₁ hT
    obtain ⟨hcond, hT₂⟩ := hcond.ruled hM hF hT₁
    obtain ⟨h₂, hT₃⟩ := ih₂ hT₂
    obtain ⟨h₃, hT₄⟩ := ih₃ hT₃
    exact ⟨.forLoop hs h₁ hcond h₂ h₃, hT₄⟩
  | whileLoop hs hcond _ ih =>
    obtain ⟨hcond, hT₁⟩ := hcond.ruled hM hF hT
    obtain ⟨h, hT₂⟩ := ih hT₁
    exact ⟨.whileLoop hs hcond h, hT₂⟩
  | loop hs _ _ ih₁ ih₂ =>
    obtain ⟨h₁, hT₁⟩ := ih₁ hT
    obtain ⟨h₂, hT₂⟩ := ih₂ hT₁
    exact ⟨.loop hs h₁ h₂, hT₂⟩
  | opened hb _ ih =>
    obtain ⟨h, hT'⟩ := ih hT
    exact ⟨.opened hb h, hT'⟩
  | lacking hb => exact ⟨.lacking hb, hT⟩
  | nil => exact ⟨.nil, hT⟩
  | cons _ _ ih₁ ih₂ =>
    obtain ⟨h₁, hT₁⟩ := ih₁ hT
    obtain ⟨h₂, hT₂⟩ := ih₂ hT₁
    exact ⟨.cons h₁ h₂, hT₂⟩

theorem Parameters.ruled {ds : List NodeId} (h : Parameters a M F ds Γ T Γ' T')
    (hT : T.Formed a gs) : Parameters a M F' ds Γ T Γ' T' ∧ T'.Formed a gs := by
  induction h with
  | nil => exact ⟨.nil, hT⟩
  | cons hv hkind hd _ ih =>
    obtain ⟨hd, hT₁⟩ := hd.ruled hM hF hT
    obtain ⟨h, hT₂⟩ := ih hT₁
    exact ⟨.cons hv hkind hd h, hT₂⟩

theorem Introducing.ruled {d : NodeId} (hd : d ∈ gs) (h : Introducing a M F d T T')
    (hT : T.Formed a gs) : Introducing a M F' d T T' ∧ T'.Formed a gs := by
  cases h with
  | type hdecl ht => exact ⟨.type hdecl ht, ht.formed hM hd hT⟩
  | known hv hn => exact ⟨.known hv hn, hT⟩
  | value hv hnone hinit hval =>
    obtain ⟨hinit, hT₁⟩ := hinit.ruled hM hF hT
    have hT₂ := hval.formed hM hT₁
    exact ⟨.value hv hnone hinit hval, hT₂⟩
  | other hd hv => exact ⟨.other hd hv, hT⟩

omit hF in
theorem Heading.formed {d : NodeId} (h : Heading a M d T T') (hT : T.Formed a gs) :
    T'.Formed a gs := by
  cases h with
  | typed _ _ ht =>
    have hT' := ht.formed hM trivial hT
    exact hT'
  | void _ _ => exact hT
  | other _ => exact hT

theorem Containing.ruled {d : NodeId} (h : Containing a M F d T T') (hT : T.Formed a gs) :
    Containing a M F' d T T' ∧ T'.Formed a gs := by
  cases h with
  | function hf hparams hbody =>
    obtain ⟨hparams, hT₁⟩ := hparams.ruled hM hF hT
    obtain ⟨hbody, hT₂⟩ := hbody.ruled hM hF hT₁
    exact ⟨.function hf hparams hbody, hT₂⟩
  | other hf => exact ⟨.other hf, hT⟩

omit hM hF

/-- Steps may be replaced by others along the list as long as something holds. -/
theorem Along.keep {σ : Type} {I : σ → Prop} {step step' : NodeId → σ → σ → Prop} {ds : List NodeId}
    {S S' : σ} (hstep : ∀ d ∈ ds, ∀ {S S'}, step d S S' → I S → step' d S S' ∧ I S')
    (h : Along step ds S S') (hS : I S) : Along step' ds S S' ∧ I S' := by
  induction h with
  | nil => exact ⟨.nil, hS⟩
  | cons h _ ih =>
    obtain ⟨h, hS₁⟩ := hstep _ List.mem_cons_self h hS
    obtain ⟨hrest, hS₂⟩ := ih (fun d hd => hstep d (List.mem_cons_of_mem _ hd)) hS₁
    exact ⟨.cons h hrest, hS₂⟩

namespace WellTyped

/-- What the record of a well typed module says of structures, of calls and of members follows the
rules. -/
theorem follows (h : WellTyped a F gs M T) : T.Formed a gs ∧
    ∀ {j e}, T.senses j = some e → Ruled a M j e ∧ Selected a F gs j e := by
  obtain ⟨hnames, T₁, T₂, h₁, h₂, h₃⟩ := h
  have hM : ∀ s d, M.find? s = some d → d ∈ gs := fun s d hd =>
    Resolve.mem_of_collect (a := a) (s := s) (by rwa [hnames])
  let F' := fun i e => Ruled a M i e ∧ Selected a F gs i e
  have hF : ∀ {i e}, F i e → Ruled a M i e → Selected a F gs i e → F' i e := fun _ h h' => ⟨h, h'⟩
  have hempty : Table.empty.Formed a gs := fun _ _ h => by cases h
  obtain ⟨h₁, hT₁⟩ : Along (Introducing a M F') gs .empty T₁ ∧ T₁.Formed a gs :=
    h₁.keep (I := Table.Formed a gs) (fun d hd _ _ h => h.ruled hM hF hd) hempty
  obtain ⟨h₂, hT₂⟩ := h₂.keep (I := Table.Formed a gs) (fun d _ _ _ h hT => ⟨h, h.formed hM hT⟩) hT₁
  obtain ⟨h₃, hT₃⟩ : Along (Containing a M F') gs T₂ T ∧ T.Formed a gs :=
    h₃.keep (I := Table.Formed a gs) (fun d _ _ _ h => h.ruled hM hF) hT₂
  have h' : WellTyped a F' gs M T := ⟨hnames, T₁, T₂, h₁, h₂, h₃⟩
  exact ⟨hT₃, h'.allowed⟩

end WellTyped

end Rules
end ShaderLoom
