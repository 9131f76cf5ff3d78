import ShaderLoom.Proofs.Meaning.Static

/-! In a program that is a tree, what is found out about an expression of a function is found out
once, so that it is what the record says in the end. -/
namespace ShaderLoom

/-- What is recorded of an expression. -/
def Table.Recorded (S : Table) (i : NodeId) (e : ExprFacts) : Prop := S.senses i = some e

/-- The variables that a module has are known. -/
def ValuesKnown (a : Arena) (M : Frame) (T : Table) : Prop :=
  ∀ s d, M.find? s = some d → (a.asVariable? d).isSome → (T.latest d).isSome

section

variable {p : Program} {M : Frame} {F : NodeId → ExprFacts → Prop} {Γ Γ' : List Frame}
    {T T' S : Table}

theorem ValuesKnown.mono {a : Arena} (h : ValuesKnown a M T)
    (hT : ∀ x, (T.latest x).isSome → (T'.latest x).isSome) :
    ValuesKnown a M T' := fun s d hs hd => hT d (h s d hs hd)

/-- Tables that say the same of expressions that are not below the nodes. -/
def Table.SameBeside (p : Program) (is : List NodeId) (T T' : Table) : Prop :=
  ∀ j, (∀ i ∈ is, i ≠ 0 → ¬ p.Below i j) → T'.senses j = T.senses j

/-- The record agrees with the table about what is below the nodes. -/
def Table.AgreeBelow (p : Program) (is : List NodeId) (S T : Table) : Prop :=
  ∀ j, (∃ i ∈ is, i ≠ 0 ∧ p.Below i j) → S.senses j = T.senses j

namespace Table.SameBeside

variable {is js : List NodeId} {i : NodeId}

theorem refl (p : Program) (is : List NodeId) (T : Table) : SameBeside p is T T := fun _ _ => rfl

theorem trans {T₁ : Table} (h : SameBeside p is T T₁) (h' : SameBeside p js T₁ T') :
    SameBeside p (is ++ js) T T' := by
  intro j hj
  obtain ⟨hi, hj⟩ := List.forall_mem_append.1 hj
  exact (h' j hj).trans (h j hi)

theorem of_children {s : Shape Symbol NodeId} (hs : p.shape? i = some s)
    (his : ∀ c ∈ is, c ∈ s.slots) (h : SameBeside p is T T') : SameBeside p [i] T T' := by
  intro j hj
  refine h j fun c hc hc0 hb => hj i (List.mem_singleton.2 rfl) (Arena.ne_zero_of_shape hs) ?_
  exact .of_child (Program.mem_children_of_slot hs (his c hc) hc0) hb

/-- A table after the nodes were gone through agrees with the record about the first ones if it does
after all. -/
theorem agree {T₁ : Table} (hc : p.Clear [] [] (is ++ js)) (h : SameBeside p js T₁ T')
    (hS : S.AgreeBelow p (is ++ js) T') : S.AgreeBelow p is T₁ := by
  rintro j ⟨i, hi, hi0, hb⟩
  refine (hS j ⟨i, List.mem_append_left _ hi, hi0, hb⟩).trans (h j fun k hk hk0 hb' => ?_)
  exact (List.pairwise_append.1 hc.apart).2.2 i hi k hk hi0 hk0 j hb hb'

end Table.SameBeside

theorem Table.AgreeBelow.sublist {is js : List NodeId} (h : S.AgreeBelow p is T)
    (hjs : ∀ j ∈ js, j ∈ is) : S.AgreeBelow p js T := fun x ⟨j, hj, hb⟩ => h x ⟨j, hjs j hj, hb⟩

theorem Table.AgreeBelow.children {i : NodeId} {is : List NodeId} {s : Shape Symbol NodeId}
    (hs : p.shape? i = some s) (his : ∀ c ∈ is, c ∈ s.slots) (h : S.AgreeBelow p [i] T) :
    S.AgreeBelow p is T := by
  rintro j ⟨c, hc, hc0, hb⟩
  exact h j ⟨i, List.mem_singleton.2 rfl, Arena.ne_zero_of_shape hs,
    .of_child (Program.mem_children_of_slot hs (his c hc) hc0) hb⟩

theorem ExprShape.operands_slots {ν α : Type} (x : ExprShape ν α) :
    x.operands.Sublist (Shape.slots (.expr x)) := by
  cases x <;> simp [ExprShape.operands, Shape.slots]

/-- Expressions of a function note what they are made of only, and each of it once. -/
theorem Sensing.once (ht : p.TreeShaped) {f : ExprFinding} (h : Sensing p.toArena M F Γ T f T')
    (hΓ : LocalsKnown Γ T) (hM : ValuesKnown p.toArena M T) (hc : p.Clear [] [] f.nodes) :
    T.SameBeside p f.nodes T' ∧
      (S.AgreeBelow p f.nodes T' → Sensing p.toArena M S.Recorded Γ T f T') := by
  have hself : ∀ {i : NodeId} {x : ExprShape Symbol NodeId}, p.shape? i = some (.expr x) →
      p.Clear [] [] [i] →
      ∀ e ∈ x.operands, e ≠ 0 → ¬ p.Below e i := by
    intro i x hx hc e he h0
    have hin := hc.inTree i (List.mem_singleton.2 rfl) (Arena.ne_zero_of_shape hx)
    exact ht.not_below_child hin (Program.mem_children_of_slot hx (x.operands_slots.subset he) h0)
  have hnote : ∀ {i : NodeId} {T₀ T₁ : Table}, p.Clear [] [] [i] → i ≠ 0 →
      (∀ j, j ≠ i → T₁.senses j = T₀.senses j) → T₀.SameBeside p [i] T₁ := by
    intro i T₀ T₁ _ h0 h j hj
    exact h j fun hij => hj i (List.mem_singleton.2 rfl) h0 (hij ▸ .self)
  induction h with
  | absent => exact ⟨.refl p _ _, fun _ => .absent⟩
  | @known T i s d n hs hd hn hF =>
    have h0 := Arena.ne_zero_of_shape hs
    have hat : ∀ j, ((T.note i {}).use i n).senses j = if j = i then
        some ((T.identifier? n).getD {}) else T.senses j := by
      intro j
      unfold Table.use
      have hid : (T.note i {}).identifier? n = T.identifier? n := rfl
      rw [hid]
      cases T.identifier? n with
      | none => simp [Table.keepSense, Table.note, Function.update_apply]
      | some e =>
        by_cases hj : j = i <;> simp [Table.keepSense, Table.note, hj]
    refine ⟨hnote hc h0 fun j hj => by rw [hat, if_neg hj], fun hS => .known hs hd hn ?_⟩
    have := hS i ⟨i, List.mem_singleton.2 rfl, h0, .self⟩
    rwa [hat, if_pos rfl] at this
  | @entered T T₁ T₂ i s d v t₀ t hs hd hnone hv _ _ _ _ =>
    have hknown := hM s d (hΓ.find? hd hnone) (by simp [hv])
    rw [hnone] at hknown
    cases hknown
  | @plain T T₁ i x ts o hx _ hcompose hF ih =>
    have h0 := Arena.ne_zero_of_shape hx
    have hsub := hc.children ht hx x.operands_slots
    obtain ⟨hsame, hrec⟩ := ih hΓ hM hsub
    have hat : ∀ j, (T₁.keepSense i o).senses j = if j = i then
        some (o.getD {}) else T₁.senses j := by
      intro j
      by_cases hj : j = i
      · subst hj
        cases o with
        | none =>
          have hkept := hsame j fun e he he0 => hself hx hc e he he0
          simpa [Table.keepSense, Table.note] using hkept
        | some e => simp [Table.keepSense, Table.note]
      · cases o <;> simp [Table.keepSense, Table.note, hj]
    have hthrough := (hsame.of_children hx fun c hc => x.operands_slots.subset hc)
    refine ⟨fun j hj => ?_, fun hS => .plain hx (hrec ?_) hcompose ?_⟩
    · have hji : j ≠ i := fun hji => hj i (List.mem_singleton.2 rfl) h0 (hji ▸ .self)
      rw [hat, if_neg hji, hthrough j hj]
      simp [Table.note, hji]
    · rintro j ⟨e, he, he0, hb⟩
      have hji : j ≠ i := fun hji => hself hx hc e he he0 (hji ▸ hb)
      have := hS.children hx (fun c hc => x.operands_slots.subset hc) j ⟨e, he, he0, hb⟩
      rwa [hat, if_neg hji] at this
    · have := hS i ⟨i, List.mem_singleton.2 rfl, h0, .self⟩
      rwa [hat, if_pos rfl] at this
  | @call T T₁ T₂ i g args ts k hx _ hk hF ih =>
    have h0 := Arena.ne_zero_of_shape hx
    have hsub := hc.children ht hx (ExprShape.operands_slots (.call g args))
    obtain ⟨hsame, hrec⟩ := ih hΓ hM hsub
    have hsenses := (Calling.beyond hk).senses
    have hat : ∀ j, (T₂.note i (k.sense ts)).senses j = if j = i then
        some (k.sense ts) else T₁.senses j := by
      intro j
      simp only [Table.note, Function.update_apply, hsenses]
    have hthrough := hsame.of_children hx fun c hc =>
      (ExprShape.operands_slots (.call g args)).subset hc
    refine ⟨fun j hj => ?_, fun hS => .call hx (hrec ?_) hk ?_⟩
    · have hji : j ≠ i := fun hji => hj i (List.mem_singleton.2 rfl) h0 (hji ▸ .self)
      rw [hat, if_neg hji, hthrough j hj]
      simp [Table.note, hji]
    · rintro j ⟨e, he, he0, hb⟩
      have hji : j ≠ i := fun hji => hself hx hc e he he0 (hji ▸ hb)
      have := hS.children hx (fun c hc => (ExprShape.operands_slots (.call g args)).subset hc) j
        ⟨e, he, he0, hb⟩
      rwa [hat, if_neg hji] at this
    · have := hS i ⟨i, List.mem_singleton.2 rfl, h0, .self⟩
      rwa [hat, if_pos rfl] at this
  | nil => exact ⟨.refl p _ _, fun _ => .nil⟩
  | @cons T T₁ T₂ e t es ts he _ ih₁ ih₂ =>
    obtain ⟨hsame₁, hrec₁⟩ := ih₁ hΓ hM (hc.sublist (by simp))
    have hmono : ∀ x, (T.latest x).isSome → (T₁.latest x).isSome := fun x hx => he.latest_mono hx
    obtain ⟨hsame₂, hrec₂⟩ := ih₂ (hΓ.mono hmono) (hM.mono hmono) (hc.sublist (by simp))
    refine ⟨hsame₁.trans hsame₂, fun hS => .cons (hrec₁ ?_) (hrec₂ ?_)⟩
    · exact Table.SameBeside.agree (show p.Clear [] [] ([e] ++ es) from hc) hsame₂ hS
    · exact hS.sublist fun j hj => List.mem_cons_of_mem _ hj

theorem StmtShape.reads_slots {s : StmtShape NodeId} {es : List NodeId} (h : s.reads? = some es) :
    es.Sublist (Shape.slots (ν := Symbol) (.stmt s)) := by
  cases s <;> cases h <;> simp [Shape.slots]

theorem Declaring.once (ht : p.TreeShaped) {d : NodeId} {v : VariableShape Symbol NodeId}
    (hv : p.asVariable? d = some v) (h : Declaring p.toArena M F d v Γ T Γ' T')
    (hΓ : LocalsKnown Γ T) (hM : ValuesKnown p.toArena M T) (hc : p.Clear [] [] [d]) :
    T.SameBeside p [d] T' ∧
      (S.AgreeBelow p [d] T' → Declaring p.toArena M S.Recorded d v Γ T Γ' T') := by
  obtain ⟨hinit, hval, hdeclare⟩ := h
  have hd := Arena.shape?_of_asVariable? hv
  have hsub : [v.initializer].Sublist (Shape.slots (ν := Symbol) (.decl (.value v))) := by
    simp [Shape.slots]
  obtain ⟨hsame, hrec⟩ := hinit.once ht hΓ hM (hc.children ht hd hsub)
  have hsenses := (Valued.beyond hval).senses
  refine ⟨fun j hj => ?_, fun hS => .intro (hrec fun j hj => ?_) hval hdeclare⟩
  · exact (congrFun hsenses j).trans (hsame.of_children hd (fun c hc => hsub.subset hc) j hj)
  · exact (hS.children hd (fun c hc => hsub.subset hc) j hj).trans (congrFun hsenses j)

theorem Declaring.latest_mono {a : Arena} {d : NodeId} {v : VariableShape Symbol NodeId}
    (h : Declaring a M F d v Γ T Γ' T') {x : NodeId} (hx : (T.latest x).isSome) :
    (T'.latest x).isSome := by
  obtain ⟨hinit, hval, _⟩ := h
  rw [Table.latest_addValue, Function.update_apply]
  split
  · rfl
  · rw [(Valued.beyond hval).latest]
    exact hinit.latest_mono hx

theorem Scoping.latest_mono {a : Arena} {part : Part} (h : Scoping a M F Γ T part Γ' T')
    {x : NodeId} (hx : (T.latest x).isSome) : (T'.latest x).isSome := by
  induction h with
  | absent => exact hx
  | simple _ _ hes => exact hes.latest_mono hx
  | varDecl _ _ hd => exact hd.latest_mono hx
  | stray => exact hx
  | block _ _ ih => exact ih hx
  | ifElse _ hcond _ _ ih₁ ih₂ => exact ih₂ (ih₁ (hcond.latest_mono hx))
  | forLoop _ _ hcond _ _ ih₁ ih₂ ih₃ => exact ih₃ (ih₂ (hcond.latest_mono (ih₁ hx)))
  | whileLoop _ hcond _ ih => exact ih (hcond.latest_mono hx)
  | loop _ _ _ ih₁ ih₂ => exact ih₂ (ih₁ hx)
  | opened _ _ ih => exact ih hx
  | lacking => exact hx
  | nil => exact hx
  | cons _ _ ih₁ ih₂ => exact ih₂ (ih₁ hx)

theorem LocalsKnown.opened (h : LocalsKnown Γ T) : LocalsKnown ([] :: Γ) T := by
  intro l hl x hx
  rcases List.mem_cons.1 hl with rfl | hl
  · cases hx
  · exact h l hl x hx

/-- Statements of a function note what is in them only, and each of it once. -/
theorem Scoping.once (ht : p.TreeShaped) {part : Part} (h : Scoping p.toArena M F Γ T part Γ' T')
    (hΓ : LocalsKnown Γ T) (hM : ValuesKnown p.toArena M T) (hc : p.Clear [] [] part.nodes) :
    T.SameBeside p part.nodes T' ∧
      (S.AgreeBelow p part.nodes T' → Scoping p.toArena M S.Recorded Γ T part Γ' T') := by
  -- a node of which some children are gone through
  have hnode : ∀ {i : NodeId} {s : Shape Symbol NodeId} {is : List NodeId} {T T' : Table},
      p.shape? i = some s →
      (∀ c ∈ is, c ∈ s.slots) → T.SameBeside p is T' → ∀ {A : Prop}, (S.AgreeBelow p is T' → A) →
      T.SameBeside p [i] T' ∧ (S.AgreeBelow p [i] T' → A) :=
    fun hs his hsame _ hA => ⟨hsame.of_children hs his, fun hS => hA (hS.children hs his)⟩
  induction h with
  | absent => exact ⟨.refl p _ _, fun _ => .absent⟩
  | simple hi hes hread =>
    have hsub := StmtShape.reads_slots hes
    obtain ⟨hsame, hrec⟩ := hread.once ht hΓ hM (hc.children ht hi hsub)
    exact hnode hi (fun c hc => hsub.subset hc) hsame fun hS => .simple hi hes (hrec hS)
  | varDecl hi hv hd =>
    obtain ⟨hsame, hrec⟩ := hd.once ht hv hΓ hM (hc.children ht hi (by simp [Shape.slots]))
    exact hnode hi (by simp [Shape.slots]) hsame fun hS => .varDecl hi hv (hrec hS)
  | stray hi hv => exact ⟨.refl p _ _, fun _ => .stray hi hv⟩
  | block hi _ ih =>
    obtain ⟨hsame, hrec⟩ := ih hΓ.opened hM (hc.children ht hi (.refl _))
    exact hnode hi (fun c hc => hc) hsame fun hS => .block hi (hrec hS)
  | @ifElse Γ Γ₂ Γ₃ T T₁ T₂ T₃ i c b e t hi hcond hb _ ih₁ ih₂ =>
    have hc' : p.Clear [] [] ([c] ++ [b] ++ [e]) := hc.children ht hi (by simp [Shape.slots])
    obtain ⟨hsame₁, hrec₁⟩ := hcond.once (S := S) ht hΓ hM (hc'.sublist (by simp))
    have hmono : ∀ x, (T.latest x).isSome → (T₁.latest x).isSome := fun x hx => hcond.latest_mono hx
    obtain ⟨hsame₂, hrec₂⟩ := ih₁ (hΓ.mono hmono) (hM.mono hmono) (hc'.sublist (by simp))
    obtain ⟨hsame₃, hrec₃⟩ := ih₂ (LocalsKnown.scoping hb (hΓ.mono hmono))
      ((hM.mono hmono).mono fun x hx => hb.latest_mono hx) (hc'.sublist (by simp))
    refine hnode hi (by simp [Shape.slots]) ((hsame₁.trans hsame₂).trans hsame₃) fun hS => ?_
    have hS₂ := Table.SameBeside.agree hc' hsame₃ hS
    have hS₁ := Table.SameBeside.agree (hc'.sublist (List.sublist_append_left _ _)) hsame₂ hS₂
    exact .ifElse hi (hrec₁ hS₁) (hrec₂ (hS₂.sublist (by simp))) (hrec₃ (hS.sublist (by simp)))
  | @forLoop Γ Γ₁ Γ₃ Γ₄ T T₁ T₂ T₃ T₄ i init c cont b t hi hinit hcond hb _ ih₁ ih₂ ih₃ =>
    have hslots : p.Clear [] [] [init, c, cont, b] := hc.children ht hi (by simp [Shape.slots])
    have hc' : p.Clear [] [] ([init] ++ [c] ++ [b] ++ [cont]) :=
      hslots.perm (.cons init (.cons c (.swap b cont [])))
    obtain ⟨hsame₁, hrec₁⟩ := ih₁ hΓ.opened hM (hc'.sublist (by simp))
    have hΓ₁ := LocalsKnown.scoping hinit hΓ.opened
    have hM₁ := hM.mono fun x hx => hinit.latest_mono hx
    obtain ⟨hsame₂, hrec₂⟩ := hcond.once (S := S) ht hΓ₁ hM₁ (hc'.sublist (by simp))
    have hmono : ∀ x, (T₁.latest x).isSome → (T₂.latest x).isSome :=
      fun x hx => hcond.latest_mono hx
    obtain ⟨hsame₃, hrec₃⟩ := ih₂ (hΓ₁.mono hmono) (hM₁.mono hmono) (hc'.sublist (by simp))
    obtain ⟨hsame₄, hrec₄⟩ := ih₃ (LocalsKnown.scoping hb (hΓ₁.mono hmono))
      ((hM₁.mono hmono).mono fun x hx => hb.latest_mono hx) (hc'.sublist (by simp))
    refine hnode hi (by simp [Shape.slots]) (((hsame₁.trans hsame₂).trans hsame₃).trans hsame₄)
      fun hS => ?_
    have hS₃ := Table.SameBeside.agree hc' hsame₄ hS
    have hc₃ := hc'.sublist (List.sublist_append_left _ [cont])
    have hS₂ := Table.SameBeside.agree hc₃ hsame₃ hS₃
    have hS₁ := Table.SameBeside.agree (hc₃.sublist (List.sublist_append_left _ _)) hsame₂ hS₂
    exact .forLoop hi (hrec₁ hS₁) (hrec₂ (hS₂.sublist (by simp)))
      (hrec₃ (hS₃.sublist (by simp))) (hrec₄ (hS.sublist (by simp)))
  | @whileLoop Γ Γ₂ T T₁ T₂ i c b t hi hcond _ ih =>
    have hc' : p.Clear [] [] ([c] ++ [b]) := hc.children ht hi (by simp [Shape.slots])
    obtain ⟨hsame₁, hrec₁⟩ := hcond.once (S := S) ht hΓ hM (hc'.sublist (by simp))
    have hmono : ∀ x, (T.latest x).isSome → (T₁.latest x).isSome := fun x hx => hcond.latest_mono hx
    obtain ⟨hsame₂, hrec₂⟩ := ih (hΓ.mono hmono) (hM.mono hmono) (hc'.sublist (by simp))
    refine hnode hi (by simp [Shape.slots]) (hsame₁.trans hsame₂) fun hS => ?_
    exact .whileLoop hi (hrec₁ (Table.SameBeside.agree hc' hsame₂ hS))
      (hrec₂ (hS.sublist (by simp)))
  | @loop Γ Γ₁ Γ₂ T T₁ T₂ i b cont hi hb _ ih₁ ih₂ =>
    have hc' : p.Clear [] [] ([b] ++ [cont]) := hc.children ht hi (by simp [Shape.slots])
    obtain ⟨hsame₁, hrec₁⟩ := ih₁ hΓ.opened hM (hc'.sublist (by simp))
    obtain ⟨hsame₂, hrec₂⟩ :=
      ih₂ (LocalsKnown.scoping hb hΓ.opened) (hM.mono fun x hx => hb.latest_mono hx)
      (hc'.sublist (by simp))
    refine hnode hi (by simp [Shape.slots]) (hsame₁.trans hsame₂) fun hS => ?_
    exact .loop hi (hrec₁ (Table.SameBeside.agree hc' hsame₂ hS)) (hrec₂ (hS.sublist (by simp)))
  | opened hb _ ih =>
    have hs := Arena.shape?_of_block? hb
    obtain ⟨hsame, hrec⟩ := ih hΓ hM (hc.children ht hs (.refl _))
    exact hnode hs (fun c hc => hc) hsame fun hS => .opened hb (hrec hS)
  | lacking hb => exact ⟨.refl p _ _, fun _ => .lacking hb⟩
  | nil => exact ⟨.refl p _ _, fun _ => .nil⟩
  | @cons Γ Γ₁ Γ₂ T T₁ T₂ s ss hs _ ih₁ ih₂ =>
    obtain ⟨hsame₁, hrec₁⟩ := ih₁ hΓ hM (hc.sublist (by simp))
    obtain ⟨hsame₂, hrec₂⟩ :=
      ih₂ (LocalsKnown.scoping hs hΓ) (hM.mono fun x hx => hs.latest_mono hx)
      (hc.sublist (by simp))
    refine ⟨hsame₁.trans hsame₂, fun hS => .cons (hrec₁ ?_) (hrec₂ ?_)⟩
    · exact Table.SameBeside.agree (show p.Clear [] [] ([s] ++ ss) from hc) hsame₂ hS
    · exact hS.sublist fun j hj => List.mem_cons_of_mem _ hj

theorem Parameters.latest_mono {a : Arena} {ds : List NodeId} (h : Parameters a M F ds Γ T Γ' T')
    {x : NodeId} (hx : (T.latest x).isSome) : (T'.latest x).isSome := by
  induction h with
  | nil => exact hx
  | cons _ _ hd _ ih => exact ih (hd.latest_mono hx)

theorem Parameters.once (ht : p.TreeShaped) {ds : List NodeId}
    (h : Parameters p.toArena M F ds Γ T Γ' T') (hΓ : LocalsKnown Γ T)
    (hM : ValuesKnown p.toArena M T) (hc : p.Clear [] [] ds) : T.SameBeside p ds T' ∧
      (S.AgreeBelow p ds T' → Parameters p.toArena M S.Recorded ds Γ T Γ' T') := by
  induction h with
  | nil => exact ⟨.refl p _ _, fun _ => .nil⟩
  | @cons _ _ _ _ _ _ d v ds hv hkind hd _ ih =>
    obtain ⟨hsame₁, hrec₁⟩ := hd.once ht hv hΓ hM (hc.sublist (by simp))
    obtain ⟨hsame₂, hrec₂⟩ :=
      ih (hΓ.declaring hd) (hM.mono fun x hx => hd.latest_mono hx) (hc.sublist (by simp))
    refine ⟨hsame₁.trans hsame₂, fun hS => .cons hv hkind (hrec₁ ?_) (hrec₂ ?_)⟩
    · exact Table.SameBeside.agree (show p.Clear [] [] ([d] ++ ds) from hc) hsame₂ hS
    · exact hS.sublist fun j hj => List.mem_cons_of_mem _ hj

theorem Containing.once (ht : p.TreeShaped) {d : NodeId} (h : Containing p.toArena M F d T T')
    (hM : ValuesKnown p.toArena M T) (hc : p.Clear [] [] [d]) :
    ValuesKnown p.toArena M T' ∧ T.SameBeside p [d] T' ∧
      (S.AgreeBelow p [d] T' → Containing p.toArena M S.Recorded d T T') := by
  cases h with
  | @function Γ Γ' _ T₁ _ f hf hparams hbody =>
    have hs := Arena.shape?_of_function? hf
    have hsub : (f.params ++ [f.body]).Sublist
        (Shape.slots (ν := Symbol) (.decl (.function f))) := by
      refine List.Sublist.append ?_ (by simp)
      exact ((List.sublist_append_right f.attributes f.params).trans (List.sublist_append_left _ _))
    have hc' := hc.children ht hs hsub
    have hΓ : LocalsKnown [[]] T := by simp [LocalsKnown]
    obtain ⟨hsame₁, hrec₁⟩ := hparams.once ht hΓ hM (hc'.sublist (List.sublist_append_left _ _))
    have hM₁ := hM.mono fun x hx => hparams.latest_mono hx
    obtain ⟨hsame₂, hrec₂⟩ :=
      hbody.once ht (LocalsKnown.parameters hparams hΓ) hM₁ (hc'.sublist (by simp))
    refine ⟨hM₁.mono fun x hx => hbody.latest_mono hx,
      (hsame₁.trans hsame₂).of_children hs (fun c hc => hsub.subset hc), fun hS => ?_⟩
    have hS' := hS.children hs (fun c hc => hsub.subset hc)
    exact .function hf (hrec₁ (Table.SameBeside.agree hc' hsame₂ hS'))
      (hrec₂ (hS'.sublist (by simp)))
  | other hf => exact ⟨hM, .refl p _ _, fun _ => .other hf⟩

theorem Along.once (ht : p.TreeShaped) {gs : List NodeId}
    (h : Along (Containing p.toArena M F) gs T T') (hM : ValuesKnown p.toArena M T)
    (hc : p.Clear [] [] gs) : T.SameBeside p gs T' ∧
      (S.AgreeBelow p gs T' → Along (Containing p.toArena M S.Recorded) gs T T') := by
  induction h with
  | nil => exact ⟨.refl p _ _, fun _ => .nil⟩
  | @cons _ _ _ d ds hd _ ih =>
    obtain ⟨hM₁, hsame₁, hrec₁⟩ := hd.once ht hM (hc.sublist (by simp))
    obtain ⟨hsame₂, hrec₂⟩ := ih hM₁ (hc.sublist (by simp))
    refine ⟨hsame₁.trans hsame₂, fun hS => .cons (hrec₁ ?_) (hrec₂ ?_)⟩
    · exact Table.SameBeside.agree (show p.Clear [] [] ([d] ++ ds) from hc) hsame₂ hS
    · exact hS.sublist fun j hj => List.mem_cons_of_mem _ hj

end

end ShaderLoom
