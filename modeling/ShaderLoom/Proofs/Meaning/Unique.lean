import ShaderLoom.Proofs.Meaning.Settled

/-! Where everything about a module is known, there is one thing to find out about each
expression. -/
namespace ShaderLoom

variable {a : Arena} {M : Frame} {E : Table} {F F' : NodeId → ExprFacts → Prop} {Δ : Levels}

theorem TypeOf.unique {i : NodeId} {t u : Option Ty} (h : TypeOf a M E i t)
    (h' : TypeOf a M E i u) : t = u := by
  have hzero : ∀ {x : Shape Symbol NodeId}, a.shape? 0 ≠ some x := fun h => by cases h
  have hplain : ∀ {x : TypeShape Symbol NodeId} {t e f}, x.plain? = some t →
      x.around? ≠ some (e, f) := by
    intro x t e f h h'
    cases x <;> simp [TypeShape.plain?, TypeShape.around?] at h h'
  induction h generalizing u with
  | absent =>
    cases h' with
    | absent => rfl
    | plain hx _ => exact absurd hx hzero
    | around hx _ _ => exact absurd hx hzero
    | named hx _ _ _ => exact absurd hx hzero
  | plain hx ht =>
    cases h' with
    | absent => exact absurd hx hzero
    | plain hx' ht' =>
      cases hx.symm.trans hx'
      exact ht.symm.trans ht'
    | around hx' he _ =>
      cases hx.symm.trans hx'
      exact absurd he (hplain ht)
    | named hx' _ _ _ =>
      cases hx.symm.trans hx'
      cases ht
  | around hx he _ ih =>
    cases h' with
    | absent => exact absurd hx hzero
    | plain hx' ht' =>
      cases hx.symm.trans hx'
      exact absurd he (hplain ht')
    | around hx' he' h' =>
      cases hx.symm.trans hx'
      cases he.symm.trans he'
      rw [ih h']
    | named hx' _ _ _ =>
      cases hx.symm.trans hx'
      cases he
  | named hx hs _ ht =>
    cases h' with
    | absent => exact absurd hx hzero
    | plain hx' ht' =>
      cases hx.symm.trans hx'
      cases ht'
    | around hx' he' _ =>
      cases hx.symm.trans hx'
      cases he'
    | named hx' hs' _ ht' =>
      cases hx.symm.trans hx'
      cases hs.symm.trans hs'
      exact ht.symm.trans ht'

theorem Calls.unique {g : NodeId} {k k' : Callee} (h : Calls a M E g k) (h' : Calls a M E g k') :
    k = k' := by
  have hboth : ∀ {d f}, (a.shape? d).any Shape.isTypeDecl = true → a.function? d ≠ some f := by
    intro d f hd hf
    rw [Arena.shape?_of_function? hf] at hd
    cases hd
  cases h with
  | typed hx ht =>
    cases h' with
    | typed _ ht' => rw [ht.unique ht']
    | declared hs _ _ _ | function hs _ _ _ | builtin hs _ _ => cases hx.symm.trans hs
  | declared hs hd hdecl ht =>
    cases h' with
    | typed hx _ => cases hs.symm.trans hx
    | declared hs' hd' _ ht' =>
      cases hs.symm.trans hs'
      cases hd.symm.trans hd'
      cases ht.symm.trans ht'
      rfl
    | function hs' hd' hf _ =>
      cases hs.symm.trans hs'
      cases hd.symm.trans hd'
      exact absurd hf (hboth hdecl)
    | builtin hs' hnot _ =>
      cases hs.symm.trans hs'
      rw [(hnot _ hd).1] at hdecl
      cases hdecl
  | function hs hd hf ht =>
    cases h' with
    | typed hx _ => cases hs.symm.trans hx
    | declared hs' hd' hdecl _ =>
      cases hs.symm.trans hs'
      cases hd.symm.trans hd'
      exact absurd hf (hboth hdecl)
    | function hs' hd' _ ht' =>
      cases hs.symm.trans hs'
      cases hd.symm.trans hd'
      cases ht.symm.trans ht'
      rfl
    | builtin hs' hnot _ =>
      cases hs.symm.trans hs'
      rw [(hnot _ hd).2] at hf
      cases hf
  | builtin hs hnot hrule =>
    cases h' with
    | typed hx _ => cases hs.symm.trans hx
    | declared hs' hd hdecl _ =>
      cases hs.symm.trans hs'
      rw [(hnot _ hd).1] at hdecl
      cases hdecl
    | function hs' hd hf _ =>
      cases hs.symm.trans hs'
      rw [(hnot _ hd).2] at hf
      cases hf
    | builtin hs' _ hrule' =>
      cases hs.symm.trans hs'
      cases hrule.symm.trans hrule'
      rfl

/-- What an expression is found to be, its operands being what they are. -/
inductive Found (a : Arena) (M : Frame) (E : Table) (Δ : Levels) : NodeId → ExprFacts → Prop
  | ident {i s n t} : a.shape? i = some (.expr (.ident s)) → inScope M E Δ s = some (n, t) →
    Found a M E Δ i { variableId := some n, type := t }
  | plain {i x ts o} : a.shape? i = some (.expr x) → Reads a M E Anything Δ (.all x.operands ts) →
    E.compose a x ts = some o → Found a M E Δ i (o.getD {})
  | call {i g args ts k} : a.shape? i = some (.expr (.call g args)) →
    Reads a M E Anything Δ (.all args ts) →
    Calls a M E g k → Found a M E Δ i (k.sense ts)

theorem Reads.mono {f : ExprFinding} (h : Reads a M E F Δ f) (hF : ∀ i e, F i e → F' i e) :
    Reads a M E F' Δ f := by
  induction h with
  | absent => exact .absent
  | ident hs hscope h => exact .ident hs hscope (hF _ _ h)
  | plain hx _ hcompose h ih => exact .plain hx ih hcompose (hF _ _ h)
  | call hx _ hk h ih => exact .call hx ih hk (hF _ _ h)
  | nil => exact .nil
  | cons _ _ ih₁ ih₂ => exact .cons ih₁ ih₂

theorem Reads.anything {f : ExprFinding} (h : Reads a M E F Δ f) : Reads a M E Anything Δ f :=
  h.mono fun _ _ _ => trivial

/-- An expression has one type at a place. -/
theorem Reads.unique {f : ExprFinding} (h : Reads a M E F Δ f) {f' : ExprFinding}
    (h' : Reads a M E F' Δ f') :
    (∀ {i t u}, f = .one i t → f' = .one i u → t = u) ∧ ∀ {is ts us}, f = .all is ts →
      f' = .all is us → ts = us := by
  have hzero : ∀ {x : Shape Symbol NodeId}, a.shape? 0 ≠ some x := fun h => by cases h
  induction h generalizing f' with
  | absent =>
    refine ⟨fun hf hf' => ?_, fun hf => by cases hf⟩
    cases hf
    subst hf'
    cases h' with
    | absent => rfl
    | ident hs _ _ => exact absurd hs hzero
    | plain hx _ _ _ => exact absurd hx hzero
    | call hx _ _ _ => exact absurd hx hzero
  | ident hs hscope _ =>
    refine ⟨fun hf hf' => ?_, fun hf => by cases hf⟩
    cases hf
    subst hf'
    cases h' with
    | absent => exact absurd hs hzero
    | ident hs' hscope' _ =>
      cases hs.symm.trans hs'
      cases hscope.symm.trans hscope'
      rfl
    | plain hx _ ho _ =>
      cases hs.symm.trans hx
      cases ho
    | call hx _ _ _ => cases hs.symm.trans hx
  | @plain i x ts o hx _ ho _ ih =>
    refine ⟨fun hf hf' => ?_, fun hf => by cases hf⟩
    cases hf
    subst hf'
    cases h' with
    | absent => exact absurd hx hzero
    | ident hs _ _ =>
      cases hx.symm.trans hs
      cases ho
    | plain hx' hall ho' _ =>
      cases hx.symm.trans hx'
      cases (ih hall).2 rfl rfl
      cases ho.symm.trans ho'
      rfl
    | call hx' _ _ _ =>
      cases hx.symm.trans hx'
      cases ho
  | call hx _ hk _ ih =>
    refine ⟨fun hf hf' => ?_, fun hf => by cases hf⟩
    cases hf
    subst hf'
    cases h' with
    | absent => exact absurd hx hzero
    | ident hs _ _ => cases hx.symm.trans hs
    | plain hx' _ ho _ =>
      cases hx.symm.trans hx'
      cases ho
    | call hx' hall hk' _ =>
      cases hx.symm.trans hx'
      cases (ih hall).2 rfl rfl
      cases hk.unique hk'
      rfl
  | nil =>
    refine ⟨(fun hf => by cases hf), fun hf hf' => ?_⟩
    cases hf
    subst hf'
    cases h'
    rfl
  | cons _ _ ih₁ ih₂ =>
    refine ⟨(fun hf => by cases hf), fun hf hf' => ?_⟩
    cases hf
    subst hf'
    cases h' with
    | cons he hes => rw [(ih₁ he).1 rfl rfl, (ih₂ hes).2 rfl rfl]

theorem Reads.types_eq {is : List NodeId} {ts us : List (Option Ty)}
    (h : Reads a M E F Δ (.all is ts)) (h' : Reads a M E F' Δ (.all is us)) : ts = us :=
  (h.unique h').2 rfl rfl

/-- There is one thing to be found. -/
theorem Found.unique {i : NodeId} {e e' : ExprFacts} (h : Found a M E Δ i e)
    (h' : Found a M E Δ i e') : e = e' := by
  cases h with
  | ident hs hscope =>
    cases h' with
    | ident hs' hscope' =>
      cases hs.symm.trans hs'
      cases hscope.symm.trans hscope'
      rfl
    | plain hx _ ho =>
      cases hs.symm.trans hx
      cases ho
    | call hx _ _ => cases hs.symm.trans hx
  | plain hx hall ho =>
    cases h' with
    | ident hs _ =>
      cases hx.symm.trans hs
      cases ho
    | plain hx' hall' ho' =>
      cases hx.symm.trans hx'
      cases hall.types_eq hall'
      cases ho.symm.trans ho'
      rfl
    | call hx' _ _ =>
      cases hx.symm.trans hx'
      cases ho
  | call hx hall hk =>
    cases h' with
    | ident hs _ => cases hx.symm.trans hs
    | plain hx' _ ho =>
      cases hx.symm.trans hx'
      cases ho
    | call hx' hall' hk' =>
      cases hx.symm.trans hx'
      cases hall.types_eq hall'
      cases hk.unique hk'
      rfl

end ShaderLoom
