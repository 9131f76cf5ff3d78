import ShaderLoom.Proofs.Meaning.Findings
import ShaderLoom.Proofs.Meaning.Sound

/-! External textures come from type nodes alone. Where no node is one, no type, variable, member or
result that resolution finds out about has one in it. -/
namespace ShaderLoom

/-- A type without an external texture in it. -/
def Ty.internal : Ty → Bool
  | externalTexture => false
  | vector e _ | matrix e _ _ | array e _ | sampledTexture _ e => e.internal
  | _ => true

/-- The type, if there is one, is without an external texture. -/
def Internal (t : Option Ty) : Prop := ∀ u, t = some u → u.internal = true

namespace Internal

theorem none : Internal none := nofun

theorem some {t : Ty} (h : t.internal = true) : Internal (some t) := by
  rintro u ⟨⟩
  exact h

theorem bind_type {o : Option ExprFacts} (h : ∀ e, o = Option.some e → Internal e.type) :
    Internal (o.bind (·.type)) := by
  intro t ht
  obtain ⟨e, he, ht⟩ := Option.bind_eq_some_iff.1 ht
  exact h e he t ht

theorem map {f : Ty → Ty} (hf : ∀ t, (f t).internal = t.internal) {t : Option Ty} (h : Internal t) :
    Internal (t.map f) := by
  intro u hu
  obtain ⟨t, rfl, rfl⟩ := Option.map_eq_some_iff.1 hu
  rw [hf]
  exact h t rfl

theorem head {ts : List (Option Ty)} (h : ∀ t ∈ ts, Internal t) :
    Internal (ts.head?.getD .none) := by
  cases ts with
  | nil => exact none
  | cons t ts => exact h t List.mem_cons_self

theorem isExternalTexture {t : Option Ty} (h : Internal t) : Ty.isExternalTexture t = false := by
  unfold Ty.isExternalTexture
  split
  · exact absurd (h _ rfl) Bool.false_ne_true
  · rfl

theorem element {t : Ty} (h : t.internal = true) : t.element.internal = true := by
  cases t <;> exact h

theorem indexed {t u : Ty} (h : (Resolve.indexed t).toOption = Option.some u)
    (ht : t.internal = true) : u.internal = true := by
  cases t with
  | vector e _ | matrix e _ _ | array e _ =>
    have he : e.internal = true := ht
    cases h
    exact he
  | _ => cases h

/-- An operator answers with a type of an operand, or with one made of its elements. -/
theorem binary {op : BinaryOp} {l r : Option Ty} (hl : Internal l) (hr : Internal r) :
    Internal (binaryType op l r) := by
  cases l with
  | none => exact none
  | some l =>
    cases r with
    | none => exact none
    | some r =>
      have hl : l.internal = true := hl l rfl
      have hr : r.internal = true := hr r rfl
      unfold binaryType
      dsimp only
      split
      · split <;> exact some rfl
      · split
        · exact some rfl
        · split <;> try split
          all_goals first | exact some hl | exact some hr

/-- A builtin function answers with a type of its own or with one made of its first argument's. -/
theorem result {name : String} {rule : BuiltinRule} (hrule : builtinRule? name = Option.some rule)
    {ts : List (Option Ty)} (h : ∀ t ∈ ts, Internal t) : Internal (rule.result ts) := by
  cases rule with
  | firstArgument => exact head h
  | elementOfFirst =>
    intro u hu
    obtain ⟨t, ht, rfl⟩ := Option.map_eq_some_iff.1 hu
    exact element (head h t ht)
  | texel =>
    have hhead := head h
    simp only [BuiltinRule.result]
    split
    · next d e he =>
      have he : (Ty.sampledTexture d e).internal = true := hhead _ he
      exact some he
    · exact some rfl
  | truthLike =>
    simp only [BuiltinRule.result]
    split <;> exact some rfl
  | fixed t =>
    refine some ?_
    unfold builtinRule? at hrule
    repeat' split at hrule
    all_goals first | cases hrule; rfl | cases hrule

end Internal

/-- Nothing that is known has an external texture in it. -/
structure Table.Internal (T : Table) : Prop where
  types : ∀ i, ShaderLoom.Internal (T.types i)
  structs : ∀ d st, T.structs d = some st → ∀ m ∈ st.members, ShaderLoom.Internal m.type
  results : ∀ d t, T.results d = some t → ShaderLoom.Internal t
  vars : ∀ n v, T.vars n = some v → ShaderLoom.Internal v.type

namespace Table.Internal

variable {T : Table} (h : T.Internal)
include h

theorem keepType (i : NodeId) {t : Option Ty} (ht : ShaderLoom.Internal t) :
    (T.keepType i t).Internal := by
  cases t with
  | none => exact h
  | some t =>
    refine ⟨fun k => ?_, h.structs, h.results, h.vars⟩
    simp only [Table.keepType, Table.setType, Function.update_apply]
    split
    · exact ht
    · exact h.types k

theorem setStruct (d : NodeId) {st : StructFacts}
    (hst : ∀ m ∈ st.members, ShaderLoom.Internal m.type) : (T.setStruct d st).Internal := by
  refine ⟨h.types, fun k st' hk => ?_, h.results, h.vars⟩
  simp only [Table.setStruct, Function.update_apply] at hk
  split at hk
  · cases hk
    exact hst
  · exact h.structs k st' hk

theorem setResult (d : NodeId) {t : Option Ty} (ht : ShaderLoom.Internal t) :
    (T.setResult d t).Internal := by
  refine ⟨h.types, h.structs, fun k u hk => ?_, h.vars⟩
  simp only [Table.setResult, Function.update_apply] at hk
  split at hk
  · cases hk
    exact ht
  · exact h.results k u hk

theorem addValue (d : NodeId) {t : Option Ty} (ht : ShaderLoom.Internal t) :
    (T.addValue d t).Internal := by
  refine ⟨h.types, h.structs, h.results, fun n v hn => ?_⟩
  simp only [Table.addValue, Function.update_apply] at hn
  split at hn
  · cases hn
    exact ht
  · exact h.vars n v hn

theorem keepSense (i : NodeId) (o : Option ExprFacts) : (T.keepSense i o).Internal := by
  cases o with
  | none => exact h
  | some e => exact ⟨h.types, h.structs, h.results, h.vars⟩

theorem typeAt (n : VariableId) : ShaderLoom.Internal (T.typeAt n) := by
  intro t ht
  obtain ⟨v, hv, ht⟩ := Option.bind_eq_some_iff.1 ht
  exact h.vars n v hv t ht

theorem select {name : String} {t : Ty} {e : ExprFacts} (hs : T.select name t = some e)
    (ht : t.internal = true) : ShaderLoom.Internal e.type := by
  unfold Table.select at hs
  split at hs
  · obtain ⟨m, hm, rfl⟩ := Option.map_eq_some_iff.1 hs
    obtain ⟨st, hst, hfind⟩ := Option.bind_eq_some_iff.1 hm
    exact h.structs _ st hst m (List.mem_of_find?_eq_some hfind)
  · obtain ⟨is, _, rfl⟩ := Option.map_eq_some_iff.1 hs
    refine .some ?_
    split <;> exact ht
  · cases hs

theorem compose {a : Arena} {x : ExprShape Symbol NodeId} {ts : List (Option Ty)}
    {o : Option ExprFacts} (hc : T.compose a x ts = some o)
    (hts : ∀ t ∈ ts, ShaderLoom.Internal t) : ShaderLoom.Internal (o.bind (·.type)) := by
  refine .bind_type ?_
  rintro e rfl
  unfold Table.compose at hc
  split at hc
  case h_1 suffix =>
    cases hc
    refine .some ?_
    split <;> rfl
  case h_4 =>
    cases hc
    exact .binary (hts _ (by simp)) (hts _ (by simp))
  case h_5 =>
    cases hc
    exact hts _ (by simp)
  case h_7 t u =>
    obtain ⟨v, hv, he⟩ := Option.map_eq_some_iff.1 hc
    cases he
    exact .some (ShaderLoom.Internal.indexed hv (hts (some t) (by simp) t rfl))
  case h_9 s t =>
    obtain ⟨e', he, hs⟩ := Option.map_eq_some_iff.1 hc
    cases hs
    exact h.select he (hts (some t) (by simp) t rfl)
  all_goals cases hc <;> exact .some rfl

end Table.Internal

/-- Whatever is found out has no external texture in it. -/
def TypeFinding.Internal : TypeFinding → Prop
  | node _ t | decl _ t => ShaderLoom.Internal t
  | members _ found => ∀ m ∈ found, ShaderLoom.Internal m.type

def ExprFinding.Internal : ExprFinding → Prop
  | one _ t => ShaderLoom.Internal t
  | all _ ts => ∀ t ∈ ts, ShaderLoom.Internal t

section Rules

variable {a : Arena} {M : Frame} {F : NodeId → ExprFacts → Prop} {Γ Γ' : List Frame} {T T' : Table}

/-- An invariant of tables that expressions, types and declarations keep is kept by statements. -/
theorem Scoping.keeps {I : Table → Prop}
    (hsense : ∀ {Γ T f T'}, Sensing a M F Γ T f T' → I T → I T')
    (hdeclare : ∀ {d v Γ T Γ' T'}, Declaring a M F d v Γ T Γ' T' → I T → I T') {part : Part}
    (h : Scoping a M F Γ T part Γ' T') (hT : I T) : I T' := by
  induction h with
  | absent | stray | lacking | nil => exact hT
  | simple _ _ hes => exact hsense hes hT
  | varDecl _ _ hd => exact hdeclare hd hT
  | block _ _ ih => exact ih hT
  | ifElse _ hcond _ _ ih₁ ih₂ => exact ih₂ (ih₁ (hsense hcond hT))
  | forLoop _ _ hcond _ _ ih₁ ih₂ ih₃ => exact ih₃ (ih₂ (hsense hcond (ih₁ hT)))
  | whileLoop _ hcond _ ih => exact ih (hsense hcond hT)
  | loop _ _ _ ih₁ ih₂ => exact ih₂ (ih₁ hT)
  | opened _ _ ih => exact ih hT
  | cons _ _ ih₁ ih₂ => exact ih₂ (ih₁ hT)

theorem Parameters.keeps {I : Table → Prop}
    (hdeclare : ∀ {d v Γ T Γ' T'}, Declaring a M F d v Γ T Γ' T' → I T → I T') {ds : List NodeId}
    (h : Parameters a M F ds Γ T Γ' T') (hT : I T) : I T' := by
  induction h with
  | nil => exact hT
  | cons _ _ hd _ ih => exact ih (hdeclare hd hT)

variable (ha : ∀ i, a.shape? i ≠ some (.type .externalTexture))
include ha

theorem Typing.internal {P : List NodeId} {f : TypeFinding} (h : Typing a M P T f T')
    (hT : T.Internal) : f.Internal ∧ T'.Internal := by
  induction h with
  | absent => exact ⟨.none, hT⟩
  | @plain P T i x t hx ht =>
    have hi : t.internal = true := by
      cases x with
      | externalTexture => exact absurd hx (ha i)
      | _ => cases ht <;> rfl
    exact ⟨.some hi, hT.keepType i (.some hi)⟩
  | @around P T T' i x e f t hx hf _ ih =>
    obtain ⟨ht, hT'⟩ := ih hT
    have hmap : Internal (t.map f) := ht.map fun t => by
      cases x <;> cases hf <;> rfl
    exact ⟨hmap, hT'.keepType i hmap⟩
  | named _ _ _ _ ih =>
    obtain ⟨ht, hT'⟩ := ih ⟨hT.types, hT.structs, hT.results, hT.vars⟩
    exact ⟨ht, hT'.keepType _ ht⟩
  | @known P T d t hd => exact ⟨hd ▸ hT.types d, hT⟩
  | @struct P T T' d s ms as found _ _ _ _ ih =>
    have hstart : ((T.setStruct d { decl := d, name := a.nameOf s }).setType d
      (.struct d (a.nameOf s))).Internal :=
      (hT.setStruct d (by simp)).keepType d (t := some (.struct d (a.nameOf s))) (.some rfl)
    obtain ⟨hfound, hT'⟩ := ih hstart
    exact ⟨.some rfl, hT'.setStruct d hfound⟩
  | typeAlias _ _ _ _ ih =>
    obtain ⟨ht, hT'⟩ := ih hT
    exact ⟨ht, hT'.keepType _ ht⟩
  | nil => exact ⟨nofun, hT⟩
  | member _ _ _ ih₁ ih₂ =>
    obtain ⟨ht, hT₁⟩ := ih₁ hT
    obtain ⟨hms, hT₂⟩ := ih₂ hT₁
    exact ⟨List.forall_mem_cons.2 ⟨ht, hms⟩, hT₂⟩
  | stray _ _ ih => exact ih hT

theorem Valued.internal {v : VariableShape Symbol NodeId} {t₀ t : Option Ty}
    (h : Valued a M v t₀ T t T') (ht₀ : Internal t₀) (hT : T.Internal) :
    Internal t ∧ T'.Internal := by
  cases h with
  | named _ h => exact h.internal ha hT
  | inferred _ _ => exact ⟨ht₀, hT⟩

theorem Calling.internal {g : NodeId} {k : Callee} (h : Calling a M T g k T') (hT : T.Internal)
    {ts : List (Option Ty)} (hts : ∀ t ∈ ts, Internal t) :
    Internal (k.sense ts).type ∧ T'.Internal := by
  cases h with
  | typed _ h => exact h.internal ha hT
  | declared _ _ _ h => exact h.internal ha hT
  | function _ _ _ hd => exact ⟨hT.results _ _ hd, hT⟩
  | builtin _ _ hrule => exact ⟨.result hrule hts, hT⟩

theorem Sensing.internal {f : ExprFinding} (h : Sensing a M F Γ T f T') (hT : T.Internal) :
    f.Internal ∧ T'.Internal := by
  have hnote : ∀ {T : Table} {i e}, T.Internal → (T.note i e).Internal :=
    fun h => h.keepSense _ (some _)
  induction h with
  | absent => exact ⟨.none, hT⟩
  | known => exact ⟨hT.typeAt _, (hnote hT).keepSense _ _⟩
  | entered _ _ _ _ _ hval _ ih =>
    obtain ⟨ht₀, hT₁⟩ := ih (hnote hT)
    obtain ⟨ht, hT₂⟩ := hval.internal ha ht₀ hT₁
    exact ⟨ht, (hT₂.addValue _ ht).keepSense _ _⟩
  | plain _ _ hcompose _ ih =>
    obtain ⟨hts, hT₁⟩ := ih (hnote hT)
    exact ⟨hT₁.compose hcompose hts, hT₁.keepSense _ _⟩
  | call _ _ hk _ ih =>
    obtain ⟨hts, hT₁⟩ := ih (hnote hT)
    obtain ⟨ht, hT₂⟩ := hk.internal ha hT₁ hts
    exact ⟨ht, hnote hT₂⟩
  | nil => exact ⟨nofun, hT⟩
  | cons _ _ ih₁ ih₂ =>
    obtain ⟨ht, hT₁⟩ := ih₁ hT
    obtain ⟨hts, hT₂⟩ := ih₂ hT₁
    exact ⟨List.forall_mem_cons.2 ⟨ht, hts⟩, hT₂⟩

theorem Declaring.internal {d : NodeId} {v : VariableShape Symbol NodeId}
    (h : Declaring a M F d v Γ T Γ' T') (hT : T.Internal) : T'.Internal := by
  obtain ⟨hinit, hval, _⟩ := h
  obtain ⟨ht₀, hT₁⟩ := hinit.internal ha hT
  obtain ⟨ht, hT₂⟩ := hval.internal ha ht₀ hT₁
  exact hT₂.addValue d ht

theorem Introducing.internal {d : NodeId} (h : Introducing a M F d T T') (hT : T.Internal) :
    T'.Internal := by
  cases h with
  | type _ ht => exact (ht.internal ha hT).2
  | known | other => exact hT
  | value _ _ hinit hval =>
    obtain ⟨ht₀, hT₁⟩ := hinit.internal ha hT
    obtain ⟨ht, hT₂⟩ := hval.internal ha ht₀ hT₁
    exact hT₂.addValue d ht

theorem Heading.internal {d : NodeId} (h : Heading a M d T T') (hT : T.Internal) : T'.Internal := by
  cases h with
  | typed _ _ ht =>
    obtain ⟨ht, hT'⟩ := ht.internal ha (hT.setResult d (.some rfl))
    exact hT'.setResult d ht
  | void _ _ => exact hT.setResult d (.some rfl)
  | other _ => exact hT

theorem Containing.internal {d : NodeId} (h : Containing a M F d T T') (hT : T.Internal) :
    T'.Internal := by
  cases h with
  | function _ hparams hbody =>
    refine hbody.keeps (fun h hT => (h.internal ha hT).2) (fun h => h.internal ha) ?_
    exact hparams.keeps (fun h => h.internal ha) hT
  | other _ => exact hT

theorem WellTyped.internal {gs : List NodeId} (h : WellTyped a F gs M T) : T.Internal := by
  obtain ⟨_, T₁, T₂, h₁, h₂, h₃⟩ := h
  have hempty : Table.empty.Internal := ⟨fun _ => .none, nofun, nofun, nofun⟩
  have hT₁ := (h₁.keep (I := Table.Internal) (fun _ _ _ _ h hT => ⟨h, h.internal ha hT⟩) hempty).2
  have hT₂ := (h₂.keep (I := Table.Internal) (fun _ _ _ _ h hT => ⟨h, h.internal ha hT⟩) hT₁).2
  exact (h₃.keep (I := Table.Internal) (fun _ _ _ _ h hT => ⟨h, h.internal ha hT⟩) hT₂).2

end Rules

/-- In a valid program without a node for an external texture, nothing has the type of one. -/
theorem Program.internal_build {b : Builder} (hv : b.build.valid = true)
    (h : ∀ i, b.build.shape? i ≠ some (.type .externalTexture)) : b.build.facts.table.Internal :=
  (wellTyped_build hv).internal h

end ShaderLoom
