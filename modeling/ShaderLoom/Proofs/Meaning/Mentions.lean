import Mathlib.Data.List.Nodup
import ShaderLoom.Proofs.Meaning.Settled

/-! How often a node is mentioned as the declaration or a user of a variable. Every identifier and
every declaration may be mentioned once. The variables of a module, with what is below their
initializers, are resolved at their first use, wherever that is; until then their mentions are set
aside. -/
namespace ShaderLoom

/-- The nodes that declare a variable and refer to it. -/
def VariableFacts.mentions (v : VariableFacts) : List NodeId := v.decl :: v.users

namespace Facts

variable {f f' : Facts} {a : Arena} {i : NodeId}

/-- How often a node is the declaration or among the users of a variable. -/
def mentions (f : Facts) (i : NodeId) : Nat := (f.vars.toList.flatMap (·.mentions)).count i

/-- The record says of a user which variable it refers to. -/
def Tied (f : Facts) (i : NodeId) : Prop :=
  ∀ (n : VariableId) (v : VariableFacts), f.vars[n]? = some v → i ∈ v.users →
  ∃ e : ExprFacts, f.exprs[i]? = some e ∧ e.variableId = some n ∧ e.type = v.type

/-- Variables are found under their numbers, and those of the parameters of a function are made by
its parameters. -/
structure Filed (a : Arena) (f : Facts) : Prop where
  latest : ∀ (d : NodeId) (n : VariableId), f.latest[d]? = some n → n < f.vars.size
  params : ∀ (g : NodeId) (x : FunctionFacts), f.functions[g]? = some x → ∀ n ∈ x.params,
    ∃ (v : VariableFacts) (s : _), f.vars[n]? = some v ∧ a.function? g = some s ∧ v.decl ∈ s.params

/-- The numbers of the parameters of functions. -/
def paramsAt (f : Facts) (g : NodeId) : Option (List VariableId) := f.functions[g]?.map (·.params)

theorem Filed.empty (a : Arena) : Filed a {} := ⟨by simp, by simp⟩

theorem Filed.keep (h : f.Filed a) (hlatest : f'.latest = f.latest)
    (hvars : ∀ (n : VariableId) (v : VariableFacts), f.vars[n]? = some v →
      ∃ v' : VariableFacts, f'.vars[n]? = some v' ∧ v'.decl = v.decl)
    (hparams : ∀ g, f'.paramsAt g = f.paramsAt g) : f'.Filed a := by
  refine ⟨fun d n hn => ?_, fun g x hx n hn => ?_⟩
  · rw [hlatest] at hn
    obtain ⟨v', hv', _⟩ := hvars n _ (Array.getElem?_eq_getElem (h.latest d n hn))
    exact (Array.getElem?_eq_some_iff.1 hv').1
  · have hat := hparams g
    simp only [paramsAt, hx, Option.map_some] at hat
    obtain ⟨y, hy, hyx⟩ := Option.map_eq_some_iff.1 hat.symm
    obtain ⟨v, s, hv, hs, hmem⟩ := h.params g y hy n (hyx ▸ hn)
    obtain ⟨v', hv', hd⟩ := hvars n v hv
    exact ⟨v', s, hv', hs, hd ▸ hmem⟩

theorem Filed.addVariable (h : f.Filed a) (v : VariableFacts) : (f.addVariable v).Filed a := by
  refine ⟨fun d n hn => ?_, fun g x hx n hn => ?_⟩
  · simp only [Facts.addVariable, Std.TreeMap.getElem?_insert, Array.size_push] at hn ⊢
    split at hn
    · cases hn
      exact Nat.lt_succ_self _
    · exact Nat.lt_succ_of_lt (h.latest d n hn)
  · obtain ⟨u, s, hu, hs, hmem⟩ := h.params g x hx n hn
    obtain ⟨hlt, hget⟩ := Array.getElem?_eq_some_iff.1 hu
    exact ⟨u, s, by simp only [Facts.addVariable]; rw [Array.getElem?_push_lt hlt, hget], hs, hmem⟩

theorem mentions_addVariable {v : VariableFacts} (hv : v.users = []) (i : NodeId) :
    (f.addVariable v).mentions i = f.mentions i + if i = v.decl then 1 else 0 := by
  simp [mentions, Facts.addVariable, VariableFacts.mentions, hv, List.count_cons,
    eq_comm (a := v.decl)]

theorem tied_addVariable {v : VariableFacts} (hv : v.users = []) (h : f.Tied i) :
    (f.addVariable v).Tied i := by
  intro n u hu hi
  simp only [Facts.addVariable, Array.getElem?_push] at hu
  split at hu
  · cases hu
    simp [hv] at hi
  · exact h n u hu hi

/-- Whatever declares or uses a variable is counted. -/
theorem mentions_pos {n : VariableId} {v : VariableFacts} (hv : f.vars[n]? = some v)
    (hi : i ∈ v.mentions) : 0 < f.mentions i :=
  List.count_pos_iff.2
    (List.mem_flatMap.2 ⟨v, Array.mem_toList_iff.2 (Array.mem_of_getElem? hv), hi⟩)

/-- If no node is counted twice then the nodes of two variables are different. -/
theorem eq_of_mentions (h : ∀ i, f.mentions i ≤ 1) {n m : VariableId} {v u : VariableFacts}
    (hv : f.vars[n]? = some v) (hu : f.vars[m]? = some u) (hi : i ∈ v.mentions)
    (hi' : i ∈ u.mentions) : n = m := by
  have hapart := (List.nodup_flatMap.1 (List.nodup_iff_count_le_one.2 h)).2
  rw [List.pairwise_iff_getElem] at hapart
  have hlist : ∀ {n : VariableId} {v : VariableFacts}, f.vars[n]? = some v →
      ∃ hn : n < f.vars.toList.length, f.vars.toList[n] = v := fun hv => by
    simpa [Array.getElem?_eq_some_iff] using hv
  obtain ⟨hn, rfl⟩ := hlist hv
  obtain ⟨hm, rfl⟩ := hlist hu
  rcases Nat.lt_trichotomy n m with hlt | heq | hlt
  · exact absurd hi' (hapart n m hn hm hlt hi)
  · exact heq
  · exact absurd hi (hapart m n hm hn hlt hi')

theorem nodup_users (h : ∀ i, f.mentions i ≤ 1) {n : VariableId} {v : VariableFacts}
    (hv : f.vars[n]? = some v) : v.users.Nodup := by
  have hnodup := (List.nodup_flatMap.1 (List.nodup_iff_count_le_one.2 h)).1 v
    (Array.mem_toList_iff.2 (Array.mem_of_getElem? hv))
  exact (List.nodup_cons.1 hnodup).2

/-- Nothing changes about variables and parameters, nor about expressions but some. -/
structure Quiet (is : List NodeId) (f f' : Facts) : Prop where
  vars : f'.vars = f.vars
  latest : f'.latest = f.latest
  others : ∀ j : NodeId, j ∉ is → f'.exprs[j]? = f.exprs[j]?
  params : ∀ g, f'.paramsAt g = f.paramsAt g

section

variable {is : List NodeId}

theorem Quiet.refl (is : List NodeId) (f : Facts) : f.Quiet is f :=
  ⟨rfl, rfl, fun _ _ => rfl, fun _ => rfl⟩

theorem Quiet.trans {f₁ : Facts} (h : f.Quiet is f₁) (h' : f₁.Quiet is f') : f.Quiet is f' :=
  ⟨h'.vars.trans h.vars, h'.latest.trans h.latest,
    fun j hj => (h'.others j hj).trans (h.others j hj), fun g => (h'.params g).trans (h.params g)⟩

theorem Quiet.filed (h : f.Quiet is f') (hf : f.Filed a) : f'.Filed a :=
  hf.keep h.latest (fun n v hv => ⟨v, by rwa [h.vars], rfl⟩) h.params

theorem Quiet.mentions_eq (h : f.Quiet is f') (j : NodeId) : f'.mentions j = f.mentions j := by
  rw [mentions, h.vars]
  rfl

theorem Quiet.tied (h : f.Quiet is f') {j : NodeId} (hj : j ∉ is) (ht : f.Tied j) : f'.Tied j := by
  intro n v hv hu
  rw [h.others j hj]
  exact ht n v (h.vars ▸ hv) hu

end

/-- An identifier becomes a user of a variable, and its record says so. -/
structure Uses (i : NodeId) (n : VariableId) (f f' : Facts) : Prop where
  vars : f'.vars = f.vars.modify n fun v => { v with users := v.users ++ [i] }
  latest : f'.latest = f.latest
  record : ∀ v : VariableFacts, f.vars[n]? = some v →
    ∃ e : ExprFacts, f'.exprs[i]? = some e ∧ e.variableId = some n ∧ e.type = v.type
  others : ∀ j : NodeId, j ≠ i → f'.exprs[j]? = f.exprs[j]?
  params : ∀ g, f'.paramsAt g = f.paramsAt g

theorem count_modify (vs : List VariableFacts) {n : Nat} (hn : n < vs.length) (i j : NodeId) :
    ((vs.modify n fun v => { v with users := v.users ++ [i] }).flatMap (·.mentions)).count j =
      (vs.flatMap (·.mentions)).count j + if j = i then 1 else 0 := by
  induction vs generalizing n with
  | nil => exact absurd hn (Nat.not_lt_zero n)
  | cons v vs ih =>
    cases n with
    | zero =>
      rw [List.modify_zero_cons, List.flatMap_cons, List.flatMap_cons]
      simp only [VariableFacts.mentions, List.count_append, List.count_cons, List.count_nil,
        beq_iff_eq, eq_comm (a := i)]
      omega
    | succ n =>
      rw [List.modify_succ_cons, List.flatMap_cons, List.flatMap_cons, List.count_append,
        List.count_append, ih (Nat.lt_of_succ_lt_succ hn)]
      omega

namespace Uses

variable {n : VariableId} (h : f.Uses i n f')
include h

theorem count (hn : n < f.vars.size) (j : NodeId) :
    f'.mentions j = f.mentions j + if j = i then 1 else 0 := by
  rw [mentions, h.vars, Array.toList_modify]
  exact count_modify _ (by simpa using hn) i j

/-- What other identifiers refer to stays. -/
theorem tied_of_ne {j : NodeId} (hj : j ≠ i) (ht : f.Tied j) : f'.Tied j := by
  intro m v hv hu
  rw [h.vars, Array.getElem?_modify] at hv
  rw [h.others j hj]
  split at hv
  · obtain ⟨v', hv', rfl⟩ := Option.map_eq_some_iff.1 hv
    exact ht m v' hv' ((List.mem_append.1 hu).resolve_right fun h => hj (List.mem_singleton.1 h))
  · exact ht m v hv hu

/-- An identifier that referred to nothing so far refers to the one variable. -/
theorem tied_self (hi : f.mentions i = 0) : f'.Tied i := by
  intro m v hv hu
  rw [h.vars, Array.getElem?_modify] at hv
  have hno : ∀ {m : VariableId} {v : VariableFacts}, f.vars[m]? = some v →
      i ∉ v.users := fun hv hu =>
    absurd hi (Nat.ne_of_gt (mentions_pos hv (List.mem_cons_of_mem _ hu)))
  split at hv
  · next hmn =>
    subst hmn
    obtain ⟨v', hv', rfl⟩ := Option.map_eq_some_iff.1 hv
    exact h.record v' hv'
  · exact absurd hu (hno hv)

theorem filed (hf : f.Filed a) : f'.Filed a := by
  refine hf.keep h.latest (fun m v hv => ?_) h.params
  rw [h.vars, Array.getElem?_modify, hv]
  split
  · exact ⟨_, rfl, rfl⟩
  · exact ⟨v, rfl, rfl⟩

end Uses

end Facts

namespace Program

variable {p : Program} {w u v : NodeId → Nat} {f f₁ f₂ f' : Facts}

/-- What may declare or use a variable. -/
def Mentioning (p : Program) (i : NodeId) : Prop :=
  (∃ s, p.shape? i = some (.expr (.ident s))) ∨ (p.asVariable? i).isSome

open Classical in
/-- One for an identifier or a declaration below a node, none for any other node. -/
noncomputable def weight (p : Program) (e i : NodeId) : Nat :=
  if p.Below e i ∧ p.Mentioning i then 1 else 0

/-- In how many of the parts below some nodes an identifier or a declaration is. -/
noncomputable def weights (p : Program) (es : List NodeId) (i : NodeId) : Nat :=
  es.foldr (fun e n => p.weight e i + n) 0

/-- Is it a variable of the module that has not been made yet? -/
def waiting (p : Program) (f : Facts) (d : NodeId) : Bool :=
  (p.asVariable? d).isSome && f.latest[d]?.isNone

/-- What is set aside for variables that have not been made yet. -/
noncomputable def credit (p : Program) (f : Facts) (i : NodeId) : Nat :=
  p.weights (p.globals.filter (p.waiting f)) i

@[simp] theorem weights_nil (p : Program) (i : NodeId) : p.weights [] i = 0 := rfl

@[simp] theorem weights_cons (p : Program) (e : NodeId) (es : List NodeId) (i : NodeId) :
    p.weights (e :: es) i = p.weight e i + p.weights es i := rfl

@[simp] theorem weights_append (p : Program) (es es' : List NodeId) (i : NodeId) :
    p.weights (es ++ es') i = p.weights es i + p.weights es' i := by
  induction es with
  | nil => simp
  | cons e es ih => rw [List.cons_append, weights_cons, weights_cons, ih, Nat.add_assoc]

theorem weights_eq_zero {es : List NodeId} {i : NodeId} (h : ∀ e ∈ es, p.weight e i = 0) :
    p.weights es i = 0 := by
  induction es with
  | nil => rfl
  | cons e es ih =>
    rw [weights_cons, h e List.mem_cons_self, ih fun e' he' => h e' (List.mem_cons_of_mem _ he')]

theorem weights_filter_le {t t' : NodeId → Bool} (h : ∀ d, t' d = true → t d = true)
    (es : List NodeId) (i : NodeId) : p.weights (es.filter t') i ≤ p.weights (es.filter t) i := by
  induction es with
  | nil => exact Nat.le_refl _
  | cons e es ih =>
    rw [List.filter_cons, List.filter_cons]
    by_cases ht' : t' e = true
    · rw [if_pos ht', if_pos (h e ht'), weights_cons, weights_cons]
      omega
    · rw [if_neg ht']
      split
      · rw [weights_cons]
        omega
      · exact ih

/-- Nodes of two kinds, none of them of both. -/
theorem weights_filter_add_le {t t' : NodeId → Bool} (h : ∀ d, t d = true → t' d = false)
    (es : List NodeId) (i : NodeId) :
    p.weights (es.filter t) i + p.weights (es.filter t') i ≤ p.weights es i := by
  induction es with
  | nil => exact Nat.le_refl _
  | cons e es ih =>
    rw [List.filter_cons, List.filter_cons, weights_cons]
    by_cases ht : t e = true
    · rw [if_pos ht, if_neg (by simp [h e ht]), weights_cons]
      omega
    · rw [if_neg ht]
      split
      · rw [weights_cons]
        omega
      · omega

theorem weights_perm {es es' : List NodeId} (h : es.Perm es') (i : NodeId) :
    p.weights es i = p.weights es' i :=
  h.foldr_eq' (fun e _ e' _ _ => Nat.add_left_comm (p.weight e' i) (p.weight e i) _) 0

theorem weight_le_one (p : Program) (e i : NodeId) : p.weight e i ≤ 1 := by
  unfold weight
  split <;> omega

theorem weight_eq_one {e i : NodeId} (hb : p.Below e i) (hi : p.Mentioning i) : p.weight e i = 1 :=
  if_pos ⟨hb, hi⟩

theorem of_weight_pos {e i : NodeId} (h : 0 < p.weight e i) :
    e ≠ 0 ∧ p.Below e i ∧ p.Mentioning i := by
  unfold weight at h
  split at h
  · next hb =>
    refine ⟨?_, hb⟩
    rintro rfl
    obtain ⟨hb, hi⟩ := hb
    have hnone : ∀ {i}, p.Below 0 i → i = 0 := by
      intro i hb
      induction hb with
      | self => rfl
      | child _ hc ih =>
        subst ih
        simp [Arena.children] at hc
    cases hnone hb
    rcases hi with ⟨s, hs⟩ | hv
    · cases hs
    · cases hv
  · cases h

/-- Parts that lie apart have a node in one of them at most. -/
theorem Clear.weights_le {M : Frame} {Δ : Levels} {es : List NodeId} (hc : p.Clear M Δ es)
    {i : NodeId} {k : Nat} (hk : ∀ e ∈ es, p.weight e i ≤ k) : p.weights es i ≤ k := by
  induction es with
  | nil => exact Nat.zero_le k
  | cons e es ih =>
    have hrest := ih (hc.sublist (List.sublist_cons_self e es)) fun e' he' =>
      hk e' (List.mem_cons_of_mem _ he')
    rw [weights_cons]
    rcases Nat.eq_zero_or_pos (p.weight e i) with h0 | hpos
    · omega
    · obtain ⟨he0, hb, _⟩ := of_weight_pos hpos
      have hnone : p.weights es i = 0 := by
        refine weights_eq_zero fun e' he' => ?_
        by_contra hne
        obtain ⟨he0', hb', _⟩ := of_weight_pos (Nat.pos_of_ne_zero hne)
        exact (List.pairwise_cons.1 hc.apart).1 e' he' he0 he0' i hb hb'
      have := hk e List.mem_cons_self
      omega

/-- What is below some children of a node is below the node. -/
theorem Clear.weights_children {e : NodeId} (ht : p.TreeShaped) (hc : p.Clear [] [] [e])
    {s : Shape Symbol NodeId} (hs : p.shape? e = some s) {cs : List NodeId}
    (hcs : cs.Sublist s.slots) (i : NodeId) : p.weights cs i ≤ p.weight e i := by
  refine (hc.children ht hs hcs).weights_le fun c hc => ?_
  rcases Nat.eq_zero_or_pos (p.weight c i) with h0 | hpos
  · omega
  · obtain ⟨hc0, hb, hi⟩ := of_weight_pos hpos
    have := weight_eq_one (Below.of_child (mem_children_of_slot hs (hcs.subset hc) hc0) hb) hi
    have := p.weight_le_one c i
    omega

/-- A declaration is not below its children. -/
theorem Clear.weights_value {e : NodeId} (ht : p.TreeShaped) (hc : p.Clear [] [] [e])
    {v : VariableShape Symbol NodeId} (hv : p.asVariable? e = some v) {cs : List NodeId}
    (hcs : cs.Sublist (Shape.slots (ν := Symbol) (.decl (.value v)))) (i : NodeId) :
    (p.weights cs i + if i = e then 1 else 0) ≤ p.weight e i := by
  have hs := Arena.shape?_of_asVariable? hv
  have hle := hc.weights_children ht hs hcs i
  split
  · next hie =>
    subst hie
    have hnone : p.weights cs i = 0 := weights_eq_zero fun c hmem => by
      by_contra hne
      obtain ⟨hc0, hb, _⟩ := of_weight_pos (Nat.pos_of_ne_zero hne)
      exact ht.not_below_child (hc.inTree i List.mem_cons_self (Arena.ne_zero_of_shape hs))
        (mem_children_of_slot hs (hcs.subset hmem) hc0) hb
    have := weight_eq_one (p := p) .self (.inr (by simp [hv]) : p.Mentioning i)
    omega
  · exact hle

/-- Nothing is set aside for a variable once it is made. -/
theorem credit_release {d : NodeId} (hd : d ∈ p.globals) (hw : p.waiting f d = true)
    {v : VariableFacts} (hv : v.decl = d) (i : NodeId) :
    p.credit (f.addVariable v) i + p.weight d i ≤ p.credit f i := by
  have hwait : ∀ x, p.waiting (f.addVariable v) x = (p.waiting f x && decide (x ≠ d)) := by
    intro x
    simp only [waiting, Facts.addVariable, Std.TreeMap.getElem?_insert, hv]
    by_cases hx : x = d
    · simp [hx]
    · simp [hx, Ne.symm hx]
  have hall : ∀ gs : List NodeId, p.weights (gs.filter (p.waiting (f.addVariable v))) i +
      (if d ∈ gs then p.weight d i else 0) ≤ p.weights (gs.filter (p.waiting f)) i := by
    intro gs
    induction gs with
    | nil => simp
    | cons g gs ih =>
      rw [List.filter_cons, List.filter_cons, hwait]
      by_cases hg : g = d
      · subst hg
        simp only [hw, ne_eq, not_true_eq_false, decide_false, Bool.and_false, Bool.false_eq_true,
          if_false, if_true, List.mem_cons, true_or, weights_cons]
        split at ih <;> omega
      · simp only [List.mem_cons, Ne.symm hg, false_or, ne_eq, hg, not_false_eq_true, decide_true,
          Bool.and_true]
        split
        · rw [weights_cons, weights_cons]
          omega
        · exact ih
  have := hall p.globals
  rwa [if_pos hd] at this

theorem credit_addVariable_le (v : VariableFacts) (i : NodeId) :
    p.credit (f.addVariable v) i ≤ p.credit f i := by
  refine weights_filter_le (fun d hd => ?_) p.globals i
  simp only [waiting, Facts.addVariable, Std.TreeMap.getElem?_insert, Bool.and_eq_true] at hd ⊢
  refine ⟨hd.1, ?_⟩
  split at hd
  · simp at hd
  · exact hd.2

theorem credit_congr (h : f'.latest = f.latest) (i : NodeId) : p.credit f' i = p.credit f i := by
  have : p.waiting f' = p.waiting f := by
    funext d
    simp [waiting, h]
  rw [credit, this]
  rfl

/-- What a step does that may resolve what is below some nodes: each identifier becomes a user once
and each declaration makes a variable once, and so may those that something is set aside for. -/
structure Spends (p : Program) (w : NodeId → Nat) (f f' : Facts) : Prop where
  mentions : ∀ i, f'.mentions i + p.credit f' i ≤ f.mentions i + p.credit f i + w i
  grows : ∀ i, f.mentions i ≤ f'.mentions i
  tied : ∀ i s, p.shape? i = some (.expr (.ident s)) → f.Tied i ∨ 2 ≤ f.mentions i → f'.Tied i ∨
    2 ≤ f'.mentions i
  filed : f.Filed p.toArena → f'.Filed p.toArena

namespace Spends

theorem refl (p : Program) (w : NodeId → Nat) (f : Facts) : p.Spends w f f :=
  ⟨fun _ => Nat.le_add_right _ _, fun _ => Nat.le_refl _, fun _ _ _ h => h, id⟩

theorem trans (h : p.Spends u f f₁) (h' : p.Spends v f₁ f') (hw : ∀ i, u i + v i ≤ w i) :
    p.Spends w f f' := by
  refine ⟨fun i => ?_, fun i => Nat.le_trans (h.grows i) (h'.grows i),
    fun i s hs ht => h'.tied i s hs (h.tied i s hs ht), fun hf => h'.filed (h.filed hf)⟩
  have := h.mentions i
  have := h'.mentions i
  have := hw i
  omega

theorem mono (h : p.Spends u f f') (hw : ∀ i, u i ≤ w i) : p.Spends w f f' :=
  h.trans (refl p (fun _ => 0) f') hw

/-- Something happens to what is no identifier. -/
theorem quiet {is : List NodeId} (his : ∀ i ∈ is, ∀ s, p.shape? i ≠ some (.expr (.ident s)))
    (h : f.Quiet is f') : p.Spends w f f' := by
  refine ⟨fun j => ?_, fun j => Nat.le_of_eq (h.mentions_eq j).symm, fun j s hs ht => ?_, h.filed⟩
  · rw [h.mentions_eq, credit_congr h.latest]
    exact Nat.le_add_right _ _
  · exact ht.imp (h.tied fun hj => his j hj s hs) fun ht => (h.mentions_eq j).symm ▸ ht

/-- One more variable, which nothing is set aside for. -/
theorem made (h : p.Spends u f f₁) {v : VariableFacts} (hv : v.users = [])
    (hw : ∀ i, (u i + if i = v.decl then 1 else 0) ≤ w i) : p.Spends w f (f₁.addVariable v) := by
  refine h.trans (v := fun i => if i = v.decl then 1 else 0) ⟨fun i => ?_, fun i => ?_,
    fun i s _ ht => ?_, fun hf => hf.addVariable v⟩ hw
  · have := credit_addVariable_le (p := p) (f := f₁) v i
    rw [Facts.mentions_addVariable hv]
    omega
  · rw [Facts.mentions_addVariable hv]
    omega
  · rw [Facts.mentions_addVariable hv]
    exact ht.imp (Facts.tied_addVariable hv) fun ht => Nat.le_add_right_of_le ht

/-- A variable of the module: it was set aside, with what resolving its initializer takes. -/
theorem released {d : NodeId} (h : p.Spends u f f₁) (hd : d ∈ p.globals)
    (hw : p.waiting f₁ d = true) {v : VariableFacts} (hv : v.users = []) (hvd : v.decl = d)
    (hu : ∀ i, (u i + if i = d then 1 else 0) ≤ p.weight d i) :
    p.Spends (fun _ => 0) f (f₁.addVariable v) := by
  have hmade := h.made hv (hvd ▸ hu)
  refine ⟨fun i => ?_, hmade.grows, hmade.tied, hmade.filed⟩
  have := h.mentions i
  have := hu i
  have := credit_release hd hw hvd i
  rw [Facts.mentions_addVariable hv, hvd]
  omega

/-- An identifier is noted as met, its variable is made if it is not there yet, and it becomes a
user. -/
theorem identified {i : NodeId} {s : Symbol} {n : VariableId}
    (hs : p.shape? i = some (.expr (.ident s))) (hmet : f.Quiet [i] f₁)
    (h : p.Spends (fun _ => 0) f₁ f₂) (hn : n < f₂.vars.size) (huse : f₂.Uses i n f') :
    p.Spends (p.weights [i]) f f' := by
  have hcount := huse.count hn
  have hgrow : ∀ j, f₂.mentions j ≤ f'.mentions j := fun j => by
    rw [hcount]
    omega
  refine ⟨fun j => ?_, fun j => ?_, fun j s' hs' ht => ?_,
    fun hf => huse.filed (h.filed (hmet.filed hf))⟩
  · have hu := h.mentions j
    rw [hmet.mentions_eq, credit_congr hmet.latest] at hu
    rw [hcount, credit_congr huse.latest, weights_cons, weights_nil]
    split
    · next hj =>
      subst hj
      rw [weight_eq_one .self (.inl ⟨s, hs⟩)]
      omega
    · omega
  · have hu := h.grows j
    rw [hmet.mentions_eq] at hu
    exact Nat.le_trans hu (hgrow j)
  · by_cases hj : j = i
    · subst hj
      rcases Nat.eq_zero_or_pos (f₂.mentions j) with h0 | hpos
      · exact .inl (huse.tied_self h0)
      · right
        rw [hcount, if_pos rfl]
        omega
    · have ht₁ : f₁.Tied j ∨ 2 ≤ f₁.mentions j := ht.imp (hmet.tied (by simpa using hj)) fun h =>
        (hmet.mentions_eq j).symm ▸ h
      exact (h.tied j s' hs' ht₁).imp (huse.tied_of_ne hj) fun h => Nat.le_trans h (hgrow j)

end Spends

end Program

end ShaderLoom
