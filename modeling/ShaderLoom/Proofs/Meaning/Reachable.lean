import ShaderLoom.Pass.Unreachable
import ShaderLoom.Proofs.Meaning.Changes
import ShaderLoom.Proofs.Meaning.Flow

/-! Resolution of statements leaves a record that is right about every statement of a body, and so
about every run through it. -/
namespace ShaderLoom

namespace Facts

theorem stmts_summarize (f : Facts) (gs : List NodeId) : (f.summarize gs).stmts = f.stmts := by
  obtain ⟨functions, entryPoints, h⟩ := f.summarize_eq gs
  rw [h]

end Facts

namespace Flow

/-- A statement and the statements in it, at any depth. -/
inductive Nested (a : Arena) (s : NodeId) : NodeId → Prop
  | self : Nested a s s
  | step {y x c} : Nested a s y → a.shape? y = some (.stmt x) → c ∈ substatements x →
    c ≠ 0 → Nested a s c

theorem substatements_subset_slots (x : StmtShape NodeId) :
    ∀ c ∈ substatements x, c ∈ (Shape.stmt (ν := Symbol) x).slots := by
  intro c hc
  cases x <;> simp only [substatements, Shape.slots, List.mem_cons, List.not_mem_nil]
    at hc ⊢ <;> grind

theorem mem_children_of_substatement {a : Arena} {s c : NodeId} {x : StmtShape NodeId}
    (hs : a.shape? s = some (.stmt x)) (hc : c ∈ substatements x) (h0 : c ≠ 0) :
    c ∈ a.children s := by
  obtain ⟨n, hn, hx⟩ := Option.map_eq_some_iff.1 hs
  exact Arena.mem_children.2 ⟨n, hn, hx ▸ substatements_subset_slots x c hc, h0⟩

theorem Nested.isBelow {p : Program} {s y : NodeId} (h : Nested p.toArena s y) : p.Below s y := by
  induction h with
  | self => exact .self
  | step _ hs hc h0 ih => exact ih.child (mem_children_of_substatement hs hc h0)

/-- Below a statement is the statement itself or something in one of the statements in it. -/
theorem Nested.cases {a : Arena} {s y : NodeId} (h : Nested a s y) :
    y = s ∨ ∃ x c, a.shape? s = some (.stmt x) ∧ c ∈ substatements x ∧ c ≠ 0 ∧ Nested a c y := by
  induction h with
  | self => exact .inl rfl
  | @step y x d hy hs hc h0 ih =>
    rcases ih with rfl | ⟨x', c, hs', hc', h0', hn⟩
    · exact .inr ⟨x, d, hs, hc, h0, .self⟩
    · exact .inr ⟨x', c, hs', hc', h0', hn.step hs hc h0⟩

section Congr

variable {f f' : Facts} {a : Arena} {reachable : Bool} {b : Behaviors}

theorem Says.congr {s : NodeId} (h : Says f s reachable b)
    (hs : s ≠ 0 → f'.stmts[s]? = f.stmts[s]?) : Says f' s reachable b := by
  unfold Says at *
  split
  · next h0 => simpa [h0] using h
  · next h0 =>
    rw [hs h0]
    simpa [h0] using h

theorem Chain.congr {ss : List NodeId} {sofar : Behaviors} (h : Chain f reachable ss sofar b)
    (hs : ∀ s ∈ ss, s ≠ 0 → f'.stmts[s]? = f.stmts[s]?) : Chain f' reachable ss sofar b := by
  induction h with
  | nil => exact .nil
  | cons hsay _ ih =>
    exact .cons (hsay.congr (hs _ List.mem_cons_self))
      (ih fun s hm => hs s (List.mem_cons_of_mem _ hm))

/-- What follows about a statement depends on the entries of the statements in it only. -/
theorem Follows.congr {x : StmtShape NodeId} (h : Follows f reachable b x)
    (hs : ∀ c ∈ substatements x, c ≠ 0 → f'.stmts[c]? = f.stmts[c]?) :
    Follows f' reachable b x := by
  unfold Follows at *
  split at h
  · exact Chain.congr h hs
  · obtain ⟨x, y, hx, hy, hb⟩ := h
    exact ⟨x, y, hx.congr (hs _ (by simp [substatements])),
      hy.congr (hs _ (by simp [substatements])), hb⟩
  · obtain ⟨x, y, z, hx, hy, hz, hb⟩ := h
    exact ⟨x, y, z, hx.congr (hs _ (by simp [substatements])),
      hy.congr (hs _ (by simp [substatements])), hz.congr (hs _ (by simp [substatements])), hb⟩
  · obtain ⟨x, hx, hb⟩ := h
    exact ⟨x, hx.congr (hs _ (by simp [substatements])), hb⟩
  · obtain ⟨x, y, hx, hy, hb⟩ := h
    exact ⟨x, y, hx.congr (hs _ (by simp [substatements])),
      hy.congr (hs _ (by simp [substatements])), hb⟩
  all_goals exact h

theorem Settled.congr {s : NodeId} (h : Settled f a s) (hs : f'.stmts[s]? = f.stmts[s]?)
    (hc : ∀ c ∈ a.children s, f'.stmts[c]? = f.stmts[c]?) : Settled f' a s := by
  intro x hx
  obtain ⟨reachable, b, hsay, hf⟩ := h x hx
  exact ⟨reachable, b, hsay.congr fun _ => hs,
    hf.congr fun c hm h0 => hc c (mem_children_of_substatement hx hm h0)⟩

end Congr
end Flow

namespace Resolve

open ShaderLoom.Flow

variable {p : Program} {c : Scene} {r : Resolver}

/-- A statement has been resolved: its record is right, and that of statements elsewhere is as
before. -/
structure Resolved (p : Program) (s : NodeId) (reachable : Bool) (r : Resolver) (b : Behaviors)
    (r' : Resolver) : Prop where
  entry : Says r'.facts s reachable b
  frame : ∀ x, (s ≠ 0 → ¬ p.Below s x) → r'.facts.stmts[x]? = r.facts.stmts[x]?
  settled : s ≠ 0 → ∀ x, Nested p.toArena s x → Settled r'.facts p.toArena x

/-- The same for statements in order. -/
structure ResolvedAll (p : Program) (ss : List NodeId) (reachable : Bool) (sofar : Behaviors)
    (r : Resolver) (b : Behaviors) (r' : Resolver) : Prop where
  chain : Chain r'.facts reachable ss sofar b
  frame : ∀ x, (∀ s ∈ ss, s ≠ 0 → ¬ p.Below s x) → r'.facts.stmts[x]? = r.facts.stmts[x]?
  settled : ∀ s ∈ ss, s ≠ 0 → ∀ x, Nested p.toArena s x → Settled r'.facts p.toArena x

/-- What was found about some statements, each with its behaviors, one after another. -/
structure Together (p : Program) (done : List (NodeId × Behaviors)) (reachable : Bool)
    (r r' : Resolver) : Prop where
  entry : ∀ q ∈ done, Says r'.facts q.1 reachable q.2
  frame : ∀ x, (∀ q ∈ done, q.1 ≠ 0 → ¬ p.Below q.1 x) → r'.facts.stmts[x]? = r.facts.stmts[x]?
  settled : ∀ q ∈ done, q.1 ≠ 0 → ∀ x, Nested p.toArena q.1 x → Settled r'.facts p.toArena x

/-- What is in a statement has been resolved. -/
structure Filled (p : Program) (i : NodeId) (reachable : Bool) (r : Resolver) (b : Behaviors)
    (r' : Resolver) : Prop where
  follows : ∀ x, p.shape? i = some (.stmt x) → Follows r'.facts reachable b x
  frame : ∀ x, (∀ d ∈ p.children i, ¬ p.Below d x) → r'.facts.stmts[x]? = r.facts.stmts[x]?
  settled : ∀ x, p.shape? i = some (.stmt x) → ∀ d ∈ substatements x,
    d ≠ 0 → ∀ y, Nested p.toArena d y →
    Settled r'.facts p.toArena y

theorem Together.nil {reachable : Bool} {r' : Resolver} (hr : stmtsOf r' = stmtsOf r) :
    Together p [] reachable r r' :=
  ⟨by simp, fun x _ => by rw [show r'.facts.stmts = r.facts.stmts from hr], by simp⟩

/-- Steps that leave the record alone may come before and after. -/
theorem Resolved.keep {s : NodeId} {reachable : Bool} {b : Behaviors} {r₀ r₁ r₂ : Resolver}
    (h : Resolved p s reachable r b r₁) (h₀ : stmtsOf r = stmtsOf r₀)
    (h₂ : stmtsOf r₂ = stmtsOf r₁) : Resolved p s reachable r₀ b r₂ := by
  have h₂ : r₂.facts.stmts = r₁.facts.stmts := h₂
  have h₀ : r.facts.stmts = r₀.facts.stmts := h₀
  exact ⟨h.entry.congr fun _ => by rw [h₂], fun x hx => by rw [h₂, h.frame x hx, h₀],
    fun hne x hx => (h.settled hne x hx).congr (by rw [h₂]) fun _ _ => by rw [h₂]⟩

theorem Together.keep {done : List (NodeId × Behaviors)} {reachable : Bool} {r₁ r₂ : Resolver}
    (h : Together p done reachable r r₁) (hr : stmtsOf r₂ = stmtsOf r₁) :
    Together p done reachable r r₂ := by
  have hr : r₂.facts.stmts = r₁.facts.stmts := hr
  exact ⟨fun q hq => (h.entry q hq).congr fun _ => by rw [hr], fun x hx => by rw [hr, h.frame x hx],
    fun q hq h0 x hx => (h.settled q hq h0 x hx).congr (by rw [hr]) fun _ _ => by rw [hr]⟩

section Tree

variable (hp : p.TreeShaped)
include hp

/-- The statements in a statement are different ones. -/
theorem nodup_substatements {i : NodeId} (hi : p.inTree i = true) {x : StmtShape NodeId}
    (hx : p.shape? i = some (.stmt x)) : ((substatements x).filter (· != 0)).Nodup := by
  have hnd := hp.once hi
  obtain ⟨n, hn, hs⟩ := Option.map_eq_some_iff.1 hx
  simp only [Arena.children, hn, Option.map_some, Option.getD_some, Node.children, hs] at hnd
  cases x <;> simp only [substatements, Shape.slots] at hnd ⊢ <;> first | exact hnd | skip
  all_goals simp only [List.filter_cons, List.filter_nil] at hnd ⊢
  all_goals grind

/-- What was found about the first statements in a statement stays when the next one is resolved. -/
theorem Together.snoc {i d : NodeId} (hi : p.inTree i = true) {x : StmtShape NodeId}
    (hx : p.shape? i = some (.stmt x)) {done : List (NodeId × Behaviors)} {reachable : Bool}
    {b : Behaviors} {r₁ r₂ : Resolver} (h : Together p done reachable r r₁)
    (h' : Resolved p d reachable r₁ b r₂) {rest : List NodeId}
    (hin : substatements x = done.map Prod.fst ++ d :: rest) :
    Together p (done ++ [(d, b)]) reachable r r₂ := by
  have hmem : ∀ q ∈ done, q.1 ∈ substatements x := fun q hq => by
    rw [hin]
    exact List.mem_append_left _ (List.mem_map_of_mem hq)
  have hne : ∀ q ∈ done, q.1 ≠ 0 → q.1 ≠ d := by
    rintro q hq h0 rfl
    have hnd := nodup_substatements hp hi hx
    rw [hin, List.filter_append, List.filter_cons, if_pos (by simpa using h0)] at hnd
    exact (List.nodup_append.1 hnd).2.2 _
      (List.mem_filter.2 ⟨List.mem_map_of_mem hq, by simpa using h0⟩)
      _ List.mem_cons_self rfl
  have hkeep : ∀ q ∈ done, q.1 ≠ 0 → ∀ y, p.Below q.1 y → r₂.facts.stmts[y]? = r₁.facts.stmts[y]? :=
    fun q hq h0 y hy => h'.frame y fun hd0 =>
      hp.disjoint hi (mem_children_of_substatement hx (hmem q hq) h0)
        (mem_children_of_substatement hx (by simp [hin]) hd0) (hne q hq h0) hy
  refine ⟨fun q hq => ?_, fun y hy => ?_, fun q hq h0 y hy => ?_⟩
  · rcases List.mem_append.1 hq with hq | hq
    · exact (h.entry q hq).congr fun h0 => hkeep q hq h0 _ .self
    · rw [List.mem_singleton.1 hq]
      exact h'.entry
  · rw [h'.frame y (hy (d, b) (by simp)), h.frame y fun q hq => hy q (List.mem_append_left _ hq)]
  · rcases List.mem_append.1 hq with hq | hq
    · exact (h.settled q hq h0 y hy).congr (hkeep q hq h0 y hy.isBelow) fun z hz =>
        hkeep q hq h0 z (hy.isBelow.child hz)
    · rw [List.mem_singleton.1 hq] at h0 hy
      exact h'.settled h0 y hy

/-- A statement is resolved once its entry is made, what is in it is resolved, and the behaviors are
added to the entry. -/
theorem Resolved.of_filled {i : NodeId} (hi : p.inTree i = true) (h0 : i ≠ 0) {fn : Option NodeId}
    {reachable : Bool} {b : Behaviors} {r₁ r₂ r₃ : Resolver}
    (hset : r₁.facts.stmts = r.facts.stmts.insert i { function := fn, reachable })
    (h : Filled p i reachable r₁ b r₂)
    (hadd : r₃.facts.stmts = r₂.facts.stmts.modify i fun s => { s with behaviors := b }) :
    Resolved p i reachable r b r₃ := by
  have hother : ∀ x, x ≠ i → r₃.facts.stmts[x]? = r₂.facts.stmts[x]? := by
    intro x hx
    rw [hadd, Std.TreeMap.getElem?_modify, if_neg (by simpa using Ne.symm hx)]
  have hself : r₃.facts.stmts[i]? = some { function := fn, behaviors := b, reachable } := by
    have := h.frame i fun d hd => hp.not_below_child hi hd
    rw [hset, Std.TreeMap.getElem?_insert_self] at this
    rw [hadd, Std.TreeMap.getElem?_modify_self, this]
    rfl
  -- What is in the statement does not lie above it.
  have hin : ∀ {d x : NodeId}, d ∈ p.children i → p.Below d x → x ≠ i := by
    rintro d x hd hx rfl
    exact hp.not_below_child hi hd hx
  have hsay : Says r₃.facts i reachable b := by
    simp only [Says, h0, if_false]
    exact ⟨fn, hself⟩
  refine ⟨hsay, fun x hx => ?_, fun _ y hy => ?_⟩
  · have hx := hx h0
    have hne : x ≠ i := by
      rintro rfl
      exact hx .self
    rw [hother x hne, h.frame x fun d hd hb => hx (.of_child hd hb), hset,
      Std.TreeMap.getElem?_insert, if_neg (by simpa using Ne.symm hne)]
  · rcases hy.cases with rfl | ⟨x, d, hs, hd, hd0, hn⟩
    · intro x hx
      exact ⟨reachable, b, hsay, (h.follows x hx).congr fun d hd hd0 =>
        hother d (hin (mem_children_of_substatement hx hd hd0) .self)⟩
    · have hdc := mem_children_of_substatement hs hd hd0
      exact (h.settled x hs d hd hd0 y hn).congr (hother y (hin hdc hn.isBelow)) fun e he =>
        hother e (hin hdc (hn.isBelow.child he))

/-- Statements in order, each a child of one node. -/
theorem inOrder_settles {i : NodeId} (hi : p.inTree i = true)
    {one : NodeId → Bool → Resolve Behaviors} {reachable : Bool} {ss : List NodeId}
    (hone : ∀ s ∈ ss, ∀ live r, Ends (one s live) r (Resolved p s live r))
    (hmem : ∀ s ∈ ss, s ≠ 0 → s ∈ p.children i) (hnd : (ss.filter (· != 0)).Nodup)
    (sofar : Behaviors) (r : Resolver) :
    Ends (inOrder one reachable ss sofar) r (ResolvedAll p ss reachable sofar r) := by
  induction ss generalizing sofar r with
  | nil => exact .pure ⟨.nil, fun _ _ => rfl, by simp⟩
  | cons s ss ih =>
    have hnd' : (ss.filter (· != 0)).Nodup := by
      rw [List.filter_cons] at hnd
      split at hnd
      · exact (List.nodup_cons.1 hnd).2
      · exact hnd
    have hne : ∀ d ∈ ss, d ≠ 0 → s ≠ d := by
      rintro d hd h0 rfl
      rw [List.filter_cons, if_pos (by simpa using h0)] at hnd
      exact (List.nodup_cons.1 hnd).1 (List.mem_filter.2 ⟨hd, by simpa using h0⟩)
    unfold inOrder
    refine Ends.bind ((hone s List.mem_cons_self _ r).mono fun b r₁ h₁ => ?_)
    refine (ih (fun s hs => hone s (List.mem_cons_of_mem _ hs))
      (fun s hs => hmem s (List.mem_cons_of_mem _ hs)) hnd' _ r₁).mono fun b' r₂ h₂ => ?_
    -- What lies below the first statement lies below none of the rest.
    have hkeep : ∀ x, s ≠ 0 → p.Below s x →
        r₂.facts.stmts[x]? = r₁.facts.stmts[x]? := fun x h0 hx =>
      h₂.frame x fun d hd hd0 => hp.disjoint hi (hmem s List.mem_cons_self h0)
        (hmem d (List.mem_cons_of_mem _ hd) hd0) (hne d hd hd0) hx
    refine ⟨.cons (h₁.entry.congr fun h0 => hkeep s h0 .self) h₂.chain, fun x hx => ?_,
      fun d hd h0 x hx => ?_⟩
    · rw [h₂.frame x fun d hd => hx d (List.mem_cons_of_mem _ hd),
        h₁.frame x (hx s List.mem_cons_self)]
    · rcases List.mem_cons.1 hd with rfl | hd
      · exact (h₁.settled h0 x hx).congr (hkeep x h0 hx.isBelow) fun y hy =>
          hkeep y h0 (hx.isBelow.child hy)
      · exact h₂.settled d hd h0 x hx

end Tree

theorem Together.filled {i : NodeId} {x : StmtShape NodeId} (hx : p.shape? i = some (.stmt x))
    {done : List (NodeId × Behaviors)} {reachable : Bool} {b : Behaviors} {r' : Resolver}
    (h : Together p done reachable r r') (hin : done.map Prod.fst = substatements x)
    (hf : Follows r'.facts reachable b x) : Filled p i reachable r b r' := by
  have heq : ∀ y, p.shape? i = some (.stmt y) → y = x := by
    intro y hy
    simpa [hx] using hy.symm
  refine ⟨fun y hy => heq y hy ▸ hf, fun y hy => ?_, fun y hy d hd h0 z hz => ?_⟩
  · refine h.frame y fun q hq h0 => hy q.1 (mem_children_of_substatement hx ?_ h0)
    exact hin ▸ List.mem_map_of_mem hq
  · obtain ⟨q, hq, rfl⟩ := List.mem_map.1 (hin ▸ heq y hy ▸ hd)
    exact h.settled _ hq h0 z hz

/-- A statement without others in it. -/
theorem Filled.of_keeps {i : NodeId} {x : StmtShape NodeId} (hx : p.shape? i = some (.stmt x))
    {reachable : Bool} {b : Behaviors} {r' : Resolver} (hr : stmtsOf r' = stmtsOf r)
    (hin : substatements x = []) (hf : Follows r'.facts reachable b x) :
    Filled p i reachable r b r' :=
  (Together.nil hr).filled hx (by simp [hin]) hf

section Statement

variable (hp : p.TreeShaped) (hc : c.arena = p.toArena) {rank : NodeId → Nat}
  (hrank : ∀ i d, p.inTree i = true → d ∈ p.children i → rank i < rank d)
include hp hc hrank

omit hc in
/-- The statements of a block, with the block's own entry still to be made. -/
theorem block_fills {i : NodeId} (hi : p.inTree i = true) {ss : List NodeId}
    (hx : p.shape? i = some (.stmt (.block ss))) {one : NodeId → Bool → Resolve Behaviors}
    (hone : ∀ s, (s ≠ 0 → p.inTree s = true ∧ rank i < rank s) →
      ∀ live r, Ends (one s live) r (Resolved p s live r)) (reachable : Bool) (r : Resolver) :
    Ends (inOrder one reachable ss (.only .next)) r (Filled p i reachable r) := by
  have hchild : ∀ s ∈ ss, s ≠ 0 → s ∈ p.children i :=
    fun s hs h0 => mem_children_of_substatement hx hs h0
  have heq : ∀ y, p.shape? i = some (.stmt y) → y = .block ss := by
    intro y hy
    simpa [hx] using hy.symm
  refine (inOrder_settles hp hi (fun s hs => hone s fun h0 => ?_) hchild
    (nodup_substatements hp hi hx) _ r).mono
    fun b r₁ h₁ => ⟨fun y hy => ?_, fun y hy => ?_, fun y hy d hd h0 => ?_⟩
  · exact ⟨hp.inTree_child hi (hchild s hs h0), hrank _ _ hi (hchild s hs h0)⟩
  · rw [heq y hy]
    exact h₁.chain
  · exact h₁.frame y fun s hs h0 => hy s (hchild s hs h0)
  · rw [heq y hy] at hd
    exact h₁.settled d hd h0

theorem openBody_settles {i body : NodeId} (hi : p.inTree i = true) (hb : p.isBlock body)
    (hbody : body ≠ 0 → body ∈ p.children i) {one : NodeId → Bool → Resolve Behaviors}
    (hone : ∀ s, (s ≠ 0 → p.inTree s = true ∧ rank i < rank s) →
      ∀ live r, Ends (one s live) r (Resolved p s live r)) (reachable : Bool) (r : Resolver) :
    Ends (openBody c one body reachable) r (Resolved p body reachable r) := by
  obtain ⟨ss, hss⟩ := Option.isSome_iff_exists.1 hb
  have hx : p.shape? body = some (.stmt (.block ss)) := by
    obtain ⟨x, hx, hs⟩ := Option.bind_eq_some_iff.1 hss
    unfold Shape.block? at hs
    split at hs <;> simp_all
  have h0 := Arena.ne_zero_of_shape hx
  have hlt := hrank _ _ hi (hbody h0)
  unfold openBody
  rw [hc, hss]
  refine Ends.bind (.modify (Ends.bind ?_))
  refine (block_fills hp hrank (hp.inTree_child hi (hbody h0)) hx
    (fun s hs => hone s fun h0 => ⟨(hs h0).1, Nat.lt_trans hlt (hs h0).2⟩) reachable _).mono
    fun b r₁ h₁ => ?_
  refine Ends.bind (.modify (.pure ?_))
  exact .of_filled hp (hp.inTree_child hi (hbody h0)) h0 rfl h₁ rfl

variable (hblock : ∀ {s b k}, p.inTree s = true → p.shape? s = some (.stmt (.loop b k)) →
    p.isBlock b)
include hblock

/-- What is in a statement, whatever its shape. -/
theorem inside_settles {i : NodeId} (hi : p.inTree i = true)
    {one : NodeId → Bool → Resolve Behaviors}
    (hone : ∀ s, (s ≠ 0 → p.inTree s = true ∧ rank i < rank s) →
      ∀ live r, Ends (one s live) r (Resolved p s live r)) (reachable : Bool) (r : Resolver) :
    Ends (inside c one i reachable (p.shape? i)) r (Filled p i reachable r) := by
  have hchild : ∀ {x : StmtShape NodeId} {s : NodeId}, p.shape? i = some (.stmt x) →
      s ∈ substatements x →
      s ≠ 0 → s ∈ p.children i := fun hx hs h0 => mem_children_of_substatement hx hs h0
  have hsub : ∀ {x : StmtShape NodeId} {s : NodeId}, p.shape? i = some (.stmt x) →
      s ∈ substatements x →
      ∀ live r, Ends (one s live) r (Resolved p s live r) := fun hx hs =>
    hone _ fun h0 => ⟨hp.inTree_child hi (hchild hx hs h0), hrank _ _ hi (hchild hx hs h0)⟩
  have hexpr := fun e => (moves_expr c c.fuel e).stmts
  cases hx : p.shape? i with
  | none =>
    refine Ends.bind (((moves_report c i _).stmts r).mono fun _ r₁ h₁ => .pure ?_)
    exact ⟨by simp [hx], fun x _ => by rw [show r₁.facts.stmts = r.facts.stmts from h₁], by
      simp [hx]⟩
  | some sh =>
    cases sh with
    | stmt x =>
      cases x with
      | block ss =>
        refine Ends.bind (.modify (Ends.bind ?_))
        refine (block_fills hp hrank hi hx hone reachable _).mono fun b r₁ h₁ =>
          Ends.bind (.modify (.pure ?_))
        exact ⟨h₁.follows, h₁.frame, h₁.settled⟩
      | varDecl v =>
        exact Ends.bind (((moves_localVariable c v).stmts r).mono fun _ r₁ h₁ =>
          .pure (.of_keeps hx h₁ rfl rfl))
      | assign l e =>
        refine Ends.bind
          ((hexpr l r).mono fun _ r₁ h₁ => Ends.bind ((hexpr e r₁).mono fun _ r₂ h₂ => .pure ?_))
        exact .of_keeps hx (h₂.trans h₁) rfl rfl
      | increment l _ =>
        exact Ends.bind ((hexpr l r).mono fun _ r₁ h₁ => .pure (.of_keeps hx h₁ rfl rfl))
      | callStatement e =>
        exact Ends.bind ((hexpr e r).mono fun _ r₁ h₁ => .pure (.of_keeps hx h₁ rfl rfl))
      | ifElse cond body otherwise =>
        refine Ends.bind ((hexpr cond r).mono fun _ r₁ h₁ => ?_)
        refine Ends.bind ((hsub hx (by simp [substatements]) reachable r₁).mono fun b r₂ h₂ => ?_)
        refine Ends.bind
          ((hsub hx (by simp [substatements]) reachable r₂).mono fun b' r₃ h₃ => .pure ?_)
        have hboth := ((Together.nil h₁).snoc hp hi hx h₂ rfl).snoc hp hi hx h₃ rfl
        exact hboth.filled hx rfl ⟨b, b', hboth.entry (body, b) (by simp),
          hboth.entry (otherwise, b') (by simp), rfl⟩
      | forLoop init cond continuing body =>
        refine Ends.bind (.modify (Ends.bind ?_))
        refine (hsub hx (by simp [substatements]) reachable _).mono fun b₁ r₁ h₁ => ?_
        refine Ends.bind ((hexpr cond r₁).mono fun _ r₂ h₂ => ?_)
        refine Ends.bind ((hsub hx (by simp [substatements]) reachable r₂).mono fun b₃ r₃ h₃ => ?_)
        refine Ends.bind ((hsub hx (by simp [substatements]) reachable r₃).mono fun b₄ r₄ h₄ => ?_)
        refine Ends.bind (.modify (.pure ?_))
        have hstart : Together p [] reachable r { r with frames := [] :: r.frames } := .nil rfl
        have hinit := (hstart.snoc hp hi hx h₁ rfl).keep h₂
        have hall := ((hinit.snoc hp hi hx h₃ rfl).snoc hp hi hx h₄ rfl).keep
          (show stmtsOf { r₄ with frames := r₄.frames.drop 1 } = stmtsOf r₄ from rfl)
        exact hall.filled hx rfl ⟨b₁, b₃, b₄, hall.entry (init, b₁) (by simp),
          hall.entry (body, b₃) (by simp), hall.entry (continuing, b₄) (by simp), rfl⟩
      | whileLoop cond body =>
        refine Ends.bind ((hexpr cond r).mono fun _ r₁ h₁ => ?_)
        refine Ends.bind
          ((hsub hx (by simp [substatements]) reachable r₁).mono fun b r₂ h₂ => .pure ?_)
        have hbody := (Together.nil h₁).snoc hp hi hx h₂ rfl
        exact hbody.filled hx rfl ⟨b, hbody.entry (body, b) (by simp), rfl⟩
      | loop body continuing =>
        refine Ends.bind (.modify (Ends.bind ?_))
        refine (openBody_settles hp hc hrank hi (hblock hi hx) (hchild hx (by simp [substatements]))
          hone reachable _).mono
          fun b₁ r₁ h₁ => ?_
        refine Ends.bind ((hsub hx (by simp [substatements]) reachable r₁).mono fun b₂ r₂ h₂ => ?_)
        refine Ends.bind (.modify (.pure ?_))
        have hstart : Together p [] reachable r { r with frames := [] :: r.frames } := .nil rfl
        have hboth := ((hstart.snoc hp hi hx h₁ rfl).snoc hp hi hx h₂ rfl).keep
          (show stmtsOf { r₂ with frames := r₂.frames.drop 1 } = stmtsOf r₂ from rfl)
        exact hboth.filled hx rfl ⟨b₁, b₂, hboth.entry (body, b₁) (by simp),
          hboth.entry (continuing, b₂) (by simp), rfl⟩
      | breakLoop => exact .pure (.of_keeps hx rfl rfl rfl)
      | continueLoop => exact .pure (.of_keeps hx rfl rfl rfl)
      | discard => exact .pure (.of_keeps hx rfl rfl rfl)
      | ret v => exact Ends.bind ((hexpr v r).mono fun _ r₁ h₁ => .pure (.of_keeps hx h₁ rfl rfl))
    | _ =>
      refine Ends.bind (((moves_report c i _).stmts r).mono fun _ r₁ h₁ => .pure ?_)
      exact ⟨by simp [hx], fun x _ => by rw [show r₁.facts.stmts = r.facts.stmts from h₁], by
        simp [hx]⟩

/-- Every statement of a body has a right record once the body is resolved. The bound on the depth
is never met. -/
theorem statement_settles (hle : ∀ i, rank i ≤ p.treeIds.length) (n : Nat) {s : NodeId}
    (hs : s ≠ 0 → p.inTree s = true ∧ p.treeIds.length < n + rank s) (reachable : Bool)
    (r : Resolver) : Ends (statement c n s reachable) r (Resolved p s reachable r) := by
  induction n generalizing s reachable r with
  | zero =>
    by_cases h0 : s = 0
    · subst h0
      unfold statement
      refine Ends.bind (((moves_refuse c 0 _).stmts r).mono fun _ r₁ h₁ => .pure ?_)
      exact ⟨says_zero.2 rfl,
        fun x _ => by rw [show r₁.facts.stmts = r.facts.stmts from h₁], fun h => absurd rfl h⟩
    · obtain ⟨ht, hn⟩ := hs h0
      have := hle s
      omega
  | succ n ih =>
    unfold statement
    split
    · next h0 =>
      subst h0
      exact .pure ⟨says_zero.2 rfl, fun _ _ => rfl, fun h => absurd rfl h⟩
    · next h0 =>
      obtain ⟨ht, hn⟩ := hs h0
      refine Ends.get (Ends.bind (.modify (Ends.bind (.modify (Ends.bind ?_)))))
      rw [hc]
      refine (inside_settles hp hc hrank hblock ht (fun d hd live r => ih (fun hd0 => ?_) live r)
        reachable _).mono fun b r₁ h₁ => ?_
      · have := (hd hd0).2
        exact ⟨(hd hd0).1, by omega⟩
      · refine Ends.bind (.modify (Ends.bind (.modify (.pure ?_))))
        exact .of_filled hp ht h0 rfl h₁ rfl

/-- A function's body, after its parameters. -/
theorem body_settles (hle : ∀ i, rank i ≤ p.treeIds.length) (hfuel : p.treeIds.length < c.fuel)
    {g : NodeId} {f : FunctionShape Symbol NodeId} (hbody : f.body ≠ 0 → p.inTree f.body = true)
    (r : Resolver) :
    Ends (body c g f) r fun _ r' => ∃ b, Resolved p f.body true r b r' := by
  refine Ends.bind (.modify ?_)
  refine Ends.bind (((Moves.forM f.params (moves_parameter c g)).stmts _).mono fun _ r₁ h₁ => ?_)
  have hs : f.body ≠ 0 → p.inTree f.body = true ∧ p.treeIds.length < c.fuel + rank f.body :=
    fun h0 => ⟨hbody h0, Nat.lt_of_lt_of_le hfuel (Nat.le_add_right _ _)⟩
  refine Ends.bind ((statement_settles hp hc hrank hblock hle c.fuel hs true r₁).mono fun b r₂ h₂ =>
    ?_)
  exact Ends.bind (.modify (.modify ⟨b, h₂.keep h₁ rfl⟩))

end Statement

/-- The body of a function has a right record. -/
def Done (p : Program) (r : Resolver) (g : NodeId) : Prop :=
  ∀ f, p.function? g = some f → ∃ b, Says r.facts f.body true b ∧
    (f.body ≠ 0 → ∀ x, Nested p.toArena f.body x → Settled r.facts p.toArena x)

theorem body_mem_children {g : NodeId} {f : FunctionShape Symbol NodeId}
    (hf : p.function? g = some f) (h0 : f.body ≠ 0) : f.body ∈ p.children g := by
  obtain ⟨x, hx, hs⟩ := Option.bind_eq_some_iff.1 hf
  obtain ⟨n, hn, rfl⟩ := Option.map_eq_some_iff.1 hx
  refine Arena.mem_children.2 ⟨n, hn, ?_, h0⟩
  unfold Shape.function? at hs
  split at hs
  · next g hg =>
    cases hs
    simp [hg, Shape.slots]
  · cases hs

theorem Done.keep {r' : Resolver} {g : NodeId} (h : Done p r g)
    (hr : ∀ x, (g ≠ 0 → p.Below g x) → r'.facts.stmts[x]? = r.facts.stmts[x]?) : Done p r' g := by
  intro f hf
  obtain ⟨b, hb, hs⟩ := h f hf
  have hin : ∀ x, f.body ≠ 0 → p.Below f.body x → r'.facts.stmts[x]? = r.facts.stmts[x]? :=
    fun x h0 hx => hr x fun _ => .of_child (body_mem_children hf h0) hx
  exact ⟨b, hb.congr fun h0 => hin _ h0 .self, fun h0 x hx =>
    (hs h0 x hx).congr (hin x h0 hx.isBelow) fun y hy => hin y h0 (hx.isBelow.child hy)⟩

/-- The bodies of functions do not get into each other's way. -/
theorem Done.beside (hp : p.TreeShaped) {g h : NodeId} {f : FunctionShape Symbol NodeId}
    (hg : g ∈ p.globals) (hh : h ∈ p.globals) (hne : g ≠ h) (hf : p.function? h = some f)
    {b : Behaviors} {r' : Resolver} (hd : Done p r g) (hr : Resolved p f.body true r b r') :
    Done p r' g := by
  have hh0 : h ≠ 0 := by
    rintro rfl
    simp [Arena.function?, Arena.shape?] at hf
  by_cases h0 : g = 0
  · subst h0
    intro f hf
    simp [Arena.function?, Arena.shape?] at hf
  · refine hd.keep fun x hx => hr.frame x fun hb0 hb => ?_
    exact hp.disjoint p.inTree_root (Program.TreeShaped.mem_children_root hg h0)
      (Program.TreeShaped.mem_children_root hh hh0) hne (hx h0)
      (.of_child (body_mem_children hf hb0) hb)

/-- Once a module is resolved, the record is right about every function. -/
theorem module_settles (hp : p.TreeShaped) (hc : c.arena = p.toArena)
    (hfuel : p.treeIds.length < c.fuel)
    (hblock : ∀ {s b k}, p.inTree s = true → p.shape? s = some (.stmt (.loop b k)) → p.isBlock b)
    (r : Resolver) : Ends (module c p.globals) r fun _ r' => ∀ g ∈ p.globals, Done p r' g := by
  obtain ⟨rank, hle, hrank⟩ := hp.ranked_treeIds
  unfold module
  -- Nothing is known about the record before the bodies, so nothing has to be kept there.
  refine Ends.bind (Ends.forIn (fun _ _ => True) trivial (fun g rest r _ _ => ?_) fun r₁ _ => ?_)
  · split
    · exact Ends.bind (((moves_declaration c g).stmts r).mono fun _ _ _ => .pure ⟨rfl, trivial⟩)
    · exact .pure ⟨rfl, trivial⟩
  refine Ends.bind (Ends.forIn (fun _ _ => True) trivial (fun g rest r _ _ => ?_) fun r₂ _ => ?_)
  · split
    · exact Ends.bind (((moves_signature c g _).stmts r).mono fun _ _ _ => .pure ⟨rfl, trivial⟩)
    · exact .pure ⟨rfl, trivial⟩
  refine Ends.bind
    (Ends.forIn (fun rest r => ∃ done, p.globals = done ++ rest ∧ ∀ g ∈ done, Done p r g)
    ⟨[], rfl, by simp⟩ (fun g rest r hg hr => ?_) fun r₃ h₃ => ?_)
  · obtain ⟨done, hgs, hdone⟩ := hr
    have hnext : ∀ r', (∀ d ∈ done, Done p r' d) → Done p r' g →
        ∃ done, p.globals = done ++ rest ∧ ∀ d ∈ done, Done p r' d := fun r' h h' =>
      ⟨done ++ [g], by simp [hgs], fun d hd => (List.mem_append.1 hd).elim (h d) fun hd =>
        List.mem_singleton.1 hd ▸ h'⟩
    rw [hc]
    split
    · next f hf =>
      have hg0 : g ≠ 0 := by
        rintro rfl
        simp [Arena.function?, Arena.shape?] at hf
      have hbody : f.body ≠ 0 → p.inTree f.body = true := fun h0 =>
        hp.inTree_child (hp.inTree_global hg hg0) (body_mem_children hf h0)
      refine Ends.bind ((body_settles hp hc hrank hblock hle hfuel hbody r).mono fun _ r' hr' => ?_)
      obtain ⟨b, hr'⟩ := hr'
      refine .pure ⟨rfl, hnext r' (fun d hd => ?_) fun f' hf' => ?_⟩
      · refine (hdone d hd).beside hp (hgs ▸ List.mem_append_left _ hd) hg ?_ hf hr'
        rintro rfl
        have hnd := hp.nodup_globals
        rw [hgs, List.filter_append, List.filter_cons, if_pos (by simpa using hg0)] at hnd
        exact (List.nodup_append.1 hnd).2.2 _ (List.mem_filter.2 ⟨hd, by simpa using hg0⟩) _
          List.mem_cons_self rfl
      · cases hf.symm.trans hf'
        exact ⟨b, hr'.entry, hr'.settled⟩
    · next hf =>
      refine .pure ⟨rfl, hnext r hdone fun f hf' => absurd hf' (hf f)⟩
  · obtain ⟨done, hgs, hdone⟩ := h₃
    rw [List.append_nil] at hgs
    refine .modify fun g hg => (hdone g (hgs ▸ hg)).keep fun x _ => ?_
    rw [Facts.stmts_summarize]

end Resolve

namespace Flow

/-- The body of a loop with a continuing part is a block. Other bodies may be any statements. -/
def BlockBodies (p : Program) : Prop :=
  ∀ {s b k}, p.inTree s = true → p.shape? s = some (.stmt (.loop b k)) → p.isBlock b

/-- A break that ends a loop stands in the body of that loop, unless the loop has a condition to end
it anyway; and none in a header ends a loop around it. -/
structure BreaksInBodies (p : Program) : Prop where
  header : ∀ {s i c k b}, p.inTree s = true → p.shape? s = some (.stmt (.forLoop i c k b)) →
    ¬ Breaks p.toArena i ∧ (c = 0 → ¬ Breaks p.toArena k)
  closing : ∀ {s b k}, p.inTree s = true → p.shape? s = some (.stmt (.loop b k)) →
    ¬ Breaks p.toArena k

/-- The record of a valid program is right about the bodies of its functions. -/
theorem done_build {b : Builder} (hv : b.build.valid = true) (ht : b.build.TreeShaped)
    (hblock : BlockBodies b.build) :
    ∃ r : Resolver, b.build.facts = r.facts ∧ ∀ g ∈ b.build.globals, Resolve.Done b.build r g := by
  have hnone : b.diagnostics.hasErrors = false := by
    simp only [Program.valid, Builder.build, Diagnostics.hasErrors, List.any_append, Bool.not_or,
      Bool.and_eq_true, Bool.not_eq_true'] at hv
    exact hv.1
  let c : Scene :=
    ⟨b.build.toArena, (b.build.globals.foldl (Resolve.collect b.build.toArena) ([], [])).1,
    (b.build.treeIds.length + 2) * (b.build.treeIds.length + 2)⟩
  have hfuel : b.build.treeIds.length < c.fuel := by
    have : (b.build.treeIds.length + 2) * 1 ≤ c.fuel := Nat.mul_le_mul_left _ (by omega)
    omega
  let r₀ : Resolver :=
    { diagnostics := (b.build.globals.foldl (Resolve.collect b.build.toArena) ([], [])).2 }
  refine ⟨((Resolve.module c b.build.globals).run r₀).2, ?_,
    (Resolve.module_settles ht rfl hfuel hblock r₀).run⟩
  have hfacts : b.build.facts = (resolve b.build.toArena b.globals b.build.treeIds.length).1 := by
    simp only [Builder.build, hnone]
    rfl
  rw [hfacts, ← Builder.globals_build]
  rfl

/-- Every statement that a function can execute is marked reachable, and so is none of those that
are left out as unreachable. -/
theorem executed_reachable {b : Builder} (hv : b.build.valid = true) (ht : b.build.TreeShaped)
    (hblock : BlockBodies b.build) (hbreak : BreaksInBodies b.build) {g : NodeId}
    {f : FunctionShape Symbol NodeId} (hg : g ∈ b.build.globals) (hf : b.build.function? g = some f)
    {t : List NodeId} {e : Exit} (hrun : Run b.build.toArena (.one f.body) t e) :
    ∀ x ∈ t, b.build.facts.reachable x = true ∧ x ∉ Unreachable.dropped b.build := by
  obtain ⟨r, hr, hdone⟩ := done_build hv ht hblock
  obtain ⟨bs, hsay, hsettled⟩ := hdone g hg f hf
  have hg0 : g ≠ 0 := by
    rintro rfl
    simp [Arena.function?, Arena.shape?] at hf
  have hin : ∀ {s}, f.body ≠ 0 ∧ Nested b.build.toArena f.body s →
      b.build.inTree s = true := fun hs =>
    ht.inTree_below (ht.inTree_child (ht.inTree_global hg hg0) (Resolve.body_mem_children hf hs.1))
      hs.2.isBelow
  have hregion : Region r.facts b.build.toArena fun s =>
      f.body ≠ 0 ∧ Nested b.build.toArena f.body s :=
    ⟨fun hs => hsettled hs.1 _ hs.2, fun hs hx c hc h0 => ⟨hs.1, hs.2.step hx hc h0⟩,
      fun hs => hbreak.header (hin hs), fun hs => hbreak.closing (hin hs)⟩
  have hcover := hrun.covers hregion hsay fun n hn h0 => by
    rw [List.mem_singleton.1 hn] at h0 ⊢
    exact ⟨h0, .self⟩
  intro x hx
  have hmark : b.build.facts.reachable x = true := by
    rw [hr]
    exact hcover.marks x hx
  exact ⟨hmark, fun hd => by simp [Unreachable.dropped, hmark] at hd⟩

/-- The function `fn f() { loop { break; } return; }`. -/
def leftByBody : Builder where
  nodes := #[⟨.stmt .breakLoop, {}⟩, ⟨.stmt (.block [1]), {}⟩, ⟨.stmt (.loop 2 0), {}⟩,
    ⟨.stmt (.ret 0), {}⟩,
    ⟨.stmt (.block [3, 4]), {}⟩, ⟨.decl (.function ⟨1, [], 0, 5, [], []⟩), {}⟩]
  symbols := { names := #["f"] }
  globals := [6]

theorem executed_reachable_leftByBody :
    leftByBody.build.facts.reachable 4 = true ∧ 4 ∉ Unreachable.dropped leftByBody.build := by
  have hloop : ∀ {s b k}, leftByBody.build.shape? s = some (.stmt (.loop b k)) → b = 2 ∧ k = 0 := by
    intro s b k hs
    match s, hs with
    | 3, hs =>
      cases hs
      exact ⟨rfl, rfl⟩
    | n + 8, hs => cases hs
  have hfor : ∀ {s i c k b}, leftByBody.build.shape? s ≠ some (.stmt (.forLoop i c k b)) := by
    intro s i c k b hs
    match s, hs with
    | n + 8, hs => cases hs
  have hblock : BlockBodies leftByBody.build := fun _ hs => (hloop hs).1 ▸ rfl
  have hbreak : BreaksInBodies leftByBody.build := by
    refine ⟨fun _ hs => absurd hs hfor, fun _ hs hb => ?_⟩
    rw [(hloop hs).2] at hb
    cases hb <;> contradiction
  have hbody : Run leftByBody.build.toArena (.one 2) [2, 1] .brk :=
    .block rfl (.stop (.breakLoop rfl) (by decide))
  have hrun : Run leftByBody.build.toArena (.one 5) [5, 3, 2, 1, 4] .ret :=
    .block rfl (.step (.loop rfl (.leaves hbody)) (.stop (.ret rfl) (by decide)))
  exact executed_reachable (g := 6) (by decide +kernel)
    (.of_check (by decide) (by decide) rfl (by decide +kernel))
    hblock hbreak (by decide) rfl hrun 4 (by decide)

/-- The function `fn f() { loop { continuing { break; } } return; }`. -/
def leftByContinuing : Builder where
  nodes := #[⟨.stmt .breakLoop, {}⟩, ⟨.stmt (.block [1]), {}⟩, ⟨.stmt (.block []), {}⟩,
    ⟨.stmt (.loop 3 2), {}⟩,
    ⟨.stmt (.ret 0), {}⟩, ⟨.stmt (.block [4, 5]), {}⟩,
    ⟨.decl (.function ⟨1, [], 0, 6, [], []⟩), {}⟩]
  symbols := { names := #["f"] }
  globals := [7]

/-- A break in the continuing part ends the loop, but what comes after the loop counts as
unreachable. -/
theorem executed_unreachable :
    leftByContinuing.build.valid = true ∧ leftByContinuing.build.TreeShaped ∧
    (∃ f, leftByContinuing.build.function? 7 = some f ∧
      Run leftByContinuing.build.toArena (.one f.body) [6, 4, 3, 2, 1, 5] .ret) ∧
    leftByContinuing.build.facts.reachable 5 = false ∧
    5 ∈ Unreachable.dropped leftByContinuing.build := by
  refine ⟨by decide +kernel, .of_check (by decide) (by decide) rfl (by decide +kernel), ⟨_, rfl,
    ?_⟩, by decide +kernel, by decide +kernel⟩
  have hbody : Run leftByContinuing.build.toArena (.one 3) [3] .next := .block rfl .done
  have hlast : Run leftByContinuing.build.toArena (.one 2) [2, 1] .brk :=
    .block rfl (.stop (.breakLoop rfl) (by decide))
  have hloop : Run leftByContinuing.build.toArena (.one 4) [4, 3, 2, 1] .next :=
    .loop rfl (.leavesLate hbody trivial (.closed hlast (by decide)))
  exact .block rfl (.step hloop (.stop (.ret rfl) (by decide)))

end Flow
end ShaderLoom
