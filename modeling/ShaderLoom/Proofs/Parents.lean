import Mathlib.Logic.Function.Iterate
import ShaderLoom.Proofs.TreeShape

/-! The parents of a program over any arena, where nodes may be shared and may hold each other. The
walk that records them and the search along them are given here without the bounds of the
definitions that run, as relations; the bounds are never reached. -/
namespace ShaderLoom

namespace Arena

/-- The turns of the walk that records parents, from a stack and a record: the nodes whose children
it goes through, in order, and the record it ends with. -/
inductive Turns (a : Arena) (root : NodeId) :
    List NodeId → Array NodeId → List NodeId → Array NodeId → Prop
  | done {ps : Array NodeId} : Turns a root [] ps [] ps
  | turn {id : NodeId} {stack order : List NodeId} {ps ps' : Array NodeId} : (a.node? id).isSome →
      Turns a root ((adopt root id (a.children id) ps).1 ++ stack)
      (adopt root id (a.children id) ps).2
        order ps' →
      Turns a root (id :: stack) ps (id :: order) ps'

variable {a : Arena} {root : NodeId}

theorem Turns.unique {stack order order' : List NodeId} {ps ps₁ ps₂ : Array NodeId}
    (h : a.Turns root stack ps order ps₁) (h' : a.Turns root stack ps order' ps₂) :
    order = order' ∧ ps₁ = ps₂ := by
  induction h generalizing order' with
  | done =>
    cases h'
    exact ⟨rfl, rfl⟩
  | turn _ _ ih =>
    cases h' with
    | turn _ h' =>
      obtain ⟨rfl, rfl⟩ := ih h'
      exact ⟨rfl, rfl⟩

/-- The children that are adopted had no parent before, and each is adopted once. -/
theorem adopt_fresh (root id : NodeId) (hid : id ≠ 0) (cs : List NodeId) (ps : Array NodeId) :
    (adopt root id cs ps).1.Nodup ∧
      ∀ c ∈ (adopt root id cs ps).1, parentIn ps c = 0 ∧ c ≠ root ∧ c < ps.size := by
  -- What the fold has taken up so far has a parent by now, and so is not taken up again.
  let Taken (found : List NodeId × Array NodeId) : Prop :=
    found.2.size = ps.size ∧ found.1.Nodup ∧ (∀ c ∈ found.1, parentIn found.2 c ≠ 0) ∧
      (∀ c, parentIn found.2 c = 0 → parentIn ps c = 0) ∧
      ∀ c ∈ found.1, parentIn ps c = 0 ∧ c ≠ root ∧ c < ps.size
  have hfold : ∀ (cs : List NodeId) (found : List NodeId × Array NodeId), Taken found →
      Taken (cs.foldl (adoptOne root id) found) := by
    intro cs
    induction cs with
    | nil => exact fun _ h => h
    | cons c cs ih =>
      rintro ⟨taken, ps'⟩ ⟨hsize, hnodup, hhas, hback, hfresh⟩
      refine ih _ ?_
      simp only [adoptOne]
      split
      · next hc =>
        obtain ⟨hlt, hnone, hroot⟩ := hc
        have hzero : parentIn ps' c = 0 := by simp [parentIn, hnone]
        refine ⟨by simpa using hsize, List.nodup_cons.2 ⟨fun hm => hhas c hm hzero,
          hnodup⟩, ?_, ?_, ?_⟩
        · intro d hd
          rw [parentIn_set hlt]
          split
          · exact hid
          · next hne => exact hhas d ((List.mem_cons.1 hd).resolve_left hne)
        · intro d hd
          rw [parentIn_set hlt] at hd
          split at hd
          · exact absurd hd hid
          · exact hback d hd
        · intro d hd
          rcases List.mem_cons.1 hd with rfl | hd
          · exact ⟨hback d hzero, hroot, hsize ▸ hlt⟩
          · exact hfresh d hd
      · exact ⟨hsize, hnodup, hhas, hback, hfresh⟩
  have := hfold cs ([], ps) ⟨rfl, List.nodup_nil, by simp, fun _ h => h, by simp⟩
  exact ⟨this.2.1, this.2.2.2.2⟩

/-- The bounded walk takes all its turns if the bound exceeds what is on the stack and what has no
parent yet. -/
theorem exists_turns (hroot : root ≠ 0) {n : Nat} {stack : List NodeId} {ps : Array NodeId}
    (hsize : ps.size = a.size + 1) (hstack : ∀ x ∈ stack, Entered root ps x ∧ (a.node? x).isSome)
    (hn : stack.length + orphans ps ≤ n) (h0 : parentIn ps 0 = 0) :
    ∃ order, a.Turns root stack ps order (a.spread root n stack ps) := by
  induction n generalizing stack ps with
  | zero =>
    have : stack = [] := List.eq_nil_of_length_eq_zero (by omega)
    subst this
    exact ⟨[], .done⟩
  | succ n ih =>
    cases stack with
    | nil => exact ⟨[], .done⟩
    | cons id stack =>
      obtain ⟨hid, hnode⟩ := hstack id (by simp)
      have hne := ne_zero_of_entered hroot h0 hid
      have ha := adopts root id hne (a.children id) ps
      have hfresh := (adopt_fresh root id hne (a.children id) ps).2
      have hturn : ∃ order, a.Turns root ((adopt root id (a.children id) ps).1 ++ stack)
          (adopt root id (a.children id) ps).2 order
          (a.spread root n ((adopt root id (a.children id) ps).1 ++ stack)
            (adopt root id (a.children id) ps).2) := by
        refine ih (by rw [ha.size, hsize]) (fun x hx => ?_) ?_ (ha.zero h0)
        · refine ⟨ha.stack (fun y hy => (hstack y hy).1) x hx, ?_⟩
          rcases List.mem_append.1 hx with hx | hx
          · have hlt := (hfresh x hx).2.2
            have hx0 := ne_zero_of_entered hroot (ha.zero h0) (.inr (ha.takes x hx))
            exact node?_isSome_iff.2
              ⟨Nat.pos_of_ne_zero hx0, Nat.le_of_lt_succ (Nat.lt_of_lt_of_eq hlt hsize)⟩
          · exact (hstack x (by simp [hx])).2
        · have := ha.orphans
          simp only [List.length_append, List.length_cons] at hn ⊢
          omega
      obtain ⟨order, horder⟩ := hturn
      exact ⟨id :: order, .turn hnode horder⟩

/-- No node has its turn twice, and none has one that was entered before and has left the stack. -/
theorem Turns.order_nodup (hroot : root ≠ 0) {stack order : List NodeId} {ps ps' : Array NodeId}
    (h : a.Turns root stack ps order ps') (hstack : ∀ x ∈ stack, Entered root ps x)
    (h0 : parentIn ps 0 = 0) (hnodup : stack.Nodup) :
    order.Nodup ∧ ∀ x ∈ order, x ∈ stack ∨ ¬ Entered root ps x := by
  induction h with
  | done => exact ⟨List.nodup_nil, by simp⟩
  | @turn id stack order ps ps' _ _ ih =>
    have hid := hstack id (by simp)
    have hne := ne_zero_of_entered hroot h0 hid
    have ha := adopts root id hne (a.children id) ps
    obtain ⟨htaken, hfresh⟩ := adopt_fresh root id hne (a.children id) ps
    have hnew : ∀ x ∈ (adopt root id (a.children id) ps).1, ¬ Entered root ps x := fun x hx he =>
      he.elim (hfresh x hx).2.1 fun hp => hp (hfresh x hx).1
    obtain ⟨hout, hrest⟩ := List.nodup_cons.1 hnodup
    obtain ⟨hord, hmem⟩ := ih (ha.stack hstack) (ha.zero h0) (List.nodup_append.2
      ⟨htaken, hrest, fun x hx y hy hxy => hnew x hx (hstack x (by simp [hxy, hy]))⟩)
    refine ⟨List.nodup_cons.2 ⟨fun hm => ?_, hord⟩, fun x hx => ?_⟩
    · rcases hmem id hm with hm | hm
      · rcases List.mem_append.1 hm with hm | hm
        · exact hnew id hm hid
        · exact hout hm
      · exact hm (ha.entered hid)
    · rcases List.mem_cons.1 hx with rfl | hx
      · exact .inl (by simp)
      · rcases hmem x hx with hm | hm
        · rcases List.mem_append.1 hm with hm | hm
          · exact .inr (hnew x hm)
          · exact .inl (by simp [hm])
        · exact .inr fun he => hm (ha.entered he)

/-- The turns are those of the stack and of every node that is entered on the way. -/
theorem Turns.mem_order (hroot : root ≠ 0) {stack order : List NodeId} {ps ps' : Array NodeId}
    (h : a.Turns root stack ps order ps') (hstack : ∀ x ∈ stack, Entered root ps x)
    (h0 : parentIn ps 0 = 0) :
    (∀ x ∈ order, (a.node? x).isSome ∧ Entered root ps' x) ∧
      (∀ x, Entered root ps x → Entered root ps' x) ∧
      ∀ x, Entered root ps' x → x ∈ order ∨ (Entered root ps x ∧ x ∉ stack) := by
  induction h with
  | done => exact ⟨by simp, fun _ h => h, fun x hx => .inr ⟨hx, by simp⟩⟩
  | @turn id stack order ps ps' hnode _ ih =>
    have hid := hstack id (by simp)
    have ha := adopts root id (ne_zero_of_entered hroot h0 hid) (a.children id) ps
    obtain ⟨hord, hkeep, hall⟩ := ih (ha.stack hstack) (ha.zero h0)
    refine ⟨fun x hx => ?_, fun x hx => hkeep x (ha.entered hx), fun x hx => ?_⟩
    · rcases List.mem_cons.1 hx with rfl | hx
      · exact ⟨hnode, hkeep x (ha.entered hid)⟩
      · exact hord x hx
    · rcases hall x hx with hm | ⟨he, hout⟩
      · exact .inl (by simp [hm])
      · rw [List.mem_append, not_or] at hout
        have hold : Entered root ps x := he.elim .inl fun hp =>
          (ha.sets x hp).elim .inr fun hs => absurd hs.2.2 hout.1
        by_cases hx : x = id
        · exact .inl (by simp [hx])
        · exact .inr ⟨hold, by simp [hx, hout.2]⟩

/-- The walk from the root takes its turns at the nodes it gives a parent and at the root, once
each. -/
theorem turns_parentsOf (a : Arena) (hroot : (a.node? root).isSome) :
    ∃ order : List NodeId, order.Nodup ∧ (∀ x, x ∈ order ↔ Entered root (a.parentsOf root) x) ∧
      (∀ x ∈ order, (a.node? x).isSome) ∧
      a.Turns root [root] (Array.replicate (a.size + 1) 0) order (a.parentsOf root) := by
  have h0 : root ≠ 0 := Nat.ne_of_gt (node?_isSome_iff.1 hroot).1
  have hnone := parentIn_replicate (a.size + 1)
  have hstack : ∀ x ∈ [root], Entered root (Array.replicate (a.size + 1) 0) x :=
    fun x hx => .inl (by simpa using hx)
  have hrun : ∃ order, a.Turns root [root] (Array.replicate (a.size + 1) 0) order
      (a.spread root (a.size + 2) [root] (Array.replicate (a.size + 1) 0)) :=
    exists_turns h0 (by simp) (fun x hx => ⟨hstack x hx, by rwa [show x = root by simpa using hx]⟩)
      (by simp only [orphans, Array.count_replicate_self, List.length_singleton]; omega) (hnone 0)
  obtain ⟨order, horder⟩ := hrun
  obtain ⟨hmem, -, hall⟩ := horder.mem_order h0 hstack (hnone 0)
  refine ⟨order, (horder.order_nodup h0 hstack (hnone 0) (by simp)).1,
    fun x => ⟨fun hx => (hmem x hx).2,
    fun hx => (hall x hx).resolve_right ?_⟩, fun x hx => (hmem x hx).1, horder⟩
  rintro ⟨he | he, hout⟩
  · exact hout (by simp [he])
  · exact he (hnone x)

end Arena

namespace Program

/-- The search along the parents of a node: it ends at the first node that passes the test, and is
absent where the parents end. -/
inductive Ascends (p : Program) (test : Shape Symbol NodeId → Bool) : NodeId → NodeId → Prop
  | absent : Ascends p test 0 0
  | found {i : NodeId} : i ≠ 0 → (p.shape? i).any test → Ascends p test i i
  | up {i j : NodeId} : i ≠ 0 → ¬ (p.shape? i).any test → Ascends p test (p.parent i) j →
      Ascends p test i j

/-- A program whose parents were recorded by the walk from its root, which is in its arena. -/
structure Walked (p : Program) : Prop where
  root : (p.node? p.root).isSome
  parents : p.parents = p.parentsOf p.root

variable {p : Program}

theorem Ascends.unique {test : Shape Symbol NodeId → Bool} {i j j' : NodeId}
    (h : p.Ascends test i j) (h' : p.Ascends test i j') : j = j' := by
  induction h generalizing j' with
  | absent =>
    cases h' with
    | absent => rfl
    | found h0 => exact absurd rfl h0
    | up h0 => exact absurd rfl h0
  | found h0 ht =>
    cases h' with
    | absent => rfl
    | found => rfl
    | up _ hf => exact absurd ht hf
  | up h0 hf _ ih =>
    cases h' with
    | absent => exact absurd rfl h0
    | found _ ht => exact absurd ht hf
    | up _ _ h' => exact ih h'

namespace Walked

variable (h : p.Walked)
include h

theorem root_ne_zero : p.root ≠ 0 := Nat.ne_of_gt (Arena.node?_isSome_iff.1 h.root).1

theorem parent_holds {i : NodeId} (hi : p.parent i ≠ 0) :
    i ∈ p.children (p.parent i) ∧ p.inTree (p.parent i) = true := by
  obtain ⟨_, hhonest, _⟩ := p.parentsOf_correct h.root_ne_zero
  rw [← h.parents] at hhonest
  rw [inTree_iff]
  exact hhonest i hi

/-- Nodes of the tree are in the arena. -/
theorem node_of_inTree {i : NodeId} (hi : p.inTree i = true) : (p.node? i).isSome := by
  obtain ⟨order, -, hmem, hnode, -⟩ := p.turns_parentsOf h.root
  rw [← h.parents] at hmem
  exact hnode i ((hmem i).2 (inTree_iff.1 hi))

/-- The parents of a node end, within as many steps as the arena has nodes: the nodes of lower rank
are counted. -/
theorem ranked : ∃ rank : NodeId → Nat, (∀ i, rank i ≤ p.size) ∧
    ∀ i, p.parent i ≠ 0 → rank (p.parent i) < rank i := by
  obtain ⟨rank, -, hlt⟩ := p.parentsOf_ranked h.root_ne_zero
  rw [← h.parents] at hlt
  refine ⟨fun i => p.ids.countP (rank · < rank i), fun i => ?_, fun i hi => ?_⟩
  · simpa [Arena.ids] using List.countP_le_length (p := (rank · < rank i)) (l := p.ids)
  · obtain ⟨h0, hle⟩ := Arena.node?_isSome_iff.1 (h.node_of_inTree (h.parent_holds hi).2)
    have hmem : p.parent i ∈ p.ids := List.mem_map.2
      ⟨p.parent i - 1, List.mem_range.2 (Nat.lt_of_lt_of_le (Nat.sub_lt h0 Nat.one_pos) hle),
        Nat.sub_add_cancel h0⟩
    exact countP_lt hmem (hlt i hi)

/-- Nothing holds the root for the walk: parents would lead on for ever. -/
theorem parent_root : p.parent p.root = 0 := by
  refine Decidable.byContradiction fun h0 => ?_
  obtain ⟨rank, -, hlt⟩ := h.ranked
  -- A node of the tree of the least rank has a parent of a lower one.
  have hnone : ∀ n i, rank i < n → p.inTree i ≠ true := by
    intro n
    induction n with
    | zero => exact fun i hi => absurd hi (Nat.not_lt_zero _)
    | succ n ih =>
      intro i hi hin
      have hp : p.parent i ≠ 0 := (inTree_iff.1 hin).elim (fun hr => hr ▸ h0) fun hp => hp
      exact ih _ (Nat.lt_of_lt_of_le (hlt i hp) (Nat.le_of_lt_succ hi)) (h.parent_holds hp).2
  exact hnone _ p.root (Nat.lt_succ_self _) p.inTree_root

/-- The tree is what the root holds, at any depth. -/
theorem inTree_iff_below {i : NodeId} :
    p.inTree i = true ↔ (p.node? i).isSome ∧ p.Below p.root i := by
  obtain ⟨rank, -, hlt⟩ := h.ranked
  obtain ⟨hsize, -, hclosed⟩ := p.parentsOf_correct h.root_ne_zero
  rw [← h.parents] at hsize hclosed
  constructor
  · intro hi
    refine ⟨h.node_of_inTree hi, ?_⟩
    -- The induction is on the rank, along the parents.
    generalize hk : rank i = k
    induction k using Nat.strongRecOn generalizing i with
    | ind k ih =>
      by_cases hr : i = p.root
      · exact hr ▸ .self
      · have hp : p.parent i ≠ 0 := (inTree_iff.1 hi).resolve_left hr
        obtain ⟨hm, hin⟩ := h.parent_holds hp
        exact (ih _ (hk ▸ hlt i hp) hin rfl).child hm
  · rintro ⟨hnode, hb⟩
    induction hb with
    | self => exact p.inTree_root
    | @child x c _ hc ih =>
      obtain ⟨n, hn, -⟩ := Arena.mem_children.1 hc
      have hx := inTree_iff.1 (ih (by simp [hn]))
      have hle := (Arena.node?_isSome_iff.1 hnode).2
      exact inTree_iff.2
        ((hclosed x hx).resolve_left (by simp) c hc (hsize ▸ Nat.lt_succ_of_le hle))

theorem parent_ne_zero_iff {i : NodeId} (hi : i ≠ p.root) :
    p.parent i ≠ 0 ↔ (p.node? i).isSome ∧ p.Below p.root i := by
  rw [← h.inTree_iff_below, inTree_iff, Arena.Entered, or_iff_right hi]
  rfl

/-- Parents lead from a node of the tree to the root. -/
theorem exists_iterate {i : NodeId} (hi : p.inTree i = true) :
    ∃ n, n ≤ p.size ∧ p.parent^[n] i = p.root := by
  obtain ⟨rank, hle, hlt⟩ := h.ranked
  suffices ∃ n, n ≤ rank i ∧ p.parent^[n] i = p.root by
    obtain ⟨n, hn, hr⟩ := this
    exact ⟨n, Nat.le_trans hn (hle i), hr⟩
  generalize hk : rank i = k
  induction k using Nat.strongRecOn generalizing i with
  | ind k ih =>
    by_cases hr : i = p.root
    · exact ⟨0, Nat.zero_le _, hr⟩
    · have hp : p.parent i ≠ 0 := (inTree_iff.1 hi).resolve_left hr
      have hlow : rank (p.parent i) < k := hk ▸ hlt i hp
      obtain ⟨n, hn, hiter⟩ := ih _ hlow (h.parent_holds hp).2 rfl
      exact ⟨n + 1, by omega, by rwa [Function.iterate_succ_apply]⟩

omit h in
/-- The bounded search ends by itself if the bound exceeds the rank of the node. -/
theorem ascends_ascend (test : Shape Symbol NodeId → Bool) {rank : NodeId → Nat}
    (hlt : ∀ i, p.parent i ≠ 0 → rank (p.parent i) < rank i) {n : Nat} {i : NodeId}
    (hn : rank i < n) : p.Ascends test i (p.ascend test n i) := by
  induction n generalizing i with
  | zero => exact absurd hn (Nat.not_lt_zero _)
  | succ n ih =>
    rw [ascend]
    split
    · next h0 =>
      subst h0
      exact .absent
    · next h0 =>
      split
      · next ht => exact .found h0 ht
      · next hf =>
        refine .up h0 hf ?_
        by_cases hp : p.parent i = 0
        · have hnone : p.ascend test n 0 = 0 := by cases n <;> simp [ascend]
          rw [hp, hnone]
          exact .absent
        · exact ih (by have := hlt i hp; omega)

theorem ascends_statementOf (i : NodeId) :
    p.Ascends Shape.isStatement (p.parent i) (p.statementOf i) := by
  obtain ⟨rank, hle, hlt⟩ := h.ranked
  exact ascends_ascend _ hlt (by have := hle (p.parent i); omega)

theorem ascends_functionOf (i : NodeId) :
    p.Ascends (fun s => s.function?.isSome) i (p.functionOf i) := by
  obtain ⟨rank, hle, hlt⟩ := h.ranked
  exact ascends_ascend _ hlt (by have := hle i; omega)

end Walked

/-- The parents of a program are a spanning tree of what its root holds, at any depth: the walk that
records them has one turn at each node, and from every node they lead to the root, so that the
searches along them end, with one answer. -/
structure Spans (p : Program) : Prop where
  walk : ∃ order : List NodeId, order.Nodup ∧
    (∀ i, i ∈ order ↔ (p.node? i).isSome ∧ p.Below p.root i) ∧
    ∀ order' ps, p.Turns p.root [p.root] (Array.replicate (p.size + 1) 0) order' ps ↔
      order' = order ∧ ps = p.parents
  root : p.parent p.root = 0
  parent : ∀ i, i ≠ p.root → (p.parent i ≠ 0 ↔ (p.node? i).isSome ∧ p.Below p.root i)
  holds : ∀ i, p.parent i ≠ 0 → i ∈ p.children (p.parent i)
  reaches : ∀ i, p.parent i ≠ 0 → ∃ n, p.parent^[n] i = p.root
  inTree : ∀ i, p.inTree i = true ↔ (p.node? i).isSome ∧ p.Below p.root i
  statementOf : ∀ i j, p.Ascends Shape.isStatement (p.parent i) j ↔ j = p.statementOf i
  functionOf : ∀ i j, p.Ascends (fun s => s.function?.isSome) i j ↔ j = p.functionOf i

theorem Walked.spans (h : p.Walked) : p.Spans where
  walk := by
    obtain ⟨order, hnodup, hmem, -, hturns⟩ := p.turns_parentsOf h.root
    rw [← h.parents] at hmem hturns
    refine ⟨order, hnodup, fun i => ?_, fun order' ps => ⟨fun h' => h'.unique hturns, ?_⟩⟩
    · rw [hmem, ← inTree_iff, h.inTree_iff_below]
    · rintro ⟨rfl, rfl⟩
      exact hturns
  root := h.parent_root
  parent _ := h.parent_ne_zero_iff
  holds _ hi := (h.parent_holds hi).1
  reaches i hi := by
    obtain ⟨n, -, hn⟩ := h.exists_iterate (inTree_iff.2 (.inr hi))
    exact ⟨n, hn⟩
  inTree _ := h.inTree_iff_below
  statementOf i j := by
    refine ⟨fun h' => h'.unique (h.ascends_statementOf i), ?_⟩
    rintro rfl
    exact h.ascends_statementOf i
  functionOf i j := by
    refine ⟨fun h' => h'.unique (h.ascends_functionOf i), ?_⟩
    rintro rfl
    exact h.ascends_functionOf i

namespace Walked

variable (h : p.Walked)
include h

/-- A statement is what is around its children; around the children of another node is what is
around it. -/
theorem statementOf_child {c : NodeId} (h0 : p.parent c ≠ 0) :
    p.statementOf c =
      if (p.shape? (p.parent c)).any Shape.isStatement then
      p.parent c else p.statementOf (p.parent c) := by
  refine (h.ascends_statementOf c).unique ?_
  split
  · next ht => exact .found h0 ht
  · next hf => exact .up h0 hf (h.ascends_statementOf _)

/-- A function is its own, and another node is in the function that its parent is or is in. -/
theorem functionOf_eq {i : NodeId} (h0 : i ≠ 0) :
    p.functionOf i = if (p.function? i).isSome then i else p.functionOf (p.parent i) := by
  have htest : (p.shape? i).any (fun s => s.function?.isSome) = (p.function? i).isSome := by
    unfold Arena.function?
    cases p.shape? i <;> rfl
  refine (h.ascends_functionOf i).unique ?_
  split
  · next ht => exact .found h0 (htest ▸ ht)
  · next hf => exact .up h0 (htest ▸ hf) (h.ascends_functionOf _)

omit h in
theorem functionOf_zero (p : Program) : p.functionOf 0 = 0 := by simp [functionOf, ascend]

/-- No statement is around a child of the root, if the root is none. -/
theorem statementOf_global {g : NodeId} (hg : p.parent g = p.root)
    (hr : ¬ (p.shape? p.root).any Shape.isStatement) : p.statementOf g = 0 := by
  have hroot : p.statementOf p.root = 0 := by
    rw [statementOf, h.parent_root]
    simp [ascend]
  rw [h.statementOf_child (hg ▸ h.root_ne_zero), hg, if_neg hr, hroot]

theorem functionOf_root (hr : (p.function? p.root) = none) : p.functionOf p.root = 0 := by
  rw [h.functionOf_eq h.root_ne_zero, hr, h.parent_root, functionOf_zero]
  simp

/-- A function holds what it is said to be the function of. -/
theorem below_functionOf {i : NodeId} (h0 : p.functionOf i ≠ 0) : p.Below (p.functionOf i) i := by
  have ha := h.ascends_functionOf i
  generalize p.functionOf i = f at ha h0
  induction ha with
  | absent => exact absurd rfl h0
  | found => exact .self
  | @up i f hi _ ha ih =>
    have hp : p.parent i ≠ 0 := by
      intro hz
      rw [hz] at ha
      cases ha with
      | absent => exact h0 rfl
      | found hz => exact hz rfl
      | up hz => exact hz rfl
    exact (ih h0).child (h.parent_holds hp).1

end Walked

end Program

namespace Builder

theorem walked_build (b : Builder) : b.build.Walked where
  root := by
    rw [root_build, node?_build, if_pos rfl]
    rfl
  parents := rfl

/-- Whatever the nodes of a builder hold, each other or what is not there, the parents of its
program are a spanning tree of what the module reaches. -/
theorem spans_build (b : Builder) : b.build.Spans := b.walked_build.spans

/-- Nodes that hold each other or one node twice, and a declaration that is not in the arena. -/
example :
    let block (ss : List NodeId) : Node := ⟨.stmt (.block ss), {}⟩
    let a : Arena :=
      ⟨#[block [2], block [1], block [4, 4], block [3], ⟨.module [1, 2, 3, 9], {}⟩], .empty⟩
    a.parentsOf 5 = #[0, 5, 5, 5, 3, 0] := by decide

end Builder
end ShaderLoom
