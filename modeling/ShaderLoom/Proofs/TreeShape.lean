import ShaderLoom.Proofs.Tree

/-! Programs whose nodes form a tree: a node stands at one place only. What lies below two siblings
is then disjoint, and no branch is longer than the arena is large. -/
namespace ShaderLoom

/-- One more element of a list lies below a greater bound, if one of them is the lower bound. -/
theorem countP_lt {α : Type} {l : List α} {rank : α → Nat} {x : α} {n : Nat} (hx : x ∈ l)
    (h : rank x < n) : l.countP (rank · < rank x) < l.countP (rank · < n) := by
  obtain ⟨before, after, rfl⟩ := List.append_of_mem hx
  have hmono : ∀ l : List α, l.countP (rank · < rank x) ≤ l.countP (rank · < n) := fun l =>
    List.countP_mono_left fun y _ hy => by simp only [decide_eq_true_eq] at hy ⊢; omega
  have hbefore := hmono before
  have hafter := hmono after
  simp only [List.countP_append, List.countP_cons, Nat.lt_irrefl, decide_false, h, decide_true,
    Bool.false_eq_true, if_false, if_true]
  omega

namespace Program

/-- Whatever a node of the tree holds is in the arena, has that node as its parent, and is held
once. -/
structure TreeShaped (p : Program) : Prop where
  root : p.root ≠ 0
  parents : p.parents = p.parentsOf p.root
  parent : ∀ {i c}, p.inTree i = true → c ∈ p.children i → p.parent c = i
  once : ∀ {i}, p.inTree i = true → (p.children i).Nodup

/-- The parents were recorded by the walk, and the check of all nodes passes. -/
theorem TreeShaped.of_check {p : Program} (hroot : p.root ≠ 0) (hle : p.root ≤ p.size)
    (hparents : p.parents = p.parentsOf p.root)
    (hcheck : (p.ids.all fun i => !p.inTree i ||
      ((p.children i).all (p.parent · == i) && decide (p.children i).Nodup)) = true) :
    p.TreeShaped := by
  obtain ⟨hsize, hhonest, _⟩ := p.parentsOf_correct hroot
  rw [← hparents] at hsize hhonest
  have hid : ∀ i, p.inTree i = true → i ∈ p.ids := by
    intro i hi
    have hpos : i ≠ 0 ∧ i ≤ p.size := by
      rcases inTree_iff.1 hi with rfl | hp
      · exact ⟨hroot, hle⟩
      · refine ⟨Arena.ne_zero_of_mem_children (hhonest i hp).1, ?_⟩
        by_cases hlt : i < p.parents.size
        · exact Nat.le_of_lt_succ (Nat.lt_of_lt_of_eq hlt hsize)
        · simp [Arena.parentIn, Array.getElem?_eq_none (Nat.le_of_not_lt hlt)] at hp
    obtain ⟨k, rfl⟩ := Nat.exists_eq_succ_of_ne_zero hpos.1
    exact List.mem_map.2 ⟨k, List.mem_range.2 hpos.2, rfl⟩
  have hall : ∀ i, p.inTree i = true → (∀ c ∈ p.children i, p.parent c = i) ∧
      (p.children i).Nodup := by
    intro i hi
    have := List.all_eq_true.1 hcheck i (hid i hi)
    simpa [hi] using this
  exact ⟨hroot, hparents, fun hi hc => (hall _ hi).1 _ hc, fun hi => (hall _ hi).2⟩

/-- A node and what it holds, at any depth. -/
inductive Below (p : Program) (i : NodeId) : NodeId → Prop
  | self : Below p i i
  | child {x c : NodeId} : Below p i x → c ∈ p.children x → Below p i c

variable {p : Program}

theorem Below.trans {i j x : NodeId} (h : p.Below i j) (h' : p.Below j x) : p.Below i x := by
  induction h' with
  | self => exact h
  | child _ hc ih => exact ih.child hc

theorem Below.of_child {i c x : NodeId} (hc : c ∈ p.children i) (h : p.Below c x) : p.Below i x :=
  (Below.self.child hc).trans h

namespace TreeShaped

variable (h : p.TreeShaped)
include h

theorem inTree_child {i c : NodeId} (hi : p.inTree i = true) (hc : c ∈ p.children i) :
    p.inTree c = true := by
  have hne : i ≠ 0 := by
    rintro rfl
    simp [Arena.children] at hc
  simp [inTree, h.parent hi hc, hne]

theorem inTree_below {i x : NodeId} (hi : p.inTree i = true) (hx : p.Below i x) :
    p.inTree x = true := by
  induction hx with
  | self => exact hi
  | child _ hc ih => exact h.inTree_child ih hc

omit h in
theorem mem_children_root {g : NodeId} (hg : g ∈ p.globals) (h0 : g ≠ 0) :
    g ∈ p.children p.root := by
  unfold globals at hg
  split at hg
  · next gs hs =>
    obtain ⟨n, hn, hs⟩ := Option.map_eq_some_iff.1 hs
    exact Arena.mem_children.2 ⟨n, hn, by simpa [hs, Shape.slots] using hg, h0⟩
  · simp at hg

theorem inTree_global {g : NodeId} (hg : g ∈ p.globals) (h0 : g ≠ 0) : p.inTree g = true :=
  h.inTree_child p.inTree_root (mem_children_root hg h0)

theorem nodup_globals : (p.globals.filter (· != 0)).Nodup := by
  have hnd := h.once p.inTree_root
  unfold globals
  split
  · next gs hs =>
    obtain ⟨n, hn, hs⟩ := Option.map_eq_some_iff.1 hs
    simpa [Arena.children, hn, Node.children, hs, Shape.slots] using hnd
  · simp

/-- No declaration stands at two places of the module. -/
theorem globals_nodup (h0 : ∀ g ∈ p.globals, g ≠ 0) : p.globals.Nodup := by
  have hnodup := h.nodup_globals
  rwa [List.filter_eq_self.2 fun g hg => by simpa using h0 g hg] at hnodup

/-- The parent of a node is in the tree and holds it. -/
theorem parent_holds {i : NodeId} (hi : p.parent i ≠ 0) :
    i ∈ p.children (p.parent i) ∧ p.inTree (p.parent i) = true := by
  obtain ⟨_, hhonest, _⟩ := p.parentsOf_correct h.root
  rw [← h.parents] at hhonest
  rw [inTree_iff]
  exact hhonest i hi

/-- Every node of the tree but the root is held by a node of the tree. -/
theorem exists_parent {i : NodeId} (hi : p.inTree i = true) (hr : i ≠ p.root) :
    ∃ j, p.inTree j = true ∧ i ∈ p.children j := by
  obtain ⟨hmem, hin⟩ := h.parent_holds ((inTree_iff.1 hi).resolve_left hr)
  exact ⟨_, hin, hmem⟩

/-- How deep a node lies, as far as it matters: children lie deeper, and nothing deeper than the
size of the arena allows. -/
theorem ranked : ∃ rank : NodeId → Nat, (∀ i, p.inTree i = true → rank i ≤ p.size + 2) ∧
    ∀ i c, p.inTree i = true → c ∈ p.children i → rank i < rank c := by
  obtain ⟨rank, hle, hlt⟩ := p.parentsOf_ranked h.root
  rw [← h.parents] at hle hlt
  refine ⟨rank, fun i hi => hle i (inTree_iff.1 hi), fun i c hi hc => ?_⟩
  have hp : Arena.parentIn p.parents c = i := h.parent hi hc
  have hne : i ≠ 0 := by
    rintro rfl
    simp [Arena.children] at hc
  have := hlt c (by rwa [hp])
  rwa [hp] at this

/-- The same, and nothing lies deeper than the tree has nodes: the nodes of lower rank are
counted. -/
theorem ranked_treeIds : ∃ rank : NodeId → Nat, (∀ i, rank i ≤ p.treeIds.length) ∧
    ∀ i c, p.inTree i = true → c ∈ p.children i → rank i < rank c := by
  obtain ⟨rank, _, hlt⟩ := h.ranked
  refine ⟨fun i => p.treeIds.countP (rank · < rank i), fun i => List.countP_le_length,
    fun i c hi hc => ?_⟩
  have hlow := hlt i c hi hc
  have hmem : i ∈ p.treeIds := by
    obtain ⟨n, hn, _⟩ := Arena.mem_children.1 hc
    have hrange := Arena.range_of_node? hn
    refine List.mem_filter.2
      ⟨List.mem_map.2 ⟨i - 1, List.mem_range.2 ?_, Nat.sub_add_cancel hrange.1⟩, hi⟩
    exact Nat.lt_of_lt_of_le (Nat.sub_lt hrange.1 Nat.one_pos) hrange.2
  exact countP_lt hmem hlow

/-- A node of the tree other than the root has a number of the arena. -/
theorem range {i : NodeId} (hi : p.inTree i = true) (hr : i ≠ p.root) : 0 < i ∧ i ≤ p.size := by
  obtain ⟨hsize, hhonest, _⟩ := p.parentsOf_correct h.root
  rw [← h.parents] at hsize hhonest
  have hp := (inTree_iff.1 hi).resolve_left hr
  refine ⟨Nat.pos_of_ne_zero (Arena.ne_zero_of_mem_children (hhonest i hp).1), ?_⟩
  by_cases hlt : i < p.parents.size
  · exact Nat.le_of_lt_succ (Nat.lt_of_lt_of_eq hlt hsize)
  · simp [Arena.parentIn, Array.getElem?_eq_none (Nat.le_of_not_lt hlt)] at hp

/-- Nothing holds the root: parents lead from every node to the root, and would lead on for ever. -/
theorem parent_root : p.parent p.root = 0 := by
  obtain ⟨_, hhonest, _⟩ := p.parentsOf_correct h.root
  rw [← h.parents] at hhonest
  obtain ⟨rank, _, hr⟩ := h.ranked
  refine Decidable.byContradiction fun h0 => ?_
  have hnone : ∀ n x, rank x < n → ¬ p.inTree x = true := by
    intro n
    induction n with
    | zero => exact fun _ hx => absurd hx (Nat.not_lt_zero _)
    | succ n ih =>
      intro x hx hi
      have hp : Arena.parentIn p.parents x ≠ 0 := by
        rcases inTree_iff.1 hi with rfl | hp
        · exact h0
        · exact hp
      obtain ⟨hc, hin⟩ := hhonest x hp
      have hin := inTree_iff.2 hin
      exact ih _ (Nat.lt_of_lt_of_le (hr _ _ hin hc) (Nat.le_of_lt_succ hx)) hin
  exact hnone _ p.root (Nat.lt_succ_self _) p.inTree_root

theorem ne_root {i c : NodeId} (hi : p.inTree i = true) (hc : c ∈ p.children i) : c ≠ p.root := by
  rintro rfl
  have hp := h.parent hi hc
  rw [h.parent_root] at hp
  subst hp
  simp [Arena.children] at hc

theorem rank_below {rank : NodeId → Nat}
    (hr : ∀ i c, p.inTree i = true → c ∈ p.children i → rank i < rank c) {i x : NodeId}
    (hi : p.inTree i = true) (hx : p.Below i x) : rank i ≤ rank x := by
  induction hx with
  | self => exact Nat.le_refl _
  | child hx hc ih => exact Nat.le_trans ih (Nat.le_of_lt (hr _ _ (h.inTree_below hi hx) hc))

/-- No node lies below what it holds. -/
theorem not_below_child {i c : NodeId} (hi : p.inTree i = true) (hc : c ∈ p.children i) :
    ¬ p.Below c i := by
  obtain ⟨rank, _, hr⟩ := h.ranked
  intro hb
  have := hr i c hi hc
  have := h.rank_below hr (h.inTree_child hi hc) hb
  omega

/-- Nothing lies below two children of a node. -/
theorem disjoint {i c d x : NodeId} (hi : p.inTree i = true) (hc : c ∈ p.children i)
    (hd : d ∈ p.children i) (hne : c ≠ d) (hx : p.Below c x) : ¬ p.Below d x := by
  have hct := h.inTree_child hi hc
  have hdt := h.inTree_child hi hd
  -- Both chains lead up through the one parent of each node, and so meet the parent of the
  -- siblings.
  induction hx with
  | self =>
    intro hb
    cases hb with
    | self => exact hne rfl
    | child hy hm =>
      have := h.parent (h.inTree_below hdt hy) hm
      rw [h.parent hi hc] at this
      exact h.not_below_child hi hd (this ▸ hy)
  | @child y x hy hm ih =>
    intro hb
    cases hb with
    | self =>
      have := h.parent (h.inTree_below hct hy) hm
      rw [h.parent hi hd] at this
      exact h.not_below_child hi hc (this ▸ hy)
    | child hz hm' =>
      have := h.parent (h.inTree_below hct hy) hm
      rw [h.parent (h.inTree_below hdt hz) hm'] at this
      exact ih (this ▸ hz)

end TreeShaped
end Program
end ShaderLoom
