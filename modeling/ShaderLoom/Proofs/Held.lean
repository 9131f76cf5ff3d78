import ShaderLoom.Proofs.TreeShape

/-! How often the nodes of a program are held. Where none is held twice, a walk down from a node
meets every node at most once. -/
namespace ShaderLoom

/-- What is listed below some elements grows with them. -/
theorem count_flatMap_le {ι α : Type} [DecidableEq ι] [DecidableEq α] {f : ι → List α}
    {s t : List ι} {a : α} (h : ∀ x, a ∈ f x → s.count x ≤ t.count x) :
    (s.flatMap f).count a ≤ (t.flatMap f).count a := by
  induction s generalizing t with
  | nil => simp
  | cons x s ih =>
    by_cases hx : a ∈ f x
    · have hm : x ∈ t := by
        have := h x hx
        simp only [List.count_cons_self] at this
        exact List.count_pos_iff.1 (by omega)
      obtain ⟨u, v, rfl⟩ := List.append_of_mem hm
      have := ih (t := u ++ v) fun y hy => by
        have := h y hy
        simp only [List.count_append, List.count_cons] at this ⊢
        omega
      simp only [List.flatMap_cons, List.flatMap_append, List.count_append] at this ⊢
      omega
    · have := ih (t := t) fun y hy => Nat.le_trans (by simp [List.count_cons]) (h y hy)
      simpa [List.count_eq_zero_of_not_mem hx] using this

namespace Arena

/-- The children of a node, absent ones among them. -/
def slotsOf (a : Arena) (i : NodeId) : List NodeId := ((a.shape? i).map Shape.slots).getD []

theorem slotsOf_of_node? {a : Arena} {i : NodeId} {n : Node} (h : a.node? i = some n) :
    a.slotsOf i = n.shape.slots := by
  simp [slotsOf, shape?, h]

theorem mem_slotsOf {a : Arena} {i c : NodeId} (h : c ∈ a.slotsOf i) :
    ∃ n, a.node? i = some n ∧ c ∈ n.shape.slots := by
  unfold slotsOf shape? at h
  cases hn : a.node? i with
  | none => simp [hn] at h
  | some n => exact ⟨n, rfl, by simpa [hn] using h⟩

/-- How often the nodes hold a node. -/
def held (a : Arena) (x : NodeId) : Nat := (a.nodes.toList.flatMap fun n => n.shape.slots).count x

theorem held_eq (a : Arena) (x : NodeId) : a.held x = (a.ids.flatMap a.slotsOf).count x := by
  have hmap : a.nodes.toList.map (fun n => n.shape.slots) = a.ids.map a.slotsOf := by
    refine List.ext_getElem (by simp [ids, size]) fun i h₁ h₂ => ?_
    simp only [List.length_map, Array.length_toList] at h₁
    simp [ids, slotsOf, shape?, h₁]
  rw [held, List.flatMap_def, hmap, ← List.flatMap_def]

theorem mem_ids {a : Arena} {i : NodeId} : i ∈ a.ids ↔ 0 < i ∧ i ≤ a.size := by
  simp only [ids, List.mem_map, List.mem_range]
  constructor
  · rintro ⟨k, hk, rfl⟩
    exact ⟨Nat.succ_pos k, hk⟩
  · intro ⟨h0, hi⟩
    exact ⟨i - 1, by grind, by grind⟩

theorem nodup_ids (a : Arena) : a.ids.Nodup :=
  List.pairwise_map.2 (List.nodup_range.imp fun h he => h (Nat.succ.inj he))

theorem count_ids {a : Arena} {i : NodeId} (h0 : 0 < i) (hi : i ≤ a.size) : a.ids.count i = 1 := by
  rw [a.nodup_ids.count, if_pos (mem_ids.2 ⟨h0, hi⟩)]

/-- The nodes that a walk down from a node meets, to a depth. -/
def visits (a : Arena) : Nat → NodeId → List NodeId
  | 0, i => [i]
  | n + 1, i => i :: (a.slotsOf i).flatMap (a.visits n)

/-- A node is met first, or as a child of one that is met. -/
theorem count_visits_le (a : Arena) (n : Nat) (i k : NodeId) :
    (a.visits n i).count k ≤ [i].count k + ((a.visits n i).flatMap a.slotsOf).count k := by
  induction n generalizing i with
  | zero => simp [visits]
  | succ n ih =>
    have hsum : ∀ cs : List NodeId, (cs.flatMap (a.visits n)).count k ≤
        cs.count k + ((cs.flatMap (a.visits n)).flatMap a.slotsOf).count k := by
      intro cs
      induction cs with
      | nil => simp
      | cons c cs ihc =>
        have := ih c
        simp only [List.flatMap_cons, List.count_append, List.flatMap_append, List.count_cons,
          List.count_nil] at this ⊢
        omega
    have := hsum (a.slotsOf i)
    simp only [visits, List.count_cons, List.count_nil, List.flatMap_cons, List.count_append]
    omega

end Arena

namespace Program

/-- No node is held twice. -/
def Counted (p : Program) : Prop := ∀ x, x ≠ 0 → p.held x ≤ 1

variable {p : Program}

/-- The numbers of the tree are those of its nodes. -/
theorem Fit.mem_treeIds (hp : p.Fit) {i : NodeId} : i ∈ p.treeIds ↔ p.inTree i = true := by
  refine ⟨fun hi => (List.mem_filter.1 hi).2, fun hi => List.mem_filter.2 ⟨?_, hi⟩⟩
  exact Arena.mem_ids.2 (Arena.node?_isSome_iff.1 (hp.node_of_inTree hi))

theorem Fit.le_of_mem_visits (hp : p.Fit) {n : Nat} {i k : NodeId} (h : k ∈ p.visits n i) :
    k ≤ i := by
  induction n generalizing i with
  | zero => exact Nat.le_of_eq (by simpa [Arena.visits] using h)
  | succ n ih =>
    rcases List.mem_cons.1 h with rfl | h
    · exact Nat.le_refl _
    · obtain ⟨c, hc, hk⟩ := List.mem_flatMap.1 h
      obtain ⟨node, hn, hc⟩ := Arena.mem_slotsOf hc
      exact Nat.le_trans (ih hk) (Nat.le_of_lt (hp.below hn c hc))

/-- A walk down from a node meets no node twice. -/
theorem Counted.visits (h : p.Counted) (hp : p.Fit) (n : Nat) (i : NodeId) {k : NodeId}
    (hk : k ≠ 0) : (p.visits n i).count k ≤ 1 := by
  induction hd : p.size - k using Nat.strongRecOn generalizing k with
  | _ d ih =>
    subst hd
    have hholder : ∀ j, k ∈ p.slotsOf j → (p.visits n i).count j ≤ p.ids.count j := by
      intro j hj
      obtain ⟨node, hn, hc⟩ := Arena.mem_slotsOf hj
      have hlt := hp.below hn k hc
      have hrange := Arena.range_of_node? hn
      rw [Arena.count_ids hrange.1 hrange.2]
      exact ih (p.size - j) (by grind) (by grind) rfl
    have hle := p.count_visits_le n i k
    by_cases hi : i = k
    · -- What holds the first node comes after it and is not met.
      have hnone : ((p.visits n i).flatMap p.slotsOf).count k ≤ 0 := by
        refine count_flatMap_le (t := []) fun j hj => ?_
        obtain ⟨node, hn, hc⟩ := Arena.mem_slotsOf hj
        have hlt := hp.below hn k hc
        refine Nat.le_of_eq (List.count_eq_zero.2 fun hm => ?_)
        exact absurd (hp.le_of_mem_visits hm) (Nat.not_le.2 (hi ▸ hlt))
      have : [i].count k ≤ 1 := List.count_le_length
      omega
    · have hsum := count_flatMap_le hholder
      rw [← Arena.held_eq] at hsum
      have := h k hk
      simp only [List.count_cons, List.count_nil, beq_iff_eq, hi, if_false] at hle
      omega

/-- A node that two nodes hold would be held twice. -/
theorem Counted.holder (h : p.Counted) {x y c : NodeId} (hx : c ∈ p.children x)
    (hy : c ∈ p.children y) : x = y := by
  obtain ⟨n, hn, hcn, h0⟩ := Arena.mem_children.1 hx
  obtain ⟨m, hm, hcm, _⟩ := Arena.mem_children.1 hy
  by_cases hxy : x = y
  · exact hxy
  have hids : ∀ k, c ∈ p.slotsOf k → [x, y].count k ≤ p.ids.count k := by
    intro k hk
    obtain ⟨_, hk, _⟩ := Arena.mem_slotsOf hk
    have hrange := Arena.range_of_node? hk
    rw [Arena.count_ids hrange.1 hrange.2]
    exact List.nodup_iff_count.1 (by simpa using hxy) k
  have htwo := count_flatMap_le hids
  have hcx : 0 < (p.slotsOf x).count c := List.count_pos_iff.2 (by rwa [Arena.slotsOf_of_node? hn])
  have hcy : 0 < (p.slotsOf y).count c := List.count_pos_iff.2 (by rwa [Arena.slotsOf_of_node? hm])
  have hone := h c h0
  rw [Arena.held_eq] at hone
  simp only [List.flatMap_cons, List.flatMap_nil, List.count_append, List.count_nil] at htwo
  omega

/-- The second node lies strictly below the first. -/
def Under (p : Program) (k i : NodeId) : Prop := ∃ c ∈ p.children k, p.Below c i

/-- What lies above a node lies above its holder or is that holder. -/
theorem Counted.above (h : p.Counted) {k i c : NodeId} (hc : c ∈ p.children i) (hk : p.Under k c) :
    k = i ∨ p.Under k i := by
  obtain ⟨d, hd, hb⟩ := hk
  cases hb with
  | self => exact .inl (h.holder hd hc)
  | child hx hcx => exact .inr ⟨d, hd, h.holder hcx hc ▸ hx⟩

theorem Fit.lt_of_mem_children (hp : p.Fit) {i c : NodeId} (hc : c ∈ p.children i) : c < i := by
  obtain ⟨n, hn, hc, _⟩ := Arena.mem_children.1 hc
  exact hp.below hn c hc

theorem Fit.le_of_below (hp : p.Fit) {i x : NodeId} (h : p.Below i x) : x ≤ i := by
  induction h with
  | self => exact Nat.le_refl i
  | child _ hc ih => exact Nat.le_trans (Nat.le_of_lt (hp.lt_of_mem_children hc)) ih

theorem Fit.lt_of_under (hp : p.Fit) {k i : NodeId} (h : p.Under k i) : i < k := by
  obtain ⟨c, hc, hb⟩ := h
  exact Nat.lt_of_le_of_lt (hp.le_of_below hb) (hp.lt_of_mem_children hc)

end Program

/-- What a builder holds once at most is held once at most by its program. -/
theorem Builder.Mode.Good.counted_build {M : Builder.Mode} {b : Builder} {l : List NodeId}
    (h : M.Good b l) (hc : M.counted) : b.build.Counted := by
  intro x hx
  have hone := Nat.le_trans (Nat.le_add_right _ _) (h.once hc x hx)
  simpa [Arena.held, Builder.held, Builder.build, Shape.slots] using hone

end ShaderLoom
