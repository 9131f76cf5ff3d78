import ShaderLoom.Proofs.Program

/-! The parents that a program records. The walk from the module enters every node below it, and the
parent of a node is one that holds it, so that following parents leads back to the module. -/
namespace ShaderLoom

namespace Arena

/-- The recorded parent, zero if there is none. -/
def parentIn (parents : Array NodeId) (id : NodeId) : NodeId := parents[id]?.getD 0

/-- How many nodes have no parent yet. -/
def orphans (parents : Array NodeId) : Nat := parents.count 0

/-- What adopting some children does to the record. -/
structure Adopts (root id : NodeId) (cs : List NodeId) (ps : Array NodeId) (taken : List NodeId)
    (ps' : Array NodeId) : Prop where
  size : ps'.size = ps.size
  keeps : ∀ c, parentIn ps c ≠ 0 → parentIn ps' c = parentIn ps c
  sets : ∀ c, parentIn ps' c ≠ 0 → parentIn ps c ≠ 0 ∨ (c ∈ cs ∧ parentIn ps' c = id ∧ c ∈ taken)
  covers : ∀ c ∈ cs, c < ps.size → c = root ∨ parentIn ps' c ≠ 0
  takes : ∀ c ∈ taken, parentIn ps' c ≠ 0
  root : parentIn ps' root = parentIn ps root
  orphans : taken.length + orphans ps' ≤ orphans ps

theorem orphans_set {ps : Array NodeId} {c id : NodeId} (hid : id ≠ 0) (hc : ps[c]? = some 0) :
    1 + orphans (ps.set! c id) = orphans ps := by
  obtain ⟨hlt, hget⟩ := Array.getElem?_eq_some_iff.1 hc
  have hpos : 0 < ps.count 0 := Array.count_pos_iff.2 (hget ▸ Array.getElem_mem hlt)
  simp only [orphans, ← Array.count_toList, Array.set!_eq_setIfInBounds, Array.toList_setIfInBounds]
  rw [List.count_set (by simpa using hlt)]
  simp [hget, hid]
  omega

theorem parentIn_set {ps : Array NodeId} {c id : NodeId} (hc : c < ps.size) (k : NodeId) :
    parentIn (ps.set! c id) k = if k = c then id else parentIn ps k := by
  simp only [parentIn, Array.set!_eq_setIfInBounds, Array.getElem?_setIfInBounds]
  by_cases h : c = k
  · subst h
    simp [hc]
  · simp [h, Ne.symm h]

/-- The step of `adopt` for one child. -/
theorem Adopts.cons {root id c : NodeId} {cs : List NodeId} {ps ps' ps'' : Array NodeId}
    {first taken : List NodeId} (h : Adopts root id [c] ps first ps')
    (h' : Adopts root id cs ps' taken ps'') :
    Adopts root id (c :: cs) ps (taken ++ first) ps'' where
  size := h'.size.trans h.size
  keeps k hk := by
    have := h.keeps k hk
    rw [h'.keeps k (by rwa [this]), this]
  sets k hk := by
    rcases h'.sets k hk with hk' | ⟨hm, hp, ht⟩
    · rcases h.sets k hk' with hk'' | ⟨hm, hp, ht⟩
      · exact .inl hk''
      · refine .inr ⟨?_, ?_, by simp [ht]⟩
        · simp_all
        · rw [h'.keeps k hk', hp]
    · exact .inr ⟨by simp [hm], hp, by simp [ht]⟩
  covers k hk hlt := by
    rcases List.mem_cons.1 hk with rfl | hk
    · refine (h.covers k (by simp) hlt).imp_right fun h0 => ?_
      rwa [h'.keeps k h0]
    · exact h'.covers k hk (by rwa [h.size])
  takes k hk := by
    rcases List.mem_append.1 hk with hk | hk
    · exact h'.takes k hk
    · have := h.takes k hk
      rwa [h'.keeps k this]
  root := h'.root.trans h.root
  orphans := by
    have := h.orphans
    have := h'.orphans
    simp only [List.length_append]
    omega

theorem Adopts.of_set {root id c : NodeId} {ps : Array NodeId} (hid : id ≠ 0) (hlt : c < ps.size)
    (hc : ps[c]? = some 0) (hr : c ≠ root) : Adopts root id [c] ps [c] (ps.set! c id) where
  size := by simp
  keeps k hk := by
    rw [parentIn_set hlt]
    split
    · next he => simp [he, parentIn, hc] at hk
    · rfl
  sets k hk := by
    rw [parentIn_set hlt] at hk ⊢
    split
    · next he => simp [he]
    · next he => exact .inl (by simpa [he] using hk)
  covers k hk _ := by
    have he : k = c := by simpa using hk
    right
    rw [parentIn_set hlt, if_pos he]
    exact hid
  takes k hk := by
    rw [parentIn_set hlt, if_pos (by simpa using hk)]
    exact hid
  root := by rw [parentIn_set hlt, if_neg (Ne.symm hr)]
  orphans := by
    have := orphans_set hid hc
    simp only [List.length_singleton]
    omega

theorem Adopts.of_not {root id c : NodeId} {ps : Array NodeId}
    (h : ¬ (c < ps.size ∧ ps[c]? = some 0 ∧ c ≠ root)) : Adopts root id [c] ps [] ps where
  size := rfl
  keeps _ _ := rfl
  sets _ hk := .inl hk
  covers k hk hlt := by
    have he : k = c := by simpa using hk
    subst he
    by_cases hr : k = root
    · exact .inl hr
    · right
      intro h0
      refine h ⟨hlt, ?_, hr⟩
      simpa [parentIn, Array.getElem?_eq_getElem hlt] using h0
  takes _ hk := by simp at hk
  root := rfl
  orphans := by simp

theorem adopts (root id : NodeId) (hid : id ≠ 0) (cs : List NodeId) (ps : Array NodeId) :
    Adopts root id cs ps (adopt root id cs ps).1 (adopt root id cs ps).2 := by
  -- The fold over the children adds to what is taken already.
  have hfold : ∀ (cs : List NodeId) (t : List NodeId) (ps : Array NodeId),
      ∃ taken, (cs.foldl (adoptOne root id) (t, ps)).1 = taken ++ t ∧
        Adopts root id cs ps taken (cs.foldl (adoptOne root id) (t, ps)).2 := by
    intro cs
    induction cs with
    | nil =>
      intro t ps
      exact ⟨[], rfl, rfl, fun _ _ => rfl, fun _ h => .inl h, by simp, by simp, rfl, by simp⟩
    | cons c cs ih =>
      intro t ps
      simp only [List.foldl_cons, adoptOne]
      split
      · next hc =>
        obtain ⟨taken, ht, ha⟩ := ih (c :: t) (ps.set! c id)
        exact ⟨taken ++ [c], by rw [ht, List.append_assoc, List.singleton_append],
          (Adopts.of_set hid hc.1 hc.2.1 hc.2.2).cons ha⟩
      · next hc =>
        obtain ⟨taken, ht, ha⟩ := ih t ps
        exact ⟨taken ++ [], by rw [ht, List.append_nil], (Adopts.of_not hc).cons ha⟩
  obtain ⟨taken, ht, ha⟩ := hfold cs [] ps
  rw [List.append_nil] at ht
  rw [adopt, ht]
  exact ha

theorem mem_children {a : Arena} {id c : NodeId} :
    c ∈ a.children id ↔ ∃ n, a.node? id = some n ∧ c ∈ n.shape.slots ∧ c ≠ 0 := by
  cases h : a.node? id with
  | none => simp [children, h]
  | some n => simp [children, h, Node.children]

theorem ne_zero_of_mem_children {a : Arena} {id c : NodeId} (h : c ∈ a.children id) : c ≠ 0 := by
  obtain ⟨_, _, _, h0⟩ := mem_children.1 h
  exact h0

/-- The nodes that the walk has entered. -/
def Entered (root : NodeId) (ps : Array NodeId) (id : NodeId) : Prop :=
  id = root ∨ parentIn ps id ≠ 0

/-- Every recorded parent has been entered and holds the node. -/
def Honest (a : Arena) (root : NodeId) (ps : Array NodeId) : Prop :=
  ∀ c, parentIn ps c ≠ 0 → c ∈ a.children (parentIn ps c) ∧ Entered root ps (parentIn ps c)

/-- All children of an entered node have been entered, unless it is still to be left. -/
def Closed (a : Arena) (root : NodeId) (ps : Array NodeId) (stack : List NodeId) : Prop :=
  ∀ x, Entered root ps x → x ∈ stack ∨ ∀ c ∈ a.children x, c < ps.size → Entered root ps c

section Adopts

variable {a : Arena} {root id : NodeId} {ps ps' : Array NodeId} {taken : List NodeId}

theorem Adopts.entered {cs : List NodeId} (h : Adopts root id cs ps taken ps') {x : NodeId}
    (hx : Entered root ps x) : Entered root ps' x := by
  refine hx.imp_right fun hp => ?_
  rwa [h.keeps x hp]

/-- A node that is adopted by a node that was entered keeps the record honest. -/
theorem Adopts.honest (h : Adopts root id (a.children id) ps taken ps') (hid : Entered root ps id)
    (hh : a.Honest root ps) : a.Honest root ps' := by
  intro c hp
  rcases h.sets c hp with hp' | ⟨hm, he, _⟩
  · rw [h.keeps c hp']
    exact (hh c hp').imp_right h.entered
  · rw [he]
    exact ⟨hm, h.entered hid⟩

theorem Adopts.zero (h : Adopts root id (a.children id) ps taken ps') (h0 : parentIn ps 0 = 0) :
    parentIn ps' 0 = 0 := by
  by_cases hp : parentIn ps' 0 = 0
  · exact hp
  · rcases h.sets 0 hp with hp' | ⟨hm, _⟩
    · exact absurd h0 hp'
    · exact absurd rfl (ne_zero_of_mem_children hm)

theorem Adopts.stack {cs stack : List NodeId} (h : Adopts root id cs ps taken ps')
    (hstack : ∀ x ∈ id :: stack, Entered root ps x) : ∀ x ∈ taken ++ stack, Entered root ps' x := by
  intro x hx
  rcases List.mem_append.1 hx with hx | hx
  · exact .inr (h.takes x hx)
  · exact h.entered (hstack x (by simp [hx]))

theorem ne_zero_of_entered (hroot : root ≠ 0) (h0 : parentIn ps 0 = 0) {x : NodeId}
    (hx : Entered root ps x) : x ≠ 0 := by
  rintro rfl
  rcases hx with h | h
  · exact hroot h.symm
  · exact h h0

end Adopts

theorem spread_correct {a : Arena} {root : NodeId} (hroot : root ≠ 0) {n : Nat}
    {stack : List NodeId} {ps : Array NodeId} (hstack : ∀ x ∈ stack, Entered root ps x)
    (hn : stack.length + orphans ps ≤ n) (hh : a.Honest root ps) (hc : a.Closed root ps stack)
    (h0 : parentIn ps 0 = 0) :
    (a.spread root n stack ps).size = ps.size ∧ a.Honest root (a.spread root n stack ps) ∧
      a.Closed root (a.spread root n stack ps) [] := by
  induction n generalizing stack ps with
  | zero =>
    have : stack = [] := List.eq_nil_of_length_eq_zero (by omega)
    subst this
    exact ⟨rfl, hh, hc⟩
  | succ n ih =>
    cases stack with
    | nil => exact ⟨rfl, hh, hc⟩
    | cons id stack =>
      have hid : Entered root ps id := hstack id (by simp)
      have ha := adopts root id (ne_zero_of_entered hroot h0 hid) (a.children id) ps
      simp only [spread]
      generalize adopt root id (a.children id) ps = r at ha
      obtain ⟨taken, ps'⟩ := r
      simp only at ha ⊢
      have hsize := ha.size
      rw [← hsize]
      refine ih (ha.stack hstack) ?_ (ha.honest hid hh) ?_ (ha.zero h0)
      · have := ha.orphans
        simp only [List.length_append, List.length_cons] at hn ⊢
        omega
      · intro x hx
        by_cases hxid : x = id
        · subst hxid
          exact .inr fun c hcc hlt => ha.covers c hcc (by rwa [← hsize])
        · have hx' : Entered root ps x ∨ x ∈ taken := by
            rcases hx with hx | hx
            · exact .inl (.inl hx)
            · rcases ha.sets x hx with hp | ⟨_, _, ht⟩
              · exact .inl (.inr hp)
              · exact .inr ht
          rcases hx' with hx' | ht
          · rcases hc x hx' with hm | hall
            · exact .inl (by simp_all)
            · exact .inr fun c hcc hlt => ha.entered (hall c hcc (by rwa [← hsize]))
          · exact .inl (by simp [ht])

/-- The number of the turn in which a node is entered: greater than that of its parent, and no
greater than the number of turns. -/
theorem spread_ranked {a : Arena} {root : NodeId} (hroot : root ≠ 0) {N n : Nat}
    {stack : List NodeId} {ps : Array NodeId} (rank : NodeId → Nat)
    (hstack : ∀ x ∈ stack, Entered root ps x) (hh : a.Honest root ps) (h0 : parentIn ps 0 = 0)
    (hle : ∀ c, Entered root ps c → rank c + n ≤ N)
    (hlt : ∀ c, parentIn ps c ≠ 0 → rank (parentIn ps c) < rank c) :
    ∃ rank' : NodeId → Nat, (∀ c, Entered root (a.spread root n stack ps) c → rank' c ≤ N) ∧
      ∀ c, parentIn (a.spread root n stack ps) c ≠ 0 →
        rank' (parentIn (a.spread root n stack ps) c) < rank' c := by
  induction n generalizing stack ps rank with
  | zero => exact ⟨rank, hle, hlt⟩
  | succ n ih =>
    cases stack with
    | nil => exact ⟨rank, fun c hc => Nat.le_trans (Nat.le_add_right _ _) (hle c hc), hlt⟩
    | cons id stack =>
      have hid : Entered root ps id := hstack id (by simp)
      have ha := adopts root id (ne_zero_of_entered hroot h0 hid) (a.children id) ps
      simp only [spread]
      generalize adopt root id (a.children id) ps = r at ha
      obtain ⟨taken, ps'⟩ := r
      simp only at ha ⊢
      classical
      -- Those entered in this turn come after all that were entered before.
      let rank' : NodeId → Nat := fun c => if Entered root ps c then rank c else N - n
      have hold : ∀ c, Entered root ps c → rank' c = rank c := fun c hc => if_pos hc
      have hbound := hle id hid
      refine ih rank' (ha.stack hstack) (ha.honest hid hh) (ha.zero h0) (fun c _ => ?_) fun c hp =>
        ?_
      · by_cases hc : Entered root ps c
        · have := hle c hc
          rw [hold c hc]
          omega
        · have : rank' c = N - n := if_neg hc
          omega
      · rcases ha.sets c hp with hp' | ⟨_, he, _⟩
        · rw [ha.keeps c hp', hold _ (hh c hp').2, hold c (.inr hp')]
          exact hlt c hp'
        · rw [he, hold id hid]
          by_cases hc : Entered root ps c
          · have hp' : parentIn ps c ≠ 0 :=
              hc.elim (fun hr => by rwa [hr, ← ha.root, ← hr]) fun h => h
            rw [hold c hc, ← he, ha.keeps c hp']
            exact hlt c hp'
          · have : rank' c = N - n := if_neg hc
            omega

theorem parentIn_replicate (n : Nat) (c : NodeId) : parentIn (Array.replicate n 0) c = 0 := by
  simp only [parentIn, Array.getElem?_replicate]
  split <;> rfl

theorem parentsOf_correct (a : Arena) {root : NodeId} (hroot : root ≠ 0) :
    (a.parentsOf root).size = a.size + 1 ∧ a.Honest root (a.parentsOf root) ∧
      a.Closed root (a.parentsOf root) [] := by
  have hnone := parentIn_replicate (a.size + 1)
  have h : (a.spread root (a.size + 2) [root] (Array.replicate (a.size + 1) 0)).size = _ ∧ _ ∧ _ :=
    spread_correct hroot ?_ ?_ ?_ ?_ (hnone 0)
  · rw [Array.size_replicate] at h
    exact h
  · exact fun x hx => .inl (by simpa using hx)
  · simp only [orphans, Array.count_replicate_self, List.length_singleton]
    omega
  · exact fun c hc => absurd (hnone c) hc
  · intro x hx
    rcases hx with hx | hx
    · exact .inl (by simp [hx])
    · exact absurd (hnone x) hx

/-- The parents are not cyclic, and no chain of them is longer than the walk. -/
theorem parentsOf_ranked (a : Arena) {root : NodeId} (hroot : root ≠ 0) :
    ∃ rank : NodeId → Nat, (∀ c, Entered root (a.parentsOf root) c → rank c ≤ a.size + 2) ∧
      ∀ c, parentIn (a.parentsOf root) c ≠ 0 → rank (parentIn (a.parentsOf root) c) < rank c := by
  refine spread_ranked hroot (fun _ => 0) (fun x hx => .inl (by simpa using hx))
    (fun c hc => absurd (parentIn_replicate _ c) hc) (parentIn_replicate _ 0) (fun c _ => by omega)
    fun c hc => absurd (parentIn_replicate _ c) hc

end Arena

namespace Program

variable {p : Program}

theorem inTree_iff {id : NodeId} :
    p.inTree id = true ↔ Arena.Entered p.root p.parents id := by
  simp [inTree, parent, Arena.Entered, Arena.parentIn]

theorem inTree_root (p : Program) : p.inTree p.root = true := by
  simp [inTree]

namespace Fit

variable (h : p.Fit)
include h

theorem root_pos : p.root ≠ 0 := by
  intro h0
  have := h.module
  simp [h0, Arena.shape?] at this

/-- What a node of the tree holds is in the tree. -/
theorem inTree_child {i c : NodeId} (hi : p.inTree i = true) (hc : c ∈ p.children i) :
    p.inTree c = true := by
  obtain ⟨hsize, _, hclosed⟩ := p.parentsOf_correct h.root_pos
  rw [← h.parents] at hsize hclosed
  obtain ⟨n, hn, hs, _⟩ := Arena.mem_children.1 hc
  have hlt := h.below hn c hs
  have hle := (Arena.range_of_node? hn).2
  rw [inTree_iff] at hi ⊢
  exact (hclosed i hi).resolve_left (by simp) c hc (by grind)

/-- The parent of a node is in the tree and holds it. -/
theorem parent_holds {c : NodeId} (hc : p.parent c ≠ 0) :
    c ∈ p.children (p.parent c) ∧ p.inTree (p.parent c) = true := by
  obtain ⟨_, hhonest, _⟩ := p.parentsOf_correct h.root_pos
  rw [← h.parents] at hhonest
  rw [inTree_iff]
  exact hhonest c hc

theorem inTree_global {g : NodeId} (hg : g ∈ p.globals) : p.inTree g = true := by
  refine h.inTree_child p.inTree_root (Arena.mem_children.2 ?_)
  obtain ⟨n, hn, hs⟩ := Option.map_eq_some_iff.1 h.module
  exact ⟨n, hn, by simpa [hs, Shape.slots] using hg, Nat.ne_of_gt (h.globals g hg).1⟩

/-- Nodes of the tree other than the module come before it. -/
theorem lt_root {i : NodeId} (hi : p.inTree i = true) (hr : i ≠ p.root) : 0 < i ∧ i < p.root := by
  have hp : p.parent i ≠ 0 := by simpa [inTree, hr] using hi
  obtain ⟨hm, _⟩ := h.parent_holds hp
  obtain ⟨n, hn, hs, h0⟩ := Arena.mem_children.1 hm
  have hlt := h.below hn i hs
  have hle := (Arena.range_of_node? hn).2
  have hsize := h.root
  exact ⟨Nat.pos_of_ne_zero h0, by grind⟩

theorem node_of_inTree {i : NodeId} (hi : p.inTree i = true) : (p.node? i).isSome := by
  by_cases hr : i = p.root
  · obtain ⟨n, hn, _⟩ := Option.map_eq_some_iff.1 h.module
    simp [hr, hn]
  · obtain ⟨h0, hlt⟩ := h.lt_root hi hr
    have := h.root
    exact Arena.node?_isSome_iff.2 ⟨h0, by grind⟩

/-- What holds of the module and passes to what a node holds is true of the whole tree. -/
theorem tree_induct {P : NodeId → Prop} (hroot : P p.root)
    (hstep : ∀ i n c, p.inTree i = true → P i → p.node? i = some n →
      c ∈ n.shape.slots → c ≠ 0 → P c) {i : NodeId} (hi : p.inTree i = true) : P i := by
  -- A parent has a greater number than its children, and no number exceeds the size of the arena.
  generalize hk : p.size - i = k
  induction k using Nat.strongRecOn generalizing i with
  | ind k ih =>
    by_cases hr : i = p.root
    · exact hr ▸ hroot
    · have hp : p.parent i ≠ 0 := by simpa [inTree, hr] using hi
      obtain ⟨hm, ht⟩ := h.parent_holds hp
      obtain ⟨n, hn, hs, h0⟩ := Arena.mem_children.1 hm
      have hlt := h.below hn i hs
      have hle := (Arena.range_of_node? hn).2
      exact hstep _ n i ht (ih (p.size - p.parent i) (by grind) ht rfl) hn hs h0

end Fit
end Program
end ShaderLoom
