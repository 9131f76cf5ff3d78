import Mathlib.Data.List.Nodup
import ShaderLoom.Proofs.Copy.Identity
import ShaderLoom.Proofs.Held

/-! Copying a program from which list elements are left out. Every node of the copy comes from a
node of the program, and it is that node with the copies of its parts, where lists lack the elements
that were left out and nothing else. -/
namespace ShaderLoom

/-- What holds of related children and lists, and of lists put together, holds of all children. -/
theorem Shape.Rel.slots_of {ν μ α β : Type} {N : ν → μ → Prop} {C : α → β → Prop}
    {L : List α → List β → Prop} {s : Shape ν α} {t : Shape μ β} (h : Rel N C L s t)
    {S : List α → List β → Prop} (hnil : S [] [])
    (happend : ∀ {xs ys xs' ys'}, S xs ys → S xs' ys' → S (xs ++ xs') (ys ++ ys'))
    (hC : ∀ {x y}, C x y → S [x] [y]) (hL : ∀ {xs ys}, L xs ys → S xs ys) : S s.slots t.slots := by
  have hcons : ∀ {x y xs ys}, C x y → S xs ys → S (x :: xs) (y :: ys) :=
    fun h h' => happend (hC h) h'
  cases h <;> simp only [Shape.slots]
  all_goals repeat first
    | exact hnil
    | exact hL ‹_›
    | refine hcons ‹_› ?_
    | refine happend ?_ ?_

/-- The related children are children of both shapes. -/
theorem Shape.Rel.within_both {ν μ α β : Type} {N : ν → μ → Prop} {C : α → β → Prop}
    {L : List α → List β → Prop} {s : Shape ν α} {t : Shape μ β} (h : Rel N C L s t) :
    Rel N (fun x y => x ∈ s.slots ∧ y ∈ t.slots ∧ C x y)
      (fun xs ys => (∀ x ∈ xs, x ∈ s.slots) ∧ (∀ y ∈ ys, y ∈ t.slots) ∧ L xs ys) s t := by
  cases h <;> constructor <;> first | assumption | refine ⟨?_, ?_, ‹_›⟩
  all_goals simp +contextual [slots]

namespace Program

variable {p q : Program}

/-- Where children come first and none is held twice, the nodes form a tree. -/
theorem Fit.treeShaped (hp : p.Fit) (hc : p.Counted) : p.TreeShaped where
  root := hp.root_pos
  parents := hp.parents
  parent {i c} hi hm := by
    have hlt := hp.lt_of_mem_children hm
    have hle : i ≤ p.root := by
      by_cases hr : i = p.root
      · exact Nat.le_of_eq hr
      · exact Nat.le_of_lt (hp.lt_root hi hr).2
    have hr : c ≠ p.root := Nat.ne_of_lt (Nat.lt_of_lt_of_le hlt hle)
    have hparent : p.parent c ≠ 0 := by simpa [inTree, hr] using hp.inTree_child hi hm
    exact hc.holder (hp.parent_holds hparent).1 hm
  once {i} _ := by
    refine List.nodup_iff_count.2 fun x => ?_
    by_cases hx : x ∈ p.children i
    · obtain ⟨n, hn, hslot, h0⟩ := Arena.mem_children.1 hx
      have hids : ∀ k, x ∈ p.slotsOf k → [i].count k ≤ p.ids.count k := by
        intro k hk
        obtain ⟨_, hk, _⟩ := Arena.mem_slotsOf hk
        have hrange := Arena.range_of_node? hk
        rw [Arena.count_ids hrange.1 hrange.2]
        exact List.count_le_length
      have hsum := count_flatMap_le hids
      rw [← Arena.held_eq, List.flatMap_singleton, Arena.slotsOf_of_node? hn] at hsum
      have hchildren : (p.children i).count x ≤ n.shape.slots.count x := by
        simp only [Arena.children, hn, Option.map_some, Option.getD_some, Node.children]
        exact List.filter_sublist.count_le x
      exact Nat.le_trans hchildren (Nat.le_trans hsum (hc x h0))
    · rw [List.count_eq_zero.2 hx]
      exact Nat.zero_le 1

theorem Fit.children_root (hp : p.Fit) : p.children p.root = p.globals.filter (· != 0) := by
  obtain ⟨n, hn, hs⟩ := Option.map_eq_some_iff.1 hp.module
  simp [Arena.children, hn, Node.children, hs, Shape.slots]

/-- A node of the copy comes from a node of the program, and an absent node from an absent one. -/
def Comes (origin : NodeId → NodeId) (i j : NodeId) : Prop :=
  (i = 0 ∧ j = 0) ∨ (i ≠ 0 ∧ origin j = i)

/-- The same for lists from which elements are gone. -/
def ComeLists (gone : NodeId → Prop) (origin : NodeId → NodeId) :
    List NodeId → List NodeId → Prop :=
  Copy.Listed (fun _ => False) gone (Comes origin)

/-- The second program is the first one with names of its own and without the list elements that are
gone: every node comes from a node, and its names from the names of that node. -/
structure Echoes (named : NodeId → Symbol → Symbol → Prop) (gone : NodeId → Prop)
    (origin : NodeId → NodeId) (p q : Program) : Prop where
  node : ∀ k, origin k ≠ 0 → p.inTree (origin k) = true ∧ ∃ n m, p.node? (origin k) = some n ∧
    q.node? k = some m ∧
    Shape.Rel (named (origin k)) (Comes origin) (ComeLists gone origin) n.shape m.shape
  traced : ∀ k, q.inTree k = true → k = q.root ∨ origin k ≠ 0
  globals : ComeLists gone origin p.globals q.globals

/-- The second program is the first one without the list elements that are gone. -/
structure Trims (gone : NodeId → Prop) (origin : NodeId → NodeId) (p q : Program) : Prop where
  node : ∀ k, origin k ≠ 0 → p.inTree (origin k) = true ∧ ∃ n m, p.node? (origin k) = some n ∧
    q.node? k = some m ∧
    m.span = (if n.span.valid then n.span else {}) ∧
    Shape.Rel (fun s t => s = t ∧ p.symbols.nameFor s = q.symbols.nameFor t) (Comes origin)
    (ComeLists gone origin)
      n.shape m.shape
  traced : ∀ k, q.inTree k = true → k = q.root ∨ origin k ≠ 0
  globals : ComeLists gone origin p.globals q.globals

theorem Trims.echoes {gone : NodeId → Prop} {origin : NodeId → NodeId} (h : Trims gone origin p q) :
    Echoes (fun _ s t => s = t ∧ p.symbols.nameFor s = q.symbols.nameFor t) gone origin p q := by
  refine ⟨fun k hk => ?_, h.traced, h.globals⟩
  obtain ⟨ht, n, m, hn, hm, _, hrel⟩ := h.node k hk
  exact ⟨ht, n, m, hn, hm, hrel⟩

namespace Echoes

variable {named : NodeId → Symbol → Symbol → Prop} {gone : NodeId → Prop} {origin : NodeId → NodeId}
  (h : Echoes named gone origin p q)
include h

/-- The children of a copy come from children of the original, each from its own. -/
theorem children_sublist {k : NodeId} (hk : origin k ≠ 0) :
    ((q.children k).map origin).Sublist (p.children (origin k)) := by
  obtain ⟨_, n, m, hn, hm, hrel⟩ := h.node k hk
  have hone : ∀ {x y}, Comes origin x y →
      (([y].filter (· != 0)).map origin).Sublist ([x].filter (· != 0)) := by
    rintro x y (⟨rfl, rfl⟩ | ⟨hx, rfl⟩)
    · exact .refl _
    · by_cases hy : y = 0 <;> simp [hx, hy]
  have hsub := hrel.slots_of (S := fun xs ys =>
    ((ys.filter (· != 0)).map origin).Sublist (xs.filter (· != 0))) (.refl _)
    (fun h h' => by simpa only [List.filter_append, List.map_append] using h.append h') hone
      fun {xs ys} hl => ?_
  · simpa [Arena.children, hn, hm, Node.children] using hsub
  · induction hl with
    | nil => exact .refl _
    | insert hy _ _ => exact hy.elim
    | @keep x y xs ys _ hxy _ ih =>
      have := (hone hxy).append ih
      simpa only [← List.map_append, ← List.filter_append, List.singleton_append] using this
    | @drop x xs ys _ _ ih => exact ih.trans ((List.sublist_cons_self x xs).filter _)

/-- The globals of the copy come from globals, each from its own. -/
theorem globals_sublist (hq : q.Fit) : (q.globals.map origin).Sublist p.globals := by
  have h0 : ∀ g ∈ q.globals, g ≠ 0 := fun g hg => Nat.ne_of_gt (hq.globals g hg).1
  have hl := h.globals
  unfold ComeLists at hl
  generalize p.globals = xs at hl
  generalize q.globals = ys at hl h0
  induction hl with
  | nil => exact .refl _
  | insert hy _ _ => exact hy.elim
  | keep _ hxy _ ih =>
    obtain ⟨_, rfl⟩ := hxy.resolve_left fun h => h0 _ List.mem_cons_self h.2
    exact (ih fun g hg => h0 g (List.mem_cons_of_mem _ hg)).cons_cons _
  | drop _ _ ih => exact (ih h0).cons _

/-- What comes from the module is the module. -/
theorem root_iff (hp : p.Fit) (hq : q.Fit) {k : NodeId} (hk : origin k ≠ 0) :
    origin k = p.root ↔ k = q.root := by
  obtain ⟨_, n, m, hn, hm, hrel⟩ := h.node k hk
  have hn' : p.shape? (origin k) = some n.shape := by simp [Arena.shape?, hn]
  have hm' : q.shape? k = some m.shape := by simp [Arena.shape?, hm]
  have hiff : (∃ gs, n.shape = .module gs) ↔ ∃ gs, m.shape = .module gs := by
    generalize n.shape = x at hrel
    generalize m.shape = y at hrel
    cases hrel <;> simp
  constructor
  · intro hr
    rw [hr, hp.module] at hn'
    obtain ⟨gs, hgs⟩ := hiff.1 ⟨_, (Option.some.inj hn').symm⟩
    exact hq.eq_root (hm'.trans (congrArg some hgs))
  · intro hr
    rw [hr, hq.module] at hm'
    obtain ⟨gs, hgs⟩ := hiff.2 ⟨_, (Option.some.inj hm').symm⟩
    exact hp.eq_root (hn'.trans (congrArg some hgs))

/-- The children of a copied node, the module included, come from children of one node, each from
its own. -/
theorem children_of (hp : p.Fit) (hq : q.Fit) {k : NodeId} (hk : q.inTree k = true) :
    ∃ i, p.inTree i = true ∧ ((q.children k).map origin).Sublist (p.children i) ∧
      (k = q.root ∧ i = p.root ∨ k ≠ q.root ∧ origin k = i) := by
  by_cases hr : k = q.root
  · refine ⟨p.root, p.inTree_root, ?_, .inl ⟨hr, rfl⟩⟩
    have hglobals : ∀ {r : Program}, r.Fit → r.children r.root = r.globals := fun hfit =>
      hfit.children_root.trans (List.filter_eq_self.2 fun g hg => by
        simpa using Nat.ne_of_gt (hfit.globals g hg).1)
    rw [hr, hglobals hq, hglobals hp]
    exact h.globals_sublist hq
  · have hk0 := (h.traced k hk).resolve_left hr
    exact ⟨origin k, (h.node k hk0).1, h.children_sublist hk0, .inr ⟨hr, rfl⟩⟩

/-- No two nodes of the copy come from the same node. -/
theorem injective (hp : p.TreeShaped) (hfit : p.Fit) (hq : q.Fit) {t t' : NodeId}
    (ht : q.inTree t = true) (ht' : q.inTree t' = true) (h0 : origin t ≠ 0)
    (he : origin t' = origin t) : t' = t := by
  have hroot : t' = q.root ↔ t = q.root := by
    rw [← h.root_iff hfit hq h0, ← h.root_iff hfit hq (he ▸ h0), he]
  refine hq.tree_induct (P := fun t => ∀ t', q.inTree t' = true → (t' = q.root ↔ t = q.root) →
    origin t' = origin t → t' = t)
    (fun t' _ hr _ => hr.2 rfl) (fun k n c hk ih hn hc h0 t' ht' hr he => ?_) ht t' ht' hroot he
  have hmem : c ∈ q.children k := Arena.mem_children.2 ⟨n, hn, hc, h0⟩
  have hc' : c ≠ q.root := by
    have hlt := hq.lt_of_mem_children hmem
    have hle := (Arena.range_of_node? hn).2
    rw [hq.root]
    exact Nat.ne_of_lt (Nat.lt_of_lt_of_le hlt hle)
  have hr' : t' ≠ q.root := fun h => hc' (hr.1 h)
  have hparent : q.parent t' ≠ 0 := by simpa [inTree, hr'] using ht'
  obtain ⟨hmem', hk'⟩ := hq.parent_holds hparent
  -- Both have the same origin, so their parents come from the one node that holds it.
  obtain ⟨i, hi, hsub, hki⟩ := h.children_of hfit hq hk
  obtain ⟨i', hi', hsub', hki'⟩ := h.children_of hfit hq hk'
  have hii : i' = i := by
    rw [← hp.parent hi (hsub.subset (List.mem_map_of_mem hmem)),
      ← hp.parent hi' (hsub'.subset (List.mem_map_of_mem hmem')), he]
  have hkk : q.parent t' = k := by
    rcases hki with ⟨hkr, hir⟩ | ⟨hkr, hik⟩
    · rcases hki' with ⟨hkr', _⟩ | ⟨hkr', hik'⟩
      · rw [hkr, hkr']
      · have hk0 := (h.traced _ hk').resolve_left hkr'
        exact absurd ((h.root_iff hfit hq hk0).1 (by rw [hik', hii, hir])) hkr'
    · have hk0 := (h.traced _ hk).resolve_left hkr
      rcases hki' with ⟨hkr', hir'⟩ | ⟨hkr', hik'⟩
      · exact absurd ((h.root_iff hfit hq hk0).1 (by rw [hik, ← hii, hir'])) hkr
      · exact ih _ hk' (by simp [hkr, hkr']) (by rw [hik, hik', hii])
  rw [hkk] at hmem'
  exact List.inj_on_of_nodup_map (hsub.nodup (hp.once hi)) hmem' hmem he

/-- The copy of a node is a node. -/
theorem present {k : NodeId} (hk : origin k ≠ 0) : k ≠ 0 := by
  obtain ⟨_, _, m, _, hm, _⟩ := h.node k hk
  exact Nat.ne_of_gt (Arena.range_of_node? hm).1

/-- Where nothing is gone, lists come from whole lists. -/
theorem list_eq (hgone : ∀ x, ¬ gone x) {xs ys : List NodeId} (hl : ComeLists gone origin xs ys) :
    (ys.filter (· != 0)).map origin = xs.filter (· != 0) := by
  have hall := Copy.Listed.forall₂ hl (fun _ h => h) hgone
  clear hl
  induction hall with
  | nil => rfl
  | cons hxy _ ih =>
    rcases hxy with ⟨rfl, rfl⟩ | ⟨hx, rfl⟩
    · exact ih
    · simpa [hx, h.present hx] using ih

/-- Where nothing is gone, the children of a copy come from all children of the original. -/
theorem children_eq (hgone : ∀ x, ¬ gone x) {k : NodeId} (hk : origin k ≠ 0) :
    (q.children k).map origin = p.children (origin k) := by
  obtain ⟨_, n, m, hn, hm, hrel⟩ := h.node k hk
  have hsame :=
    hrel.slots_of (S := fun xs ys => (ys.filter (· != 0)).map origin = xs.filter (· != 0)) rfl
    (fun h h' => by rw [List.filter_append, List.map_append, List.filter_append, h, h'])
    (fun hxy => h.list_eq hgone (.keep (hgone _) hxy .nil)) (h.list_eq hgone)
  simpa [Arena.children, hn, hm, Node.children] using hsame

/-- Where nothing is gone, every node but the module has a copy. -/
theorem total (hgone : ∀ x, ¬ gone x) (hp : p.Fit) (hq : q.Fit) {i : NodeId}
    (hi : p.inTree i = true) : i = p.root ∨ ∃ k, q.inTree k = true ∧ origin k = i := by
  refine hp.tree_induct (P := fun i => i = p.root ∨ ∃ k, q.inTree k = true ∧ origin k = i)
    (.inl rfl)
    (fun i n c _ hi hn hc h0 => .inr ?_) hi
  have hmem : c ∈ p.children i := Arena.mem_children.2 ⟨n, hn, hc, h0⟩
  have hup : ∃ k, q.inTree k = true ∧ (q.children k).map origin = p.children i := by
    rcases hi with rfl | ⟨k, hk, rfl⟩
    · refine ⟨q.root, q.inTree_root, ?_⟩
      rw [hp.children_root, hq.children_root]
      exact h.list_eq hgone h.globals
    · exact ⟨k, hk, h.children_eq hgone (Nat.ne_of_gt (Arena.range_of_node? hn).1)⟩
  obtain ⟨k, hk, hsame⟩ := hup
  rw [← hsame] at hmem
  obtain ⟨c', hc', rfl⟩ := List.mem_map.1 hmem
  exact ⟨c', hq.inTree_child hk hc', rfl⟩

end Echoes

namespace Trims

variable {gone : NodeId → Prop} {origin : NodeId → NodeId} (h : Trims gone origin p q)
include h

/-- A copy from which nothing is gone reads the same. -/
theorem reads (hgone : ∀ x, ¬ gone x) (hp : p.Fit) (hq : q.Fit) : p.Reads q := by
  refine hp.reads hq (R := Comes origin) (fun i j hij => hij.imp_right fun hij => ?_)
    (Copy.Listed.forall₂ h.globals (fun _ h => h) hgone)
  obtain ⟨hi, rfl⟩ := hij
  obtain ⟨_, n, m, hn, hm, hspan, hrel⟩ := h.node j hi
  refine ⟨n, m, hn, hm, ?_, hrel.mono (fun _ _ h => h.2) (fun _ _ h => h) fun _ _ h =>
    Copy.Listed.forall₂ h (fun _ h => h) hgone⟩
  rw [hspan]
  exact Span.same_ofValid n.span

end Trims
end Program

namespace Copy

variable {p : Program}

/-- The account of a copy from which elements are left out. -/
def trimmed (p : Program) (gone : NodeId → Bool) : Account Empty Unit where
  mode := ⟨⟨True, False, False⟩, True⟩
  base := { Session.start p () with removed := gone }
  name w s t := s = t ∧ ∃ x, p.symbols.Names s x ∧ w.1.target.symbols.Names t x
  side _ _ _ := True
  extra _ _ := False
  special _ _ _ := False
  parts _ := True
  state w := w.1.symbols = [] ∧ ∃ more, w.1.target.symbols.names = p.symbols.names ++ more

variable {gone : NodeId → Bool}

theorem trimmed_stable : (trimmed p gone).Stable where
  name h := fun ⟨hs, x, hp, hx⟩ => ⟨hs, x, hp, hx.extend h.target.names⟩
  side _ _ := trivial
  extra _ h := h
  special _ h := h
  state h _ hs := fun ⟨hn, more, hm⟩ => by
    obtain ⟨more', hm'⟩ := h.target.names
    exact ⟨hs.trans hn, more ++ more', by rw [hm', hm, Array.append_assoc]⟩

theorem trimmed_plain (hp : p.Fit) (hk : p.Known) : (trimmed p gone).Plain fun _ => False where
  source := hp
  front := rfl
  back := rfl
  name {i node} ht hn _ s hs := by
    obtain ⟨x, hx⟩ := hk i node ht hn s hs
    exact Account.turns_keep rfl hx.1 fun w ⟨hnone, hmore⟩ => ⟨hnone, rfl, x, hx, hx.extend hmore⟩

theorem trimmed_handled : (trimmed p gone).Handled (fun _ => False) (within p) noHandlers where
  replaced _ _ h := nomatch h
  family _ _ _ h := nomatch h
  anew _ _ _ _ _ _ _ _ := trivial
  side _ _ _ _ _ _ _ _ := trivial

/-- Copying after elements were left out succeeds. -/
theorem copyModule_trims (hp : p.Fit) (hk : p.Known) (gone : NodeId → Bool) :
    ∃ (s : Session Empty Unit) (origin : NodeId → NodeId),
      Edit.copyModule (Edit.copy noHandlers) { Session.start p () with removed := gone } =
      .ok () s ∧ s.copied = true ∧
      s.target.Fit ∧ s.target.build.Counted ∧ s.target.build.Known ∧
      s.target.diagnostics = p.diagnostics.without .resolver ∧
      Program.Trims (gone · = true) origin p s.target.build := by
  have hstart :=
    Account.Holds.start (A := trimmed p gone) rfl rfl hp.named rfl (fun _ => rfl) (fun _ => rfl)
    (fun _ => rfl) (fun _ _ => nofun) ⟨rfl, #[], by simp [trimmed, Session.start]⟩
  obtain ⟨_, s, origin, hs, hw, hgrown, hcopied, hglobals⟩ := (Account.copyModule trimmed_stable
    (trimmed_plain hp hk) (reach_within hp) trimmed_handled (fun _ => within_global hp)
    (fun h => absurd h (by simp [trimmed, Session.start])) hstart).succeeds
  have hcount : s.target.build.Counted := hw.good.counted_build trivial
  have htraced := fun k => hw.traced_of_inTree (j := k) trivial hglobals (fun _ _ => ⟨rfl, rfl⟩)
    (fun _ h => h) fun h => h.elim
  have hlists : ∀ xs ys, (trimmed p gone).Lists (s, origin) xs ys →
      Program.ComeLists (gone · = true) origin xs ys :=
    fun xs ys h => h.listed.mono (fun _ h => h.2) fun _ _ h => h.imp_right fun h => ⟨h.1, h.2.1⟩
  refine ⟨s, origin, hs, hcopied, hw.good.toFit, hcount, ?_, hgrown.target.diagnostics,
    ?_, htraced, ?_⟩
  · intro j m hj hm x hx
    rw [Builder.node?_build, ← Builder.root_build] at hm
    split at hm
    · cases hm
      simp [Shape.names] at hx
    · next hr =>
      obtain ⟨_, ⟨_, _, m', _, hm', _, hrel⟩ | hd⟩ := hw.traced j ((htraced j hj).resolve_left hr)
      · cases hm.symm.trans hm'
        obtain ⟨_, _, _, y, _, hy⟩ := hrel.mem_names x hx
        exact ⟨y, hy⟩
      · exact hd.elim
  · intro k hk
    obtain ⟨htree, ⟨_, n, m, hn, hm, hspan, hrel⟩ | hd⟩ := hw.traced k hk
    · refine ⟨htree, n, m, hn, Builder.node?_build_of hm, hspan,
        hrel.mono ?_ (fun _ _ h => h.imp_right fun h => ⟨h.1, h.2.1⟩) hlists⟩
      rintro x y ⟨rfl, name, hx, hy⟩
      exact ⟨rfl, hx.nameFor.trans hy.nameFor.symm⟩
    · exact hd.elim
  · obtain ⟨ys, hys, _, hlist⟩ := hglobals trivial fun _ _ => ⟨rfl, rfl⟩
    rw [Builder.globals_build, hys]
    exact Listed.mono (hlist trivial) (fun _ h => h) fun _ _ h => h.imp_right fun h => ⟨h.1, h.2.1⟩

end Copy
end ShaderLoom
