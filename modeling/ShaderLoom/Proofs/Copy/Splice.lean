import ShaderLoom.Proofs.Copy.Plan
import ShaderLoom.Proofs.Copy.Rewrite

/-! The engine makes the rewritten tree. While a plan is carried out the target only grows, and what
is seen of a node that was made does not change; each part of the engine makes what the recursive
rewrite says of that part. -/
namespace ShaderLoom.Copy

section Engine

variable {p : Program} {b : Builder} {rs : List Rewrite} {α β : Type} {s t u : Session Empty Unit}

/-- The second session has more nodes in its target, and perhaps other declarations. -/
def Session.Taller (s t : Session Empty Unit) : Prop :=
  ∃ more gs, t =
    { s with target := { s.target with nodes := s.target.nodes ++ more, globals := gs } }

theorem Session.Taller.refl (s : Session Empty Unit) : s.Taller s :=
  ⟨#[], s.target.globals, by simp⟩

theorem Session.Taller.trans (h : s.Taller t) (h' : t.Taller u) : s.Taller u := by
  obtain ⟨more, _, rfl⟩ := h
  obtain ⟨more', gs, rfl⟩ := h'
  exact ⟨more ++ more', gs, by simp⟩

theorem Session.Taller.size_le (h : s.Taller t) : s.target.size ≤ t.target.size := by
  obtain ⟨more, gs, rfl⟩ := h
  simp [Arena.size]

theorem Session.Taller.node?_eq (h : s.Taller t) {j : NodeId} (hj : j ≤ s.target.size) :
    t.target.node? j = s.target.node? j := by
  obtain ⟨more, gs, rfl⟩ := h
  cases j with
  | zero => rfl
  | succ j => simp only [Arena.node?_succ, Array.getElem?_append_left (Nat.lt_of_succ_le hj)]

/-- A session in which a plan is carried out: only nodes and declarations were added to the target,
and what a new node holds was made before it. -/
structure Underway (p : Program) (b : Builder) (rs : List Rewrite) (s : Session Empty Unit) :
    Prop where
  session : ∃ more gs c, s = { planned p b rs with
    target := { b with nodes := b.nodes ++ more, globals := gs }, copied := c }
  below : ∀ j m, b.size < j → s.target.node? j = some m → ∀ c ∈ m.shape.slots, c < j

/-- What is seen of a node stays the same as the target grows. -/
theorem Underway.view_eq (hs : Underway p b rs s) (h : s.Taller t) (n : Nat) {j : NodeId}
    (hj : j ≤ s.target.size) :
    Tree.view t.target.toArena b.size n j = Tree.view s.target.toArena b.size n j := by
  induction n generalizing j with
  | zero => rfl
  | succ n ih =>
    simp only [Tree.view]
    split
    · rfl
    · next hlt =>
      rw [h.node?_eq hj]
      cases hm : s.target.node? j with
      | none => rfl
      | some m =>
        have hslot : ∀ c ∈ m.shape.slots, c ≤ s.target.size := fun c hc =>
          Nat.le_of_lt (Nat.lt_of_lt_of_le (hs.below j m (Nat.lt_of_not_le hlt) hm c hc) hj)
        refine congrArg (Tree.made m.span) (Shape.rebuild_congr (fun c hc => ih (hslot c hc)) ?_)
        intro k xs hxs
        refine List.map_congr_left fun c hc => ih (hslot c ?_)
        exact Shape.required_subset _ _ (Shape.mem_required_of_lists hxs _ hc)

/-- The step succeeds, only adds nodes to the target, and its answer satisfies `R`. New nodes have
numbers above `low`. -/
def Yields (p : Program) (b : Builder) (rs : List Rewrite) (low : Nat) (step : Edit Empty Unit α)
    (R : Builder → α → Prop) : Prop :=
  ∀ s, Underway p b rs s → low ≤ s.target.size →
    ∃ a t, step s = .ok a t ∧ Underway p b rs t ∧ s.Taller t ∧
      t.target.globals = s.target.globals ∧ R t.target a

/-- What holds of an answer holds as the target grows. -/
def Stable (p : Program) (b : Builder) (rs : List Rewrite) (R : Builder → Prop) : Prop :=
  ∀ s t, Underway p b rs s → s.Taller t → R s.target → R t.target

namespace Yields

variable {low : Nat}

theorem bind {step : Edit Empty Unit α} {next : α → Edit Empty Unit β} {R : Builder → α → Prop}
    {Q : Builder → β → Prop} (hR : ∀ a, Stable p b rs fun t => R t a) (h : Yields p b rs low step R)
    (hn : ∀ a, Yields p b rs low (next a) fun t y => R t a → Q t y) :
    Yields p b rs low (step >>= next) Q := by
  intro s hs hlow
  obtain ⟨a, t, hst, ht, hgrow, hg, ha⟩ := h s hs hlow
  obtain ⟨y, u, htu, hu, hgrow', hg', hy⟩ := hn a t ht (Nat.le_trans hlow hgrow.size_le)
  exact ⟨y, u, bind_ok.2 ⟨a, t, hst, htu⟩, hu, hgrow.trans hgrow', hg'.trans hg,
    hy (hR a t u ht hgrow' ha)⟩

/-- A step with a known answer comes first. -/
theorem bind_eq {step : Edit Empty Unit α} {next : α → Edit Empty Unit β} {a : α}
    {Q : Builder → β → Prop} (h : Yields p b rs low step fun _ x => x = a)
    (hn : Yields p b rs low (next a) Q) : Yields p b rs low (step >>= next) Q := by
  intro s hs hlow
  obtain ⟨_, t, hst, ht, hgrow, hg, rfl⟩ := h s hs hlow
  obtain ⟨y, u, htu, hu, hgrow', hg', hy⟩ := hn t ht (Nat.le_trans hlow hgrow.size_le)
  exact ⟨y, u, bind_ok.2 ⟨_, t, hst, htu⟩, hu, hgrow.trans hgrow', hg'.trans hg, hy⟩

theorem pure {a : α} {Q : Builder → α → Prop} (h : ∀ t, Q t a) :
    Yields p b rs low (Pure.pure a) Q :=
  fun s hs _ => ⟨a, s, rfl, hs, .refl s, rfl, h s.target⟩

theorem mono {step : Edit Empty Unit α} {R Q : Builder → α → Prop} (h : Yields p b rs low step R)
    (hq : ∀ t a, R t a → Q t a) : Yields p b rs low step Q := by
  intro s hs hlow
  obtain ⟨a, t, hst, ht, hgrow, hg, ha⟩ := h s hs hlow
  exact ⟨a, t, hst, ht, hgrow, hg, hq _ _ ha⟩

end Yields

/-- The node of the target is seen as a tree at each depth. -/
def SeenAs (b : Builder) (f : Nat → Tree) (t : Builder) (d : NodeId) : Prop :=
  d ≤ t.size ∧ ∀ n, Tree.view t.toArena b.size n d = f n

/-- And the same for lists of nodes. -/
def AllSeenAs (b : Builder) (f : Nat → List Tree) (t : Builder) (ds : List NodeId) : Prop :=
  (∀ d ∈ ds, d ≤ t.size) ∧ ∀ n, ds.map (Tree.view t.toArena b.size n) = f n

theorem SeenAs.stable (f : Nat → Tree) (d : NodeId) : Stable p b rs fun t => SeenAs b f t d :=
  fun _ _ hs h ⟨hd, hv⟩ => ⟨Nat.le_trans hd h.size_le, fun n => (hs.view_eq h n hd).trans (hv n)⟩

theorem AllSeenAs.stable (f : Nat → List Tree) (ds : List NodeId) :
    Stable p b rs fun t => AllSeenAs b f t ds :=
  fun _ _ hs h ⟨hd, hv⟩ => ⟨fun d hm => Nat.le_trans (hd d hm) h.size_le,
    fun n => (List.map_congr_left fun d hm => hs.view_eq h n (hd d hm)).trans (hv n)⟩

/-- Going through a shape makes the shape whose parts are seen as they should be. -/
theorem traverse_yields {low : Nat} {name : Symbol → Edit Empty Unit Symbol}
    {child : NodeId → Edit Empty Unit NodeId}
    {list : ListKind → List NodeId → Edit Empty Unit (List NodeId)} {f : Nat → NodeId → Tree}
    {l : Nat → ListKind → List NodeId → List Tree} {sh : Shape Symbol NodeId}
    (hname : ∀ x, Yields p b rs low (name x) fun _ y => y = x)
    (hchild : ∀ c ∈ sh.slots, Yields p b rs low (child c) (SeenAs b (f · c)))
    (hlist : ∀ k, ∀ xs ∈ sh.lists, Yields p b rs low (list k xs) (AllSeenAs b (l · k xs))) :
    Yields p b rs low (sh.traverse name child list) fun t sh' =>
      (∀ c ∈ sh'.slots, c ≤ t.size) ∧
      ∀ n, sh'.rebuild (Tree.view t.toArena b.size n)
        (fun _ => List.map (Tree.view t.toArena b.size n)) =
        sh.rebuild (f n) (l n) := by
  rcases sh with (_ | _ | _ | _ | _ | _ | _ | _ | _ | _ | _) |
    (_ | _ | _ | _ | _ | _ | _ | _ | _) |
    (_ | _ | _ | _ | _ | _ | _ | _ | _ | _ | _ | _ | _) |
    (_ | _ | _ | _) | _ | (_ | _ | _ | _ | _ | _ | _) | _
  all_goals
    simp only [Shape.traverse]
    repeat first
      | refine .bind (fun _ => SeenAs.stable _ _) (hchild _ (by simp [Shape.slots])) fun _ => ?_
      | refine .bind_eq (hname _) ?_
      | refine .bind (fun _ => AllSeenAs.stable _ _) (hlist _ _ (by simp [Shape.lists])) fun _ => ?_
    refine .pure fun t => ?_
    simp +contextual [SeenAs, AllSeenAs, Shape.slots, Shape.rebuild, Shape.traverse, or_imp]

/-- The copy of a list element is taken up unless it is left out or is nothing. -/
def takeCopy (copy : NodeId → Edit Empty Unit NodeId) (yield : β → NodeId → Edit Empty Unit β)
    (c : NodeId) (y : β) : Edit Empty Unit β := do
  if (← get).removed c then pure y else do
    let d ← copy c
    if d = 0 then pure y else yield y d

theorem foldElements_cons (copy : NodeId → Edit Empty Unit NodeId)
    (yield : β → NodeId → Edit Empty Unit β) (c : NodeId) (cs : List NodeId) (y : β) :
    Edit.foldElements copy yield (c :: cs) y = (do
      let y ← ((← get).before c).foldlM yield y
      let y ← takeCopy copy yield c y
      let y ← ((← get).after c).foldlM yield y
      Edit.foldElements copy yield cs y) := by
  rw [Edit.foldElements]
  simp only [takeCopy, bind_assoc, pure_bind]
  refine bind_congr fun s => bind_congr fun y => bind_congr fun s => ?_
  split
  · rfl
  · simp only [bind_assoc]
    refine bind_congr fun d => ?_
    split <;> simp

/-- Symbols have no rule and no replacement, and so they are kept. -/
theorem copySymbol_yields (low : Nat) (x : Symbol) :
    Yields p b rs low (Edit.copySymbol x) fun _ y => y = x := by
  intro s hs _
  obtain ⟨more, gs, c, rfl⟩ := hs.session
  refine ⟨x, _, ?_, hs, .refl _, rfl, rfl⟩
  unfold Edit.copySymbol
  split <;> rfl

/-- What the rewrites put somewhere was in the target. -/
theorem inserted_mem (hall : ∀ r ∈ rs, r.Allowed p b) {side : Side} {i t : NodeId}
    (ht : t ∈ Rewrite.inserted rs side i) : 0 < t ∧ t ≤ b.size := by
  obtain ⟨r, hr, hrt⟩ := List.mem_filterMap.1 ht
  have hin : ∀ k, fits p b i k t = true → InTarget b t := by
    intro k hk
    simp only [fits, Option.any_eq_true, Bool.and_eq_true] at hk
    obtain ⟨_, _, _, m, hm, _⟩ := hk
    simp only [Arena.shape?, Option.map_eq_some_iff] at hm
    obtain ⟨m, hm, _⟩ := hm
    exact Option.isSome_iff_exists.2 ⟨m, hm⟩
  refine Arena.node?_isSome_iff.1 (?_ : InTarget b t)
  have hallowed := hall r hr
  cases r with
  | insert d j t' =>
    simp only [Rewrite.insertion?, Option.ite_none_right_eq_some, Option.some.injEq] at hrt
    obtain ⟨⟨rfl, rfl⟩, rfl⟩ := hrt
    cases d with
    | before | after => exact hallowed.2
    | front | back => exact hallowed.2.elim hin
  | _ => cases hrt

theorem replaced_le (hall : ∀ r ∈ rs, r.Allowed p b) {i t : NodeId}
    (ht : Rewrite.replaced rs i = some t) : t ≤ b.size := by
  obtain ⟨r, hr, hrt⟩ := List.exists_of_findSome?_eq_some ht
  have hallowed := hall r hr
  cases r with
  | replace j t' =>
    simp only [Rewrite.replacement?, Option.ite_none_right_eq_some, Option.some.injEq] at hrt
    obtain ⟨rfl, rfl⟩ := hrt
    by_cases h0 : t' = 0
    · exact h0 ▸ Nat.zero_le _
    · exact (Arena.node?_isSome_iff.1 (hallowed.2 h0)).2
  | _ => cases hrt

/-- Nodes of which the new ones stand in the order in which they were made. -/
structure Fresh (base low high : Nat) (ds : List NodeId) : Prop where
  present : ∀ d ∈ ds, d ≠ 0
  order : (ds.filter (base < ·)).Pairwise (· < ·)
  above : ∀ d ∈ ds, base < d → low < d ∧ d ≤ high

theorem Fresh.append {base low mid high : Nat} {ds es : List NodeId} (h : Fresh base low mid ds)
    (h' : Fresh base mid high es) (hlow : low ≤ mid) (hhigh : mid ≤ high) :
    Fresh base low high (ds ++ es) where
  present d hd := (List.mem_append.1 hd).elim (h.present d) (h'.present d)
  order := by
    rw [List.filter_append, List.pairwise_append]
    refine ⟨h.order, h'.order, fun d hd e he => ?_⟩
    simp only [List.mem_filter, decide_eq_true_eq] at hd he
    exact Nat.lt_of_le_of_lt (h.above d hd.1 hd.2).2 (h'.above e he.1 he.2).1
  above d hd hb := by
    rcases List.mem_append.1 hd with hd | hd
    · exact ⟨(h.above d hd hb).1, Nat.le_trans (h.above d hd hb).2 hhigh⟩
    · exact ⟨Nat.lt_of_le_of_lt hlow (h'.above d hd hb).1, (h'.above d hd hb).2⟩

theorem Fresh.nil {base low high : Nat} : Fresh base low high [] :=
  ⟨by simp, .nil, by simp⟩

theorem Fresh.one {base low high d : Nat} (h0 : d ≠ 0) (h : base < d → low < d ∧ d ≤ high) :
    Fresh base low high [d] where
  present e he := List.mem_singleton.1 he ▸ h0
  order := List.Pairwise.sublist List.filter_sublist (List.pairwise_singleton _ _)
  above e he hb := by
    rw [List.mem_singleton.1 he] at hb ⊢
    exact h hb

section Lists

variable {acc : Builder → β → List NodeId → Prop} {yield : β → NodeId → Edit Empty Unit β}

/-- A way to take up nodes one by one: `acc` says what is so once some nodes were taken up. -/
structure Collects (p : Program) (b : Builder) (rs : List Rewrite)
    (acc : Builder → β → List NodeId → Prop) (yield : β → NodeId → Edit Empty Unit β) : Prop where
  stable : ∀ (s t : Session Empty Unit) y ds, s.Taller t → t.target.globals = s.target.globals →
    acc s.target y ds →
    acc t.target y ds
  take : ∀ (s : Session Empty Unit) y ds d, Underway p b rs s → acc s.target y ds →
    ∃ y' t, yield y d s = .ok y' t ∧
    Underway p b rs t ∧ s.Taller t ∧ t.target.size = s.target.size ∧ acc t.target y' (ds ++ [d])

/-- The step takes up nodes that are seen as it is said. -/
def Collected (p : Program) (b : Builder) (rs : List Rewrite)
    (acc : Builder → β → List NodeId → Prop) (step : β → Edit Empty Unit β) (f : Nat → List Tree) :
    Prop :=
  ∀ s y ds, Underway p b rs s → acc s.target y ds → ∃ y' t es, step y s = .ok y' t ∧
    Underway p b rs t ∧ s.Taller t ∧ acc t.target y' (ds ++ es) ∧ AllSeenAs b f t.target es ∧
    Fresh b.size s.target.size t.target.size es

theorem Collected.bind {step next : β → Edit Empty Unit β} {f g : Nat → List Tree}
    (h : Collected p b rs acc step f) (h' : Collected p b rs acc next g) :
    Collected p b rs acc (fun y => step y >>= next) fun n => f n ++ g n := by
  intro s y ds hs hacc
  obtain ⟨y₁, t, es, hst, ht, hgrow, hacc₁, hseen, hfresh⟩ := h s y ds hs hacc
  obtain ⟨y₂, u, es', htu, hu, hgrow', hacc₂, hseen', hfresh'⟩ := h' t y₁ _ ht hacc₁
  obtain ⟨hle, hview⟩ := AllSeenAs.stable f es t u ht hgrow' hseen
  refine ⟨y₂, u, es ++ es', bind_ok.2 ⟨y₁, t, hst, htu⟩, hu, hgrow.trans hgrow', ?_,
    ⟨?_, fun n => ?_⟩, hfresh.append hfresh' hgrow.size_le hgrow'.size_le⟩
  · rwa [← List.append_assoc]
  · intro d hd
    exact (List.mem_append.1 hd).elim (hle d) (hseen'.1 d)
  · rw [List.map_append, hview n, hseen'.2 n]

/-- A step that first looks at the tables. -/
theorem Collected.look {step : Session Empty Unit → β → Edit Empty Unit β}
    {next : β → Edit Empty Unit β} {f : Nat → List Tree}
    (hk : ∀ s, Underway p b rs s → step s = next) (h : Collected p b rs acc next f) :
    Collected p b rs acc (fun y => get >>= fun s => step s y) f := by
  intro s y ds hs hacc
  obtain ⟨y', t, es, hst, h⟩ := h s y ds hs hacc
  have hstep : (get >>= fun s => step s y) s = next y s := by rw [get_bind, hk s hs]
  exact ⟨y', t, es, hstep.trans hst, h⟩

theorem Collected.pure : Collected p b rs acc Pure.pure fun _ => [] :=
  fun s y ds hs hacc =>
    ⟨y, s, [], rfl, hs, .refl s, by simpa using hacc, ⟨by simp, fun _ => rfl⟩, .nil⟩

theorem Collected.one (hc : Collects p b rs acc yield) {d : NodeId} (h0 : d ≠ 0) (hd : d ≤ b.size) :
    Collected p b rs acc (yield · d) fun _ => [.given d] := by
  intro s y ds hs hacc
  obtain ⟨y', t, hst, ht, hgrow, hsize, hacc'⟩ := hc.take s y ds d hs hacc
  obtain ⟨more, gs, c, rfl⟩ := hs.session
  refine ⟨y', t, [d], hst, ht, hgrow, hacc', ⟨?_, fun n => ?_⟩,
    .one h0 fun hb => absurd hd (Nat.not_le.2 hb)⟩
  · intro e he
    rw [List.mem_singleton.1 he]
    refine Nat.le_trans hd (Nat.le_trans ?_ hgrow.size_le)
    simp [Arena.size]
  · simp [Tree.view_given hd, Tree.ofGiven, h0]

theorem Collected.givens (hc : Collects p b rs acc yield) {xs : List NodeId}
    (hx : ∀ x ∈ xs, 0 < x ∧ x ≤ b.size) :
    Collected p b rs acc (fun y => xs.foldlM yield y) fun _ => xs.map .given := by
  induction xs with
  | nil => exact .pure
  | cons x xs ih =>
    have hone := Collected.one hc (Nat.ne_of_gt (hx x (by simp)).1) (hx x (by simp)).2
    exact hone.bind (ih fun y hy => hx y (by simp [hy]))

variable {copy : NodeId → Edit Empty Unit NodeId}

/-- What is known of the copy of a node. -/
structure Copied (p : Program) (b : Builder) (rs : List Rewrite) (c : NodeId) (low : Nat)
    (t : Builder) (d : NodeId) : Prop where
  seen : SeenAs b (rewritten p b rs · c) t d
  fresh : b.size < d → low < d
  absent : d = 0 ↔ vanishes rs c = true

def Copies (p : Program) (b : Builder) (rs : List Rewrite) (copy : NodeId → Edit Empty Unit NodeId)
    (c : NodeId) : Prop :=
  ∀ low, Yields p b rs low (copy c) (Copied p b rs c low)

theorem Collected.takeCopy (hc : Collects p b rs acc yield) {c : NodeId}
    (h : Copies p b rs copy c) :
    Collected p b rs acc (takeCopy copy yield c) fun n =>
      if Rewrite.removed rs c || vanishes rs c then [] else [rewritten p b rs n c] := by
  intro s y ds hs hacc
  have hremoved : s.removed c = Rewrite.removed rs c := by
    obtain ⟨more, gs, k, rfl⟩ := hs.session
    rfl
  unfold Copy.takeCopy
  rw [get_bind, hremoved]
  by_cases hr : Rewrite.removed rs c = true
  · refine ⟨y, s, [], by rw [if_pos hr]; rfl, hs, .refl s, by simpa using hacc, ⟨by simp, ?_⟩, .nil⟩
    simp [hr]
  rw [if_neg hr]
  obtain ⟨d, t, hst, ht, hgrow, hg, hd⟩ := h s.target.size s hs (Nat.le_refl _)
  have hacc' := hc.stable s t y ds hgrow hg hacc
  by_cases h0 : d = 0
  · refine ⟨y, t, [], bind_ok.2 ⟨d, t, hst, ?_⟩, ht, hgrow, by simpa using hacc', ⟨by simp, ?_⟩,
      .nil⟩
    · rw [if_pos h0]
      rfl
    · simp [hd.absent.1 h0]
  · have hv : ¬ vanishes rs c = true := fun hv => h0 (hd.absent.2 hv)
    obtain ⟨y', u, htu, hu, hgrow', hsize, hacc''⟩ := hc.take t y ds d ht hacc'
    obtain ⟨hle, hview⟩ := SeenAs.stable _ d t u ht hgrow' hd.seen
    refine ⟨y', u, [d], bind_ok.2 ⟨d, t, hst, ?_⟩, hu, hgrow.trans hgrow', hacc'', ⟨?_, ?_⟩,
      .one h0 fun hb => ⟨hd.fresh hb, hle⟩⟩
    · rwa [if_neg h0]
    · simpa using hle
    · simp [hr, hv, hview]

variable (hall : ∀ r ∈ rs, r.Allowed p b)
include hall

/-- The elements of a list with what is put next to them. -/
theorem Collected.elements (hc : Collects p b rs acc yield) {ids : List NodeId}
    (h : ∀ c ∈ ids, Copies p b rs copy c) :
    Collected p b rs acc (Edit.foldElements copy yield ids) fun n =>
      ids.flatMap (rewrittenElement rs (rewritten p b rs n)) := by
  induction ids with
  | nil => exact .pure
  | cons c cs ih =>
    have hbefore : Collected p b rs acc (fun y => do ((← get).before c).foldlM yield y)
        fun _ => (Rewrite.inserted rs .before c).map .given := by
      refine .look (fun s hs => ?_) (.givens hc fun x hx => inserted_mem hall hx)
      obtain ⟨more, gs, k, rfl⟩ := hs.session
      rfl
    have hafter : Collected p b rs acc (fun y => do ((← get).after c).foldlM yield y)
        fun _ => (Rewrite.inserted rs .after c).map .given := by
      refine .look (fun s hs => ?_) (.givens hc fun x hx => inserted_mem hall hx)
      obtain ⟨more, gs, k, rfl⟩ := hs.session
      rfl
    have hown := Collected.takeCopy hc (h c (by simp))
    have hrest := ih fun d hd => h d (by simp [hd])
    have hsteps := hbefore.bind (hown.bind (hafter.bind hrest))
    have hfun : Edit.foldElements copy yield (c :: cs) = _ :=
      funext (foldElements_cons copy yield c cs)
    rw [hfun]
    simpa only [List.flatMap_cons, rewrittenElement, List.append_assoc, bind_assoc] using hsteps

/-- A whole list with what is put at its ends. -/
theorem Collected.list (hc : Collects p b rs acc yield) {ids : List NodeId}
    (h : ∀ c ∈ ids, Copies p b rs copy c) (owner : NodeId) (k : ListKind) :
    Collected p b rs acc (Edit.foldList copy yield owner k ids) fun n =>
      rewrittenList p b rs (rewritten p b rs n) owner k ids := by
  have hfront : Collected p b rs acc (fun y => do ((← get).front owner k).foldlM yield y)
      fun _ => ((Rewrite.inserted rs .front owner).filter (fits p b owner k)).map .given := by
    refine .look (fun s hs => ?_)
      (.givens hc fun x hx => inserted_mem hall (List.mem_filter.1 hx).1)
    obtain ⟨more, gs, k, rfl⟩ := hs.session
    rfl
  have hback : Collected p b rs acc (fun y => do ((← get).back owner k).foldlM yield y)
      fun _ => ((Rewrite.inserted rs .back owner).filter (fits p b owner k)).map .given := by
    refine .look (fun s hs => ?_)
      (.givens hc fun x hx => inserted_mem hall (List.mem_filter.1 hx).1)
    obtain ⟨more, gs, k, rfl⟩ := hs.session
    rfl
  have hsteps := hfront.bind ((Collected.elements hall hc h).bind hback)
  simp only [bind_assoc] at hsteps
  simp only [rewrittenList, List.append_assoc]
  exact hsteps

/-- A copied list. -/
theorem copyListOf_yields {ids : List NodeId} (h : ∀ c ∈ ids, Copies p b rs copy c) (owner : NodeId)
    (k : ListKind) (low : Nat) :
    Yields p b rs low (Edit.copyListOf copy owner k ids)
      (AllSeenAs b fun n => rewrittenList p b rs (rewritten p b rs n) owner k ids) := by
  intro s hs _
  have hc : Collects p b rs (fun t out ds => out = ds ∧ t.globals = s.target.globals)
      (fun out d => Pure.pure (out ++ [d])) := by
    refine ⟨fun u t out ds hgrow hg h => ⟨h.1, hg.trans h.2⟩, fun u out ds d hu h => ?_⟩
    exact ⟨out ++ [d], u, rfl, hu, .refl u, rfl, by rw [h.1], h.2⟩
  obtain ⟨out, t, es, hst, ht, hgrow, ⟨hout, hg⟩, hseen, _⟩ :=
    Collected.list hall hc h owner k s [] [] hs ⟨rfl, rfl⟩
  exact ⟨out, t, hst, ht, hgrow, hg, by rwa [hout]⟩

end Lists

/-- A new node whose children are in the target. -/
theorem push_underway (hs : Underway p b rs s) {sh : Shape Symbol NodeId} (span : Span)
    (hslots : ∀ c ∈ sh.slots, c ≤ s.target.size) :
    ∃ t, Edit.build (Build.push sh span) s = .ok (s.target.size + 1) t ∧
      Underway p b rs t ∧ s.Taller t ∧
      t.target.globals = s.target.globals ∧ t.target.size = s.target.size + 1 ∧
      t.target.node? (s.target.size + 1) = some ⟨sh, if span.valid then span else b.span⟩ := by
  obtain ⟨more, gs, c, hsession⟩ := hs.session
  have hspan : s.target.span = b.span := by rw [hsession]
  have hgrow : s.Taller { s with target := (s.target.push sh span).2 } :=
    ⟨#[⟨sh, if span.valid then span else s.target.span⟩], s.target.globals, by
      simp [Builder.push]⟩
  refine ⟨{ s with target := (s.target.push sh span).2 }, rfl, ⟨?_, ?_⟩, hgrow, rfl, ?_, ?_⟩
  · refine ⟨more.push ⟨sh, if span.valid then span else b.span⟩, gs, c, ?_⟩
    rw [hsession]
    simp [Builder.push, Array.push_append]
  · intro j m hj hm c hc
    by_cases hle : j ≤ s.target.size
    · rw [hgrow.node?_eq hle] at hm
      exact hs.below j m hj hm c hc
    · have hsize : j ≤ s.target.size + 1 := by
        simpa [Builder.push, Arena.size] using (Arena.range_of_node? hm).2
      obtain rfl : j = s.target.size + 1 := by omega
      simp only [Builder.push, Arena.node?_succ, Arena.size, Array.getElem?_push_size,
        Option.some.injEq] at hm
      subst hm
      exact Nat.lt_succ_of_le (hslots c hc)
  · simp [Builder.push, Arena.size]
  · simp [Builder.push, Arena.size, hspan]

section Tree

variable (hp : p.TreeShaped) (hmodule : ∀ i gs, p.inTree i = true → p.shape? i = some (.module gs) →
    i = p.root)
  (hall : ∀ r ∈ rs, r.Allowed p b)
include hp hmodule hall

/-- A node made anew from the copies of its parts. -/
theorem copyParts_yields {copy : NodeId → Edit Empty Unit NodeId} {i : NodeId} {m : Node}
    (hi : p.inTree i = true) (hr : i ≠ p.root) (hm : p.node? i = some m)
    (hnone : Rewrite.replaced rs i = none) (hcopy : ∀ c ∈ m.shape.slots, Copies p b rs copy c)
    (low : Nat) : Yields p b rs low (Edit.copyParts copy i m) (Copied p b rs i low) := by
  have h0 : i ≠ 0 := Nat.ne_of_gt (hp.range hi hr).1
  have hshape : ∀ gs, m.shape ≠ .module gs := by
    intro gs hgs
    exact hr (hmodule i gs hi (by simp [Arena.shape?, hm, hgs]))
  unfold Edit.copyParts
  split
  · next gs hgs => exact absurd hgs (hshape gs)
  · intro s hs hlow
    have hlist : ∀ k, ∀ xs ∈ m.shape.lists, Yields p b rs low (Edit.copyListOf copy i k xs)
        (AllSeenAs b fun n => rewrittenList p b rs (rewritten p b rs n) i k xs) := by
      refine fun k xs hxs => copyListOf_yields hall (fun c hc => hcopy c ?_) i k low
      exact Shape.required_subset _ _ (Shape.mem_required_of_lists hxs _ hc)
    obtain ⟨sh, t, hst, ht, hgrow, hg, hslots, hrebuild⟩ :=
      traverse_yields (f := rewritten p b rs)
        (l := fun n => rewrittenList p b rs (rewritten p b rs n) i)
        (copySymbol_yields low) (fun c hc => (hcopy c hc low).mono fun _ _ h => h.seen)
          hlist s hs hlow
    obtain ⟨u, htu, hu, hgrow', hg', hsize, hnode⟩ := push_underway ht m.span hslots
    have hbase : b.size ≤ t.target.size := by
      obtain ⟨more, gs, c, rfl⟩ := ht.session
      simp [Arena.size]
    refine ⟨_, u, bind_ok.2 ⟨sh, t, hst, htu⟩, hu, hgrow.trans hgrow', hg'.trans hg, ?_⟩
    have hfixed : fixed? rs i = none := by simp [fixed?, h0, hnone]
    refine ⟨⟨Nat.le_of_eq hsize.symm, fun n => ?_⟩, fun _ => ?_, ?_⟩
    · cases n with
      | zero => simp [Tree.view, rewritten, hfixed, Nat.not_le.2 (Nat.lt_succ_of_le hbase)]
      | succ n =>
        simp only [Tree.view, rewritten, hfixed, hnode, hm, Option.getD_none,
          if_neg (Nat.not_le.2 (Nat.lt_succ_of_le hbase)), ← hrebuild n]
        refine congrArg (Tree.made _) (Shape.rebuild_congr (fun c hc => ?_) fun k xs hxs => ?_)
        · exact ht.view_eq hgrow' n (hslots c hc)
        · refine List.map_congr_left fun c hc => ht.view_eq hgrow' n (hslots c ?_)
          exact Shape.required_subset _ _ (Shape.mem_required_of_lists hxs _ hc)
    · exact Nat.lt_succ_of_le (Nat.le_trans hlow hgrow.size_le)
    · simp [vanishes, h0, hnone]

/-- The engine makes the rewritten tree of every node that is deep enough for the depth left. -/
theorem copyTo_copies {rank : NodeId → Nat} (hle : ∀ i, p.inTree i = true → rank i ≤ p.size + 2)
    (hlt : ∀ i c, p.inTree i = true → c ∈ p.children i → rank i < rank c) (n : Nat) {i : NodeId}
    (hn : 0 < n) (hi : i ≠ 0 → p.inTree i = true ∧ i ≠ p.root ∧ p.size + 4 ≤ n + rank i) :
    Copies p b rs (Edit.copyTo noHandlers n) i := by
  induction n generalizing i with
  | zero => exact absurd hn (Nat.lt_irrefl 0)
  | succ n ih =>
    intro low
    change Yields p b rs low (Edit.copyStep noHandlers (Edit.copyTo noHandlers n) i) _
    unfold Edit.copyStep
    by_cases h0 : i = 0
    · subst h0
      rw [if_pos rfl]
      refine .pure fun t =>
        ⟨⟨Nat.zero_le _, fun n => ?_⟩, fun h => absurd h (Nat.not_lt_zero _), ?_⟩
      · rw [Tree.view_given (Nat.zero_le _)]
        cases n <;> simp [rewritten, fixed?, Tree.ofGiven]
      · simp [vanishes]
    rw [if_neg h0]
    obtain ⟨ht, hr, hdeep⟩ := hi h0
    obtain ⟨m, hm⟩ := Option.isSome_iff_exists.1 (Arena.node?_isSome_iff.2 (hp.range ht hr))
    intro s hs hlow
    have hsource : s.source = p := by
      obtain ⟨more, gs, c, rfl⟩ := hs.session
      rfl
    have hcheck : Edit.checkSource i s = .ok m s :=
      checkSource_ok.2 ⟨hsource ▸ hm, hsource ▸ ht, rfl⟩
    have hreplacements : s.replacements i = (Rewrite.replaced rs i).map .fixed := by
      obtain ⟨more, gs, c, rfl⟩ := hs.session
      rfl
    have hhandlers : s.handlers = [] := by
      obtain ⟨more, gs, c, rfl⟩ := hs.session
      rfl
    cases hrep : Rewrite.replaced rs i with
    | some t =>
      have hbase : t ≤ b.size := replaced_le hall hrep
      refine ⟨t, s, bind_ok.2 ⟨m, s, hcheck, ?_⟩, hs, .refl s, rfl, ⟨?_, fun n => ?_⟩, ?_, ?_⟩
      · simp only [get_bind, hreplacements, hrep, Option.map_some]
        rfl
      · obtain ⟨more, gs, c, rfl⟩ := hs.session
        exact Nat.le_trans hbase (by simp [Arena.size])
      · rw [Tree.view_given hbase]
        cases n <;> simp [rewritten, fixed?, h0, hrep]
      · exact fun h => absurd h (Nat.not_lt.2 hbase)
      · simp [vanishes, h0, hrep]
    | none =>
      have hchild : ∀ c ∈ m.shape.slots, Copies p b rs (Edit.copyTo noHandlers n) c := by
        intro c hc
        have hrank := hle i ht
        refine ih (by omega) fun hc0 => ?_
        have hmem : c ∈ p.children i := Arena.mem_children.2 ⟨m, hm, hc, hc0⟩
        have := hlt i c ht hmem
        exact ⟨hp.inTree_child ht hmem, hp.ne_root ht hmem, by omega⟩
      obtain ⟨d, t, hst, h⟩ := copyParts_yields hp hmodule hall ht hr hm hrep hchild low s hs hlow
      refine ⟨d, t, bind_ok.2 ⟨m, s, hcheck, ?_⟩, h⟩
      simp only [get_bind, hreplacements, hrep, hhandlers, Option.map_none, List.find?_nil]
      exact hst

/-- The engine's own bound is enough for every node that the module holds. -/
theorem copy_copies {i : NodeId} (hi : i ≠ 0 → p.inTree i = true ∧ i ≠ p.root) :
    Copies p b rs (Edit.copy noHandlers) i := by
  obtain ⟨rank, hle, hlt⟩ := hp.ranked
  intro low s hs hlow
  have hsource : s.source = p := by
    obtain ⟨more, gs, c, rfl⟩ := hs.session
    rfl
  have hcopies : Copies p b rs (Edit.copyTo noHandlers (2 * p.size + 2)) i := by
    refine copyTo_copies hp hmodule hall hle hlt _ (by omega) fun h0 => ?_
    obtain ⟨hin, hr⟩ := hi h0
    obtain ⟨j, hj, hmem⟩ := hp.exists_parent hin hr
    have hrank := hlt _ _ hj hmem
    have hsize : 0 < p.size := Nat.lt_of_lt_of_le (hp.range hin hr).1 (hp.range hin hr).2
    exact ⟨hin, hr, by omega⟩
  obtain ⟨d, t, hst, h⟩ := hcopies low s hs hlow
  refine ⟨d, t, ?_, h⟩
  unfold Edit.copy
  rw [get_bind, hsource]
  exact hst

end Tree

/-- Nodes of which each stands at its first place only, and that were not known before. -/
def firsts : List NodeId → List NodeId → List NodeId
  | _, [] => []
  | seen, d :: ds => if d ∈ seen then firsts seen ds else d :: firsts (d :: seen) ds

theorem firsts_append (seen ds : List NodeId) (d : NodeId) :
    firsts seen (ds ++ [d]) = firsts seen ds ++ if d ∈ seen ∨ d ∈ ds then [] else [d] := by
  induction ds generalizing seen with
  | nil => by_cases h : d ∈ seen <;> simp [firsts, h]
  | cons e ds ih =>
    simp only [List.cons_append, firsts]
    split
    · next he =>
      rw [ih]
      by_cases hd : d = e
      · simp [hd, he]
      · simp [hd]
    · rw [ih]
      simp only [List.mem_cons, List.cons_append, or_assoc, or_left_comm]

/-- Nodes of the target stand once where the trees that are seen are declared once. -/
theorem map_firsts {a : Arena} {base low high : Nat} {ds seen known : List NodeId} (n : Nat)
    (hf : Fresh base low high ds) (hseen : ∀ d, d ≤ base → (d ∈ seen ↔ d ∈ known))
    (hnew : ∀ d ∈ ds, base < d → d ∉ seen) :
    (firsts seen ds).map (Tree.view a base n) =
    declareOnce known (ds.map (Tree.view a base n)) := by
  induction ds generalizing seen known with
  | nil => rfl
  | cons d ds ih =>
    have hrest : Fresh base low high ds :=
      ⟨fun e he => hf.present e (by simp [he]),
        hf.order.sublist ((List.sublist_cons_self d ds).filter _),
        fun e he => hf.above e (by simp [he])⟩
    simp only [firsts, List.map_cons]
    by_cases hd : d ≤ base
    · rw [Tree.view_given hd, Tree.ofGiven, if_neg (hf.present d (by simp)), declareOnce]
      by_cases hm : d ∈ seen
      · rw [if_pos hm, if_pos ((hseen d hd).1 hm)]
        exact ih hrest hseen fun e he => hnew e (by simp [he])
      · rw [if_neg hm, if_neg fun h => hm ((hseen d hd).2 h), List.map_cons, Tree.view_given hd,
          Tree.ofGiven, if_neg (hf.present d (by simp))]
        refine congrArg _ (ih hrest (fun e he => ?_) fun e he hb => ?_)
        · simp [hseen e he]
        · simp only [List.mem_cons, not_or]
          exact ⟨fun h => Nat.not_lt.2 hd (h ▸ hb), hnew e (by simp [he]) hb⟩
    · have hb := Nat.lt_of_not_le hd
      have honce : declareOnce known (Tree.view a base n d :: ds.map (Tree.view a base n)) =
          Tree.view a base n d :: declareOnce known (ds.map (Tree.view a base n)) := by
        cases hv : Tree.view a base n d with
        | given x => exact absurd hv (Tree.view_ne_given hb x)
        | _ => rfl
      rw [if_neg (hnew d (by simp) hb), honce, List.map_cons]
      refine congrArg _ (ih hrest (fun e he => ?_) fun e he hbe => ?_)
      · simp only [List.mem_cons, hseen e he, or_iff_right_iff_imp]
        exact fun h => absurd he (Nat.not_le.2 (h ▸ hb))
      · have horder := hf.order
        rw [List.filter_cons_of_pos (by simpa using hb), List.pairwise_cons] at horder
        have hlt : d < e := horder.1 e (by simp [he, hbe])
        simp only [List.mem_cons, not_or]
        exact ⟨fun h => Nat.lt_irrefl d (h ▸ hlt), hnew e (by simp [he]) hbe⟩

theorem addOnce_collects : Collects p b rs
    (fun t seen ds => t.globals = b.globals ++ firsts b.globals ds ∧
      ∀ x, x ∈ seen ↔ x ∈ b.globals ∨ x ∈ ds) Edit.addOnce where
  stable _ _ _ _ _ hg h := ⟨hg.trans h.1, h.2⟩
  take s seen ds d hs h := by
    obtain ⟨hg, hseen⟩ := h
    unfold Edit.addOnce
    by_cases hd : d ∈ seen
    · have hknown := (hseen d).1 hd
      refine ⟨seen, s, ?_, hs, .refl s, rfl, ?_, fun x => ?_⟩
      · rw [if_pos (by simpa using hd)]
        rfl
      · rw [hg, firsts_append, if_pos hknown, List.append_nil]
      · have : x = d → (x ∈ b.globals ∨ x ∈ ds) := fun he => he ▸ hknown
        rw [hseen, List.mem_append, List.mem_singleton]
        grind
    · have hnew : ¬ (d ∈ b.globals ∨ d ∈ ds) := fun h => hd ((hseen d).2 h)
      refine ⟨d :: seen, { s with target := { s.target with globals := s.target.globals ++ [d] } },
        ?_, ⟨?_, hs.below⟩, ⟨#[], s.target.globals ++ [d], by simp⟩, rfl, ?_, fun x => ?_⟩
      · rw [if_neg (by simpa using hd)]
        rfl
      · obtain ⟨more, gs, c, hsession⟩ := hs.session
        exact ⟨more, s.target.globals ++ [d], c, by rw [hsession]⟩
      · rw [hg, firsts_append, if_neg hnew, List.append_assoc]
      · simp only [List.mem_cons, hseen, List.mem_append, List.not_mem_nil, or_false]
        grind

end Engine

/-- A plan is underway before anything was copied. -/
theorem underway_planned (p : Program) (b : Builder) (rs : List Rewrite) (c : Bool) :
    Underway p b rs { planned p b rs with copied := c } :=
  ⟨⟨#[], b.globals, c, by simp [planned]⟩,
    fun _ _ hj hm => absurd (Arena.range_of_node? hm).2 (Nat.not_le.2 hj)⟩

/-- The module's list is seen as the rewritten list of the source, where each node is declared
once. -/
theorem copyModule_declares {p : Program} (hp : p.TreeShaped)
    (hmodule : ∀ i gs, p.inTree i = true → p.shape? i = some (.module gs) → i = p.root)
    {b : Builder} (hb : ∀ g ∈ b.globals, g ≤ b.size) {rs : List Rewrite}
    (hall : ∀ r ∈ rs, r.Allowed p b) :
    ∃ t more new, Edit.copyModule (Edit.copy noHandlers) (planned p b rs) = .ok () t ∧
      t.target = { b with nodes := b.nodes ++ more, globals := b.globals ++ new } ∧
      ∀ n, new.map (Tree.view t.target.toArena b.size n) =
        declareOnce b.globals (rewrittenModule p b rs n) := by
  have hcopy : ∀ g ∈ p.globals, Copies p b rs (Edit.copy noHandlers) g := fun g hg =>
    copy_copies hp hmodule hall fun h0 =>
      have hmem := Program.TreeShaped.mem_children_root hg h0
      ⟨hp.inTree_child p.inTree_root hmem, hp.ne_root p.inTree_root hmem⟩
  obtain ⟨seen, t, es, hst, ht, hgrow, ⟨hg, _⟩, hseen, hfresh⟩ :=
    Collected.list hall addOnce_collects hcopy p.root .globals _ b.globals
      [] (underway_planned p b rs true)
      ⟨by simp [planned, firsts], by simp⟩
  obtain ⟨more, gs, c, hsession⟩ := ht.session
  refine ⟨t, more, firsts b.globals es, ?_, ?_, fun n => ?_⟩
  · unfold Edit.copyModule
    rw [get_bind]
    refine bind_ok.2 ⟨(), _, rfl, bind_ok.2 ⟨seen, t, hst, rfl⟩⟩
  · rw [List.nil_append] at hg
    rw [← hg, hsession]
  · have hmap := map_firsts (a := t.target.toArena) n hfresh (fun _ _ => Iff.rfl)
      fun d _ hd hm => Nat.not_lt.2 (hb d hm) hd
    rwa [hseen.2 n] at hmap

/-- The engine and the recursive rewrite agree. Once rewrites are registered, the module is copied
without a misuse; nodes of the target stay what they were, and the module's list is seen, at any
depth, as the rewritten list of the source, where nodes that were there before are declared once.
What nothing is registered for is copied as it is, and rewrites on different nodes may be registered
in any order. -/
theorem copyModule_rewritten {p : Program} (hp : p.TreeShaped)
    (hmodule : ∀ i gs, p.inTree i = true → p.shape? i = some (.module gs) → i = p.root)
    {b : Builder} (hb : ∀ g ∈ b.globals, g ≤ b.size) {rs : List Rewrite} {s : Session Empty Unit}
    (hs : registerAll rs { Session.start p () with target := b } = .ok () s) :
    (∃ t more new, Edit.copyModule (Edit.copy noHandlers) s = .ok () t ∧
      t.target = { b with nodes := b.nodes ++ more, globals := b.globals ++ new } ∧
      ∀ n, new.map (Tree.view t.target.toArena b.size n) =
          declareOnce b.globals (rewrittenModule p b rs n) ∧
        ((givens (rewrittenModule p b rs n)).Nodup →
          (∀ g ∈ givens (rewrittenModule p b rs n), g ∉ b.globals) →
          new.map (Tree.view t.target.toArena b.size n) = rewrittenModule p b rs n)) ∧
    (∀ i, (∀ x, p.Below i x → ∀ r ∈ rs, r.node ≠ x) → ∀ n,
      rewritten p b rs n i = rewritten p b [] n i) ∧
    ∀ rs' : List Rewrite, (∀ i, rs'.filter (·.node = i) = rs.filter (·.node = i)) →
      registerAll rs' { Session.start p () with target := b } = .ok () s := by
  have hnil : Rewrite.Single [] := fun _ => by simp
  obtain ⟨hall, -, rfl⟩ := (registerAll_ok hnil).1 hs
  rw [List.nil_append] at hs
  refine ⟨?_, fun i hi => rewritten_untouched hi ?_, fun rs' h => registerAll_congr h hs⟩
  · obtain ⟨t, more, new, hst, htarget, hnew⟩ := copyModule_declares hp hmodule hb hall
    exact ⟨t, more, new, hst, htarget, fun n =>
      ⟨hnew n, fun hnodup hknown => (hnew n).trans (declareOnce_eq hnodup hknown)⟩⟩
  · intro r hr h0
    have hallowed := hall r hr
    have hsource : InSource p r.node := by
      cases r with
      | replace j t => exact hallowed.1
      | remove j => exact hallowed.1
      | insert d j t =>
        cases d with
        | before | after => exact hallowed.1.1
        | front | back => exact hallowed.1
    simp [InSource, h0] at hsource

/-- The module `alias A = f32; fn f() { break; discard; }`. -/
def aliasAndFunction : Builder where
  nodes := #[⟨.type .f32, {}⟩, ⟨.decl (.typeAlias 1 1), {}⟩, ⟨.stmt .breakLoop, {}⟩,
    ⟨.stmt .discard, {}⟩,
    ⟨.stmt (.block [3, 4]), {}⟩, ⟨.decl (.function ⟨2, [], 0, 5, [], []⟩), {}⟩]
  symbols := { names := #["A", "f"] }
  globals := [2, 6]

/-- A target with a statement, an attribute and a structure that is not declared. -/
def threeNodes : Builder where
  nodes := #[⟨.stmt .continueLoop, {}⟩, ⟨.attr (.stage .compute), {}⟩,
    ⟨.decl (.struct 3 [] []), {}⟩]
  symbols := { names := #["A", "f", "S"] }

theorem aliasAndFunction_treeShaped : aliasAndFunction.build.TreeShaped :=
  .of_check (by decide) (by decide) rfl (by decide +kernel)

theorem aliasAndFunction_module {i : NodeId} {gs : List NodeId}
    (h : aliasAndFunction.build.shape? i = some (.module gs)) :
    i = aliasAndFunction.build.root := by
  match i, h with
  | 7, _ => rfl
  | n + 8, h => cases h

/-- The alias becomes the structure, which is put behind the function once more; the function gets
an attribute, and of its statements the first gives way to another one and the second to nothing. -/
theorem copyModule_rewritten_aliasAndFunction : ∃ s t new,
    registerAll [.replace 2 3, .insert .before 3 1, .remove 3, .replace 4 0, .insert .front 6 2,
      .insert .back 7 3] { Session.start aliasAndFunction.build () with target := threeNodes } =
      .ok () s ∧
    Edit.copyModule (Edit.copy noHandlers) s = .ok () t ∧ t.target.globals = new ∧
    new.map (Tree.view t.target.toArena threeNodes.size 2) =
      [.given 3, .made {} (.decl (.function ⟨2, [], .absent, .made {} (.stmt (.block [.given 1])),
        [.given 2], []⟩))] := by
  obtain ⟨s, hs⟩ : ∃ s, registerAll [.replace 2 3, .insert .before 3 1, .remove 3, .replace 4 0,
      .insert .front 6 2, .insert .back 7 3]
      { Session.start aliasAndFunction.build () with target := threeNodes } = .ok () s := ⟨_, rfl⟩
  obtain ⟨⟨t, more, new, ht, htarget, hnew⟩, _⟩ := copyModule_rewritten aliasAndFunction_treeShaped
    (fun _ _ _ h => aliasAndFunction_module h) (by decide) hs
  refine ⟨s, t, new, hs, ht, ?_, (hnew 2).1.trans rfl⟩
  rw [htarget]
  rfl

/-- Two declarations that become the same node are declared once, and what is registered for the
module itself has no effect. -/
theorem copyModule_declares_once : aliasAndFunction.build.TreeShaped ∧ ∃ s t,
    registerAll [.replace 2 3, .replace 6 3, .replace 7 1]
      { Session.start aliasAndFunction.build () with target := threeNodes } = .ok () s ∧
    Edit.copyModule (Edit.copy noHandlers) s = .ok () t ∧ t.target.globals = [3] ∧
    (∀ n, rewrittenModule aliasAndFunction.build threeNodes
      [.replace 2 3, .replace 6 3, .replace 7 1] n = [.given 3, .given 3]) ∧
    ∀ n, t.target.globals.map (Tree.view t.target.toArena threeNodes.size n) ≠
      rewrittenModule aliasAndFunction.build threeNodes [.replace 2 3, .replace 6 3, .replace 7 1]
      n := by
  have htrees : ∀ n, rewrittenModule aliasAndFunction.build threeNodes
      [.replace 2 3, .replace 6 3, .replace 7 1] n = [.given 3, .given 3] := by
    intro n
    cases n <;> rfl
  obtain ⟨s, t, hs, ht, hglobals⟩ : ∃ s t, registerAll [.replace 2 3, .replace 6 3, .replace 7 1]
      { Session.start aliasAndFunction.build () with target := threeNodes } = .ok () s ∧
      Edit.copyModule (Edit.copy noHandlers) s = .ok () t ∧ t.target.globals = [3] :=
        ⟨_, _, rfl, rfl, rfl⟩
  refine ⟨aliasAndFunction_treeShaped, s, t, hs, ht, hglobals, htrees, fun n h => ?_⟩
  rw [htrees, hglobals] at h
  exact absurd (congrArg List.length h) (by simp)

end ShaderLoom.Copy
