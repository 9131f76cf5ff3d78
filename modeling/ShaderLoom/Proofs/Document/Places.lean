import Mathlib.Data.List.Nodup
import Mathlib.Data.List.Perm.Subperm
import Mathlib.Data.List.Zip
import ShaderLoom.Proofs.Copy.Identity
import ShaderLoom.Proofs.Meaning.Lockstep
import ShaderLoom.Proofs.Pass.Names
import ShaderLoom.Proofs.Symbols

/-! Programs with the same document. A way down from the module leads to a node of the one where it
leads to a node of the other, and the two nodes differ in the numbers of their children and names
only. Since resolution goes through both programs in step, what it finds out is a matter of the
document alone. -/
namespace ShaderLoom

namespace Shape

variable {ν μ α β : Type} {N : ν → μ → Prop} {C : α → β → Prop} {L : List α → List β → Prop}
    {s : Shape ν α}
  {t : Shape μ β}

theorem forall₂_mem_zip {xs : List α} {ys : List β} (h : List.Forall₂ C xs ys) :
    List.Forall₂ (fun x y => C x y ∧ (x, y) ∈ xs.zip ys) xs ys := by
  induction h with
  | nil => exact .nil
  | cons hxy _ ih => exact .cons ⟨hxy, by simp⟩ (ih.imp fun _ _ h => ⟨h.1, by simp [h.2]⟩)

/-- Related children stand at the same place. -/
theorem Rel.zip_slots (h : Rel N C (List.Forall₂ C) s t) :
    Rel N (fun x y => C x y ∧ (x, y) ∈ s.slots.zip t.slots)
      (List.Forall₂ fun x y => C x y ∧ (x, y) ∈ s.slots.zip t.slots) s t := by
  cases h with
  | call ht has => exact .call ⟨ht, by simp [slots]⟩ ((forall₂_mem_zip has).imp fun _ _ h =>
      ⟨h.1, by simp [slots, h.2]⟩)
  | block hss => exact .block (forall₂_mem_zip hss)
  | module hgs => exact .module (forall₂_mem_zip hgs)
  | value hs ht hi has =>
    simp only [slots, List.zip_append has.length_eq]
    exact .value hs ⟨ht, by simp⟩ ⟨hi, by simp⟩
      ((forall₂_mem_zip has).imp fun _ _ h => ⟨h.1, by simp [h.2]⟩)
  | function hs hps hr hb has hras =>
    simp only [slots, List.append_assoc, List.zip_append has.length_eq,
      List.zip_append hps.length_eq, List.zip_append hras.length_eq]
    refine .function hs ((forall₂_mem_zip hps).imp fun _ _ h => ⟨h.1, ?_⟩) ⟨hr, ?_⟩ ⟨hb, ?_⟩
      ((forall₂_mem_zip has).imp fun _ _ h => ⟨h.1, ?_⟩)
      ((forall₂_mem_zip hras).imp fun _ _ h => ⟨h.1, ?_⟩)
    all_goals simp_all
  | struct hs hms has =>
    simp only [slots, List.zip_append has.length_eq]
    exact .struct hs ((forall₂_mem_zip hms).imp fun _ _ h => ⟨h.1, by simp [h.2]⟩)
      ((forall₂_mem_zip has).imp fun _ _ h => ⟨h.1, by simp [h.2]⟩)
  | structMember hs ht has =>
    simp only [slots, List.zip_append has.length_eq]
    exact .structMember hs ⟨ht, by simp⟩
      ((forall₂_mem_zip has).imp fun _ _ h => ⟨h.1, by simp [h.2]⟩)
  | _ => constructor <;> first | assumption | exact ⟨‹_›, by simp [slots]⟩

theorem Rel.slots (h : Rel N C (List.Forall₂ C) s t) : List.Forall₂ C s.slots t.slots := by
  cases h with
  | value _ ht hi has => exact forall₂_append has (.cons ht (.cons hi .nil))
  | function _ hps hr hb has hras =>
    exact forall₂_append (forall₂_append (forall₂_append has hps) hras) (.cons hr (.cons hb .nil))
  | struct _ hms has => exact forall₂_append has hms
  | structMember _ ht has => exact forall₂_append has (.cons ht .nil)
  | _ => simp_all [Shape.slots]

theorem exists_withAccess {k l : VariableKind} {access : Access}
    (h : k.withAccess access = l.withAccess access) : ∃ other, l = k.withAccess other := by
  cases k <;> cases l <;> simp_all [VariableKind.withAccess]

/-- Shapes that are related once their access modes are the same. -/
theorem like_of_withAccess {access : Access}
    (h : Rel N C (List.Forall₂ C) (s.withAccess access) (t.withAccess access)) : s.Like N C t := by
  rcases s with _ | _ | _ | (⟨⟨k, x, ty, i, as⟩⟩ | _ | _ | _) | _ | _ | _
  case decl.value =>
    rcases t with _ | _ | _ | (⟨⟨l, y, ty', i', as'⟩⟩ | _ | _ | _) | _ | _ | _
    case decl.value =>
      simp only [withAccess] at h
      generalize hk : k.withAccess access = k' at h
      generalize hl : l.withAccess access = l' at h
      cases h with
      | value hs ht hi has =>
        obtain ⟨other, rfl⟩ := exists_withAccess (hk.trans hl.symm)
        exact ⟨decl (.value ⟨k, y, ty', i', as'⟩), other, .value hs ht hi has, rfl⟩
    all_goals cases h
  all_goals
    rcases t with _ | _ | _ | (_ | _ | _ | _) | _ | _ | _
    case decl.value => cases h
    all_goals exact ⟨_, access, h, rfl⟩

@[simp] theorem names_withAccess (access : Access) (s : Shape ν α) :
    (s.withAccess access).names = s.names := by
  rcases s with _ | _ | _ | (_ | _ | _ | _) | _ | _ | _ <;> rfl

@[simp] theorem slots_withAccess (access : Access) (s : Shape ν α) :
    (s.withAccess access).slots = s.slots := by
  rcases s with _ | _ | _ | (_ | _ | _ | _) | _ | _ | _ <;> rfl

theorem spelled_withAccess {access : Access} (h : s.Spelled) : (s.withAccess access).Spelled := by
  rcases s with _ | _ | _ | (⟨⟨k, _, _, _, _⟩⟩ | _ | _ | _) | _ | _ | _
  case decl.value => cases k <;> exact h
  all_goals exact h

theorem accessible_withAccess (s : Shape ν α) : (s.withAccess .undefined).Accessible := by
  rcases s with _ | _ | _ | (⟨⟨k, _, _, _, _⟩⟩ | _ | _ | _) | _ | _ | _
  case decl.value => cases k <;> simp [withAccess, Accessible, VariableKind.withAccess,
    VariableKind.Accessible, Access.declared]
  all_goals exact trivial

end Shape

namespace Document

open Arena

variable {a b : Arena} {sub sub' : NodeId → Option Record}

/-- The record of a node whose access mode is dropped. -/
theorem ofNode_withAccess (n : Node) :
    ofNode a sub { n with shape := n.shape.withAccess .undefined } =
    { ofNode a sub n with access := "" } := by
  obtain ⟨s, span⟩ := n
  rcases s with t | e | s | (⟨⟨k, _, _, _, _⟩⟩ | _ | _ | _) | _ | x | _
  case decl.value => cases k <;> rfl
  case type => cases t <;> rfl
  case expr => cases e <;> rfl
  case stmt => cases s <;> rfl
  case attr => cases x <;> rfl
  all_goals rfl

/-- Nodes with the same record have the same names and children with the same records, at the same
places. -/
theorem like_of_ofNode {n m : Node} (h : ofNode a sub n = ofNode b sub' m) (hn : n.shape.Spelled)
    (hm : m.shape.Spelled) :
    n.shape.Like (fun s t => s ∈ n.shape.names ∧ t ∈ m.shape.names ∧ a.nameOf s = b.nameOf t)
      (fun c d => sub c = sub' d ∧ (c, d) ∈ n.shape.slots.zip m.shape.slots) m.shape := by
  have hmute : ofNode a sub { n with shape := n.shape.withAccess .undefined } =
      ofNode b sub' { m with shape := m.shape.withAccess .undefined } := by
    rw [ofNode_withAccess, ofNode_withAccess, h]
  obtain ⟨s, hs, hrel⟩ :=
    shape_ofNode a sub "" (n := { n with shape := n.shape.withAccess .undefined })
    (Shape.spelled_withAccess hn) (Shape.accessible_withAccess _)
  obtain ⟨t, ht, hrel'⟩ :=
    shape_ofNode b sub' "" (n := { m with shape := m.shape.withAccess .undefined })
    (Shape.spelled_withAccess hm) (Shape.accessible_withAccess _)
  rw [hmute, ht] at hs
  cases hs
  -- both shapes are those of the record, so that they are related through it
  have hboth : (n.shape.withAccess .undefined).Rel (fun s t => a.nameOf s = b.nameOf t)
      (fun c d => sub c = sub' d)
      (List.Forall₂ fun c d => sub c = sub' d) (m.shape.withAccess .undefined) := by
    refine (hrel.comp hrel'.flip).mono (fun x y hxy => ?_) (fun c d hcd => ?_) fun cs ds hcs => ?_
    · obtain ⟨_, rfl, hy⟩ := hxy
      exact hy
    · obtain ⟨_, ⟨hc, _⟩, hd, _⟩ := hcd
      exact hc.symm.trans hd
    · obtain ⟨fs, hcs, hds⟩ := hcs
      exact forall₂_comp hcs hds.flip fun _ _ _ _ hc hd => hc.1.symm.trans hd.1
  refine @Shape.like_of_withAccess _ _ _ _ _ _ _ _ .undefined
    (hboth.zip_slots.within_names.mono ?_ ?_ ?_) <;> simp

end Document

/-- Where a list holds an element once, it stands beside one element of another list. -/
theorem eq_of_mem_zip {α β : Type} [DecidableEq α] {xs : List α} {ys : List β} {x : α} {y z : β}
    (h : xs.count x ≤ 1) (hy : (x, y) ∈ xs.zip ys) (hz : (x, z) ∈ xs.zip ys) : y = z := by
  induction xs generalizing ys with
  | nil => simp at hy
  | cons u us ih =>
    cases ys with
    | nil => simp at hy
    | cons v vs =>
      have hrest : ∀ w, (x, w) ∈ us.zip vs → 0 < us.count x :=
        fun w hw => List.count_pos_iff.2 (List.of_mem_zip hw).1
      simp only [List.zip_cons_cons, List.mem_cons, Prod.mk.injEq] at hy hz
      rw [List.count_cons] at h
      rcases hy with ⟨rfl, rfl⟩ | hy
      · rcases hz with ⟨_, rfl⟩ | hz
        · rfl
        · have := hrest z hz
          simp at h
          omega
      · rcases hz with ⟨rfl, rfl⟩ | hz
        · have := hrest y hy
          simp at h
          omega
        · exact ih (by omega) hy hz

/-- A list without repetitions is no longer than one whose elements its own ones belong to, each to
another. -/
theorem length_le_of_rel {T : NodeId → NodeId → Prop} {xs ys : List NodeId} (hxs : xs.Nodup)
    (htotal : ∀ x ∈ xs, ∃ y ∈ ys, T x y) (hunique : ∀ x x' y, T x y → T x' y → x = x') :
    xs.length ≤ ys.length := by
  choose! f hf using htotal
  have hnodup : (xs.map f).Nodup := by
    refine List.Nodup.map_on (fun x hx x' hx' heq => ?_) hxs
    exact hunique x x' (f x) (hf x hx).2 (heq ▸ (hf x' hx').2)
  have hsub : xs.map f ⊆ ys := by
    intro y hy
    obtain ⟨x, hx, rfl⟩ := List.mem_map.1 hy
    exact (hf x hx).1
  simpa using (hnodup.subperm hsub).length_le

namespace Program

variable {p q : Program} {i j : NodeId}

/-- A node holds another one at one place only. -/
theorem Counted.count_slotsOf (h : p.Counted) {c : NodeId} (hc : c ≠ 0) (i : NodeId) :
    (p.slotsOf i).count c ≤ 1 := by
  have hids : ∀ k, c ∈ p.slotsOf k → [i].count k ≤ p.ids.count k := by
    intro k hk
    obtain ⟨_, hk, _⟩ := Arena.mem_slotsOf hk
    have hrange := Arena.range_of_node? hk
    rw [Arena.count_ids hrange.1 hrange.2]
    exact List.nodup_iff_count.1 (by simp) k
  have hle := count_flatMap_le hids
  rw [← Arena.held_eq] at hle
  simpa using Nat.le_trans hle (h c hc)

theorem Fit.slotsOf_root (h : p.Fit) : p.slotsOf p.root = p.globals := by
  rw [Arena.slotsOf, h.module]
  rfl

/-- Nodes of two programs that stand at the same place: the same way leads to them from the
module. -/
inductive SamePlace (p q : Program) : NodeId → NodeId → Prop
  | absent : SamePlace p q 0 0
  | global {g h : NodeId} : (g, h) ∈ p.globals.zip q.globals → SamePlace p q g h
  | child {i j c d : NodeId} : SamePlace p q i j → (c, d) ∈ (p.slotsOf i).zip (q.slotsOf j) →
    SamePlace p q c d

theorem SamePlace.symm (h : p.SamePlace q i j) : q.SamePlace p j i := by
  induction h with
  | absent => exact .absent
  | global hg => exact .global (by rw [← List.zip_swap]; exact List.mem_map.2 ⟨_, hg, rfl⟩)
  | child _ hc ih => exact .child ih (by rw [← List.zip_swap]; exact List.mem_map.2 ⟨_, hc, rfl⟩)

/-- Two fit programs with the same document, whose names are all in their tables. -/
structure Twins (p q : Program) : Prop where
  left : p.Sturdy
  right : q.Sturdy
  spelledLeft : p.toArena.SpelledOut
  spelledRight : q.toArena.SpelledOut
  document : Document.ofProgram p = Document.ofProgram q

namespace Twins

open Document

theorem symm (h : Twins p q) : Twins q p :=
  ⟨h.right, h.left, h.spelledRight, h.spelledLeft, h.document.symm⟩

/-- The records of module-scope declarations at the same place. -/
theorem whole_global (h : Twins p q) {g g' : NodeId} (hg : (g, g') ∈ p.globals.zip q.globals) :
    whole p.toArena g = whole q.toArena g' := by
  have hmap : p.globals.map (whole p.toArena) = q.globals.map (whole q.toArena) :=
    congrArg Document.Module.globals h.document
  have hrel : List.Forall₂ (fun g g' => whole p.toArena g = whole q.toArena g') p.globals
      q.globals := by
    rw [← List.forall₂_eq_eq_eq, List.forall₂_map_left_iff, List.forall₂_map_right_iff] at hmap
    exact hmap
  exact (List.forall₂_iff_zip.1 hrel).2 hg

theorem whole_none (h : p.Fit) (hi : i < p.root) : whole p.toArena i = none ↔ i = 0 := by
  refine ⟨fun hnone => ?_, fun h0 => by subst h0; rfl⟩
  by_contra h0
  obtain ⟨n, hn⟩ := Option.isSome_iff_exists.1
    (Arena.node?_isSome_iff (a := p.toArena) |>.2 ⟨Nat.pos_of_ne_zero h0, h.root ▸ Nat.le_of_lt hi⟩)
  rw [whole_eq h.ordered hn] at hnone
  cases hnone

/-- Nodes with the same record have shapes whose children have the same records. -/
theorem like_of_whole (h : Twins p q) (hi : i < p.root) (hj : j < q.root) {n m : Node}
    (hn : p.node? i = some n) (hm : q.node? j = some m)
    (hwhole : whole p.toArena i = whole q.toArena j) :
    n.shape.Like (fun s t => s ∈ n.shape.names ∧ t ∈ m.shape.names ∧ p.nameOf s = q.nameOf t)
      (fun c d => whole p.toArena c = whole q.toArena d ∧ (c, d) ∈ n.shape.slots.zip m.shape.slots)
      m.shape := by
  rw [whole_eq h.left.fit.ordered hn, whole_eq h.right.fit.ordered hm] at hwhole
  exact like_of_ofNode (Option.some.inj hwhole) (h.left.fit.spelled hn (Nat.ne_of_lt hi))
    (h.right.fit.spelled hm (Nat.ne_of_lt hj))

/-- Nodes at the same place are below the module and have the same record. -/
theorem whole_samePlace (h : Twins p q) (hij : p.SamePlace q i j) :
    i < p.root ∧ j < q.root ∧ whole p.toArena i = whole q.toArena j := by
  induction hij with
  | absent => exact ⟨Nat.pos_of_ne_zero h.left.fit.root_pos,
      Nat.pos_of_ne_zero h.right.fit.root_pos, rfl⟩
  | global hg =>
    have hmem := List.of_mem_zip hg
    exact ⟨(h.left.fit.globals _ hmem.1).2, (h.right.fit.globals _ hmem.2).2, h.whole_global hg⟩
  | child _ hc ih =>
    obtain ⟨hi, hj, hwhole⟩ := ih
    have hmem := List.of_mem_zip hc
    obtain ⟨n, hn, hcn⟩ := Arena.mem_slotsOf hmem.1
    obtain ⟨m, hm, hcm⟩ := Arena.mem_slotsOf hmem.2
    refine ⟨Nat.lt_trans (h.left.fit.below hn _ hcn) hi,
      Nat.lt_trans (h.right.fit.below hm _ hcm) hj, ?_⟩
    obtain ⟨u, access, hrel, hu⟩ := h.like_of_whole hi hj hn hm hwhole
    rw [Arena.slotsOf_of_node? hn, Arena.slotsOf_of_node? hm, hu, Shape.slots_withAccess] at hc
    exact ((List.forall₂_iff_zip.1 hrel.slots).2 hc).1

theorem eq_zero_iff (h : Twins p q) (hij : p.SamePlace q i j) : i = 0 ↔ j = 0 := by
  obtain ⟨hi, hj, hwhole⟩ := h.whole_samePlace hij
  rw [← whole_none h.left.fit hi, ← whole_none h.right.fit hj, hwhole]

/-- A node stands at one place: its holder is the only one, and holds it once. -/
theorem unique (h : Twins p q) {j' : NodeId} (hij : p.SamePlace q i j) (hij' : p.SamePlace q i j') :
    j = j' := by
  have hheld : ∀ {k c}, c ∈ p.slotsOf k → c ≠ 0 → c ∈ p.children k := by
    intro k c hc h0
    obtain ⟨n, hn, hmem⟩ := Arena.mem_slotsOf hc
    exact Arena.mem_children.2 ⟨n, hn, hmem, h0⟩
  have hmodule : ∀ {g}, g ∈ p.globals → g ≠ 0 ∧ g ∈ p.children p.root := by
    intro g hg
    have h0 := Nat.ne_of_gt (h.left.fit.globals g hg).1
    exact ⟨h0, hheld (by rwa [h.left.fit.slotsOf_root]) h0⟩
  -- what the module holds, nothing below it holds
  have hbelow : ∀ {g k l}, g ∈ p.globals → p.SamePlace q k l → g ∉ p.slotsOf k := by
    intro g k l hg hkl hk
    have := h.left.counted.holder (hheld hk (hmodule hg).1) (hmodule hg).2
    exact Nat.ne_of_lt (h.whole_samePlace hkl).1 this
  induction hij generalizing j' with
  | absent => exact ((h.eq_zero_iff hij').1 rfl).symm
  | global hg =>
    have hmem := (List.of_mem_zip hg).1
    cases hij' with
    | absent => exact absurd rfl (hmodule hmem).1
    | global hg' =>
      refine eq_of_mem_zip ?_ hg hg'
      rw [← h.left.fit.slotsOf_root]
      exact h.left.counted.count_slotsOf (hmodule hmem).1 _
    | child hkl hc => exact absurd (List.of_mem_zip hc).1 (hbelow hmem hkl)
  | @child i j c d hij hc ih =>
    have hmem := (List.of_mem_zip hc).1
    by_cases h0 : c = 0
    · have hd := (h.eq_zero_iff (hij.child hc)).1 h0
      have hd' := (h.eq_zero_iff hij').1 h0
      rw [hd, hd']
    cases hij' with
    | absent => exact absurd rfl h0
    | global hg => exact absurd hmem (hbelow (List.of_mem_zip hg).1 hij)
    | @child k l _ _ hkl hc' =>
      obtain rfl := h.left.counted.holder (hheld hmem h0) (hheld (List.of_mem_zip hc').1 h0)
      obtain rfl := ih hkl
      exact eq_of_mem_zip (h.left.counted.count_slotsOf h0 _) hc hc'

theorem uniqueNode (h : Twins p q) : Relator.BiUnique (p.SamePlace q) :=
  ⟨fun _ _ _ hij hij' => h.symm.unique hij.symm hij'.symm, fun _ _ _ hij hij' => h.unique hij hij'⟩

/-- Names of the two programs that are spelled alike. -/
def SameName (p q : Program) (s t : Symbol) : Prop := ∃ x, p.symbols.Names s x ∧ q.symbols.Names t x

theorem uniqueName (p q : Program) : Relator.BiUnique (SameName p q) := by
  refine ⟨fun s u t h h' => ?_, fun s t u h h' => ?_⟩
  · obtain ⟨x, hs, ht⟩ := h
    obtain ⟨y, hu, ht'⟩ := h'
    have : x = y := ht.nameFor.symm.trans ht'.nameFor
    exact hs.inj (this ▸ hu)
  · obtain ⟨x, hs, ht⟩ := h
    obtain ⟨y, hs', hu⟩ := h'
    have : x = y := hs.nameFor.symm.trans hs'.nameFor
    exact ht.inj (this ▸ hu)

/-- Places are valid or absent, so that they are the same if their records are. -/
theorem span_eq {n m : Node} (hn : n.Placed) (hm : m.Placed) {a b : Arena}
    {sub sub' : NodeId → Option Record} (h : ofNode a sub n = ofNode b sub' m) :
    n.span = m.span := by
  have hspan := congrArg Record.span h
  rw [span_ofNode, span_ofNode] at hspan
  have hnone : ∀ {k : Node}, k.Placed → k.span.valid ≠ true → k.span = {} :=
    fun hk hv => hk.resolve_left hv
  split at hspan
  · split at hspan
    · exact Option.some.inj hspan
    · cases hspan
  · split at hspan
    · cases hspan
    · rw [hnone hn ‹_›, hnone hm ‹_›]

/-- Nodes at the same place are alike. -/
theorem alike (h : Twins p q) (hij : p.SamePlace q i j) :
    (i = 0 ∧ j = 0) ∨ ∃ n m, p.node? i = some n ∧
    q.node? j = some m ∧ n.span = m.span ∧ n.shape.Like (SameName p q) (p.SamePlace q) m.shape := by
  by_cases h0 : i = 0
  · exact .inl ⟨h0, (h.eq_zero_iff hij).1 h0⟩
  obtain ⟨hi, hj, hwhole⟩ := h.whole_samePlace hij
  have hj0 : j ≠ 0 := fun hj0 => h0 ((h.eq_zero_iff hij).2 hj0)
  obtain ⟨n, hn⟩ := Option.isSome_iff_exists.1
    (Arena.node?_isSome_iff (a := p.toArena) |>.2
      ⟨Nat.pos_of_ne_zero h0, h.left.fit.root ▸ Nat.le_of_lt hi⟩)
  obtain ⟨m, hm⟩ := Option.isSome_iff_exists.1
    (Arena.node?_isSome_iff (a := q.toArena) |>.2
      ⟨Nat.pos_of_ne_zero hj0, h.right.fit.root ▸ Nat.le_of_lt hj⟩)
  refine .inr ⟨n, m, hn, hm, ?_, ?_⟩
  · rw [whole_eq h.left.fit.ordered hn, whole_eq h.right.fit.ordered hm] at hwhole
    exact span_eq (h.spelledLeft.placed hn) (h.spelledRight.placed hm) (Option.some.inj hwhole)
  · obtain ⟨u, access, hrel, hu⟩ := h.like_of_whole hi hj hn hm hwhole
    refine ⟨u, access, hrel.mono (fun s t hst => ?_) (fun c d hcd => ?_) fun cs ds hcs => ?_, hu⟩
    · obtain ⟨x, hx⟩ := h.spelledLeft.known hn s hst.1
      obtain ⟨y, hy⟩ := h.spelledRight.known hm t hst.2.1
      have hxy : x = y := hx.nameFor.symm.trans (hst.2.2.trans hy.nameFor)
      exact ⟨x, hx, hxy ▸ hy⟩
    · exact hij.child (by rw [Arena.slotsOf_of_node? hn, Arena.slotsOf_of_node? hm]; exact hcd.2)
    · exact hcs.imp fun c d hcd =>
        hij.child (by rw [Arena.slotsOf_of_node? hn, Arena.slotsOf_of_node? hm]; exact hcd.2)

/-- The two programs under different numbers. -/
def pairing (h : Twins p q) : p.toArena.Pairing q.toArena where
  node := p.SamePlace q
  name := SameName p q
  uniqueNode := h.uniqueNode
  uniqueName := uniqueName p q
  zero := .absent
  text hst := by
    obtain ⟨x, hs, ht⟩ := hst
    exact hs.nameFor.trans ht.nameFor.symm
  alike := h.alike

theorem forall₂_globals (h : Twins p q) : List.Forall₂ (p.SamePlace q) p.globals q.globals := by
  refine List.forall₂_iff_zip.2 ⟨?_, fun hg => .global hg⟩
  have := congrArg List.length (congrArg Document.Module.globals h.document)
  simpa [Document.ofProgram] using this

/-- Whatever the module holds has a node of the other program at its place. -/
theorem total (h : Twins p q) (hi : p.inTree i = true) :
    i = p.root ∨ ∃ j, j ≠ 0 ∧ p.SamePlace q i j := by
  refine h.left.fit.tree_induct (P := fun i => i = p.root ∨ ∃ j, j ≠ 0 ∧ p.SamePlace q i j)
    (.inl rfl) ?_ hi
  intro i n c _ hi hn hc h0
  have hpresent : ∀ {d}, p.SamePlace q c d → ∃ j, j ≠ 0 ∧ p.SamePlace q c j := fun hcd =>
    ⟨_, fun hd => h0 ((h.eq_zero_iff hcd).2 hd), hcd⟩
  have hlist : ∀ {xs ys : List NodeId}, List.Forall₂ (p.SamePlace q) xs ys → c ∈ xs →
      ∃ j, j ≠ 0 ∧ p.SamePlace q c j := by
    intro xs ys hxs hc
    obtain ⟨d, -, hcd⟩ := exists_of_forall₂ hxs.flip c hc
    exact ⟨d, fun hd => h0 ((h.eq_zero_iff hcd).2 hd), hcd⟩
  refine .inr ?_
  rcases hi with rfl | ⟨j, hj, hij⟩
  · have hglobal : c ∈ p.globals := by rwa [← h.left.fit.slotsOf_root, Arena.slotsOf_of_node? hn]
    exact hlist h.forall₂_globals hglobal
  · rcases h.alike hij with ⟨-, hj0⟩ | ⟨n', m, hn', _, _, u, access, hrel, _⟩
    · exact absurd hj0 hj
    · cases hn.symm.trans hn'
      exact hlist hrel.slots hc

theorem inTree (h : Twins p q) (hij : p.SamePlace q i j) (h0 : i ≠ 0) : p.inTree i = true := by
  induction hij with
  | absent => exact absurd rfl h0
  | global hg => exact h.left.fit.inTree_global (List.of_mem_zip hg).1
  | child _ hc ih =>
    obtain ⟨n, hn, hmem⟩ := Arena.mem_slotsOf (List.of_mem_zip hc).1
    exact h.left.fit.inTree_child (ih (Nat.ne_of_gt (Arena.range_of_node? hn).1))
      (Arena.mem_children.2 ⟨n, hn, hmem, h0⟩)

theorem length_treeIds_le (h : Twins p q) : p.treeIds.length ≤ q.treeIds.length := by
  refine length_le_of_rel (T := fun i j => (i = p.root ∧ j = q.root) ∨ (j ≠ 0 ∧ p.SamePlace q i j))
    (p.nodup_ids.filter _) (fun i hi => ?_) fun i i' j hij hij' => ?_
  · rcases h.total (h.left.fit.mem_treeIds.1 hi) with rfl | ⟨j, hj, hij⟩
    · exact ⟨q.root, h.right.fit.mem_treeIds.2 q.inTree_root, .inl ⟨rfl, rfl⟩⟩
    · exact ⟨j, h.right.fit.mem_treeIds.2 (h.symm.inTree hij.symm hj), .inr ⟨hj, hij⟩⟩
  · -- nothing stands at the place of the module
    have hroot : ∀ {k}, ¬ p.SamePlace q k q.root :=
      fun hk => Nat.lt_irrefl _ (h.whole_samePlace hk).2.1
    rcases hij with ⟨rfl, rfl⟩ | ⟨_, hij⟩
    · rcases hij' with ⟨rfl, _⟩ | ⟨_, hij'⟩
      · rfl
      · exact absurd hij' hroot
    · rcases hij' with ⟨rfl, rfl⟩ | ⟨_, hij'⟩
      · exact absurd hij hroot
      · exact h.uniqueNode.1 hij hij'

theorem length_treeIds (h : Twins p q) : p.treeIds.length = q.treeIds.length :=
  Nat.le_antisymm h.length_treeIds_le h.symm.length_treeIds_le

end Twins
/-- What resolution finds out about a program. -/
def resolved (p : Program) : Facts × Diagnostics := resolve p.toArena p.globals p.treeIds.length

theorem Twins.resolved (h : Twins p q) :
    p.resolved.1.Alike (p.SamePlace q) q.resolved.1 ∧ p.resolved.2 = q.resolved.2 := by
  rw [Program.resolved, Program.resolved, h.length_treeIds]
  exact resolve_alike h.pairing h.forall₂_globals _

end Program

namespace Facts.Alike

variable {R : NodeId → NodeId → Prop} {f g : Facts} {i j : NodeId}

/-- The same text for the types of nodes that stand for each other. -/
theorem text_typeOf (h : f.Alike R g) (hij : R i j) :
    (f.typeOf i).map Ty.text = (g.typeOf j).map Ty.text := by
  have htext : ∀ {t u : Option Ty}, Option.Rel (Ty.Alike R) t u →
      t.map Ty.text = u.map Ty.text := by
    intro t u htu
    cases htu with
    | none => rfl
    | some htu => rw [Option.map_some, Option.map_some, Resolve.text_eq htu]
  unfold Facts.typeOf
  rcases rel_cases (h.exprs i j hij) with ⟨h₁, h₂⟩ | ⟨x, y, h₁, h₂, hxy⟩
  · rw [h₁, h₂]
    exact htext (h.types i j hij)
  · rw [h₁, h₂]
    exact htext hxy.type

/-- The same entry points, in the same order. -/
theorem entryPointFacts (h : f.Alike R g) :
    List.Forall₂ (FunctionFacts.Alike R) f.entryPointFacts g.entryPointFacts := by
  have hpoints := h.entryPoints
  unfold Facts.entryPointFacts
  generalize f.entryPoints = xs at hpoints ⊢
  generalize g.entryPoints = ys at hpoints ⊢
  induction hpoints with
  | nil => exact .nil
  | @cons i j _ _ hij _ ih =>
    rw [List.filterMap_cons, List.filterMap_cons]
    rcases rel_cases (h.functions i j hij) with ⟨h₁, h₂⟩ | ⟨x, y, h₁, h₂, hxy⟩
    · rw [h₁, h₂]
      exact ih
    · rw [h₁, h₂]
      exact .cons hxy ih

end Facts.Alike

namespace Program

variable {p q : Program} {i j : NodeId}

/-- What resolution finds out is a matter of the document: of two programs with the same document,
each of which comes from some document through passes and copies, it reports the same problems and
the same entry points in the same order, and the same facts about nodes at the same place. Every
node below the one module stands at the place of one node below the other. -/
theorem derived_resolved (hp : p.Derived fun _ => True) (hq : q.Derived fun _ => True)
    (h : Document.ofProgram p = Document.ofProgram q) :
    p.resolved.2 = q.resolved.2 ∧
    p.resolved.1.entryPointFacts.map (fun f => (f.name, f.stage, f.workgroup)) =
      q.resolved.1.entryPointFacts.map (fun f => (f.name, f.stage, f.workgroup)) ∧
    p.resolved.1.Alike (p.SamePlace q) q.resolved.1 ∧
    (∀ i j, p.SamePlace q i j → (p.resolved.1.typeOf i).map Ty.text =
      (q.resolved.1.typeOf j).map Ty.text) ∧
    Relator.BiUnique (p.SamePlace q) ∧
    (∀ i, p.inTree i = true → i = p.root ∨ ∃ j, j ≠ 0 ∧ p.SamePlace q i j) ∧
    ∀ j, q.inTree j = true → j = q.root ∨ ∃ i, i ≠ 0 ∧ p.SamePlace q i j := by
  have htwins : Twins p q := ⟨hp.sturdy, hq.sturdy, hp.spelledOut, hq.spelledOut, h⟩
  obtain ⟨hfacts, hds⟩ := htwins.resolved
  refine ⟨hds, ?_, hfacts, fun i j hij => hfacts.text_typeOf hij, htwins.uniqueNode,
    fun i hi => htwins.total hi, fun j hj => ?_⟩
  · refine Arena.map_eq_of_forall₂ hfacts.entryPointFacts fun x _ y _ hxy => ?_
    rw [hxy.name, hxy.stage, hxy.workgroup]
  · refine (htwins.symm.total hj).imp_right fun hi => ?_
    obtain ⟨i, h0, hji⟩ := hi
    exact ⟨i, h0, hji.symm⟩

/-- A function that an entry point calls: `fn f(a : i32) -> @location(0) i32 { return a; }` and
`@compute @workgroup_size(2) fn main() { f(1); }`. -/
def dispatched : Document.Module where
  globals := [
    some { kind := "Function", name := "main", body := some { kind := "Block", statements := [
             some { kind := "CallStatement"
                    call := some { kind := "Call", target := some { kind := "Ident", name := "f" }
                                   args := [some { kind := "IntLiteral", int := some 1 }] } }] }
           attributes := [some { kind := "StageAttribute", stage := "compute" },
             some { kind := "WorkgroupAttribute",
                    x := some { kind := "IntLiteral", int := some 2 } }] },
    some { kind := "Function", name := "f", returnType := some { kind := "I32" }
           returnAttributes := [some { kind := "LocationAttribute", value := some 0 }]
           params := [some { kind := "Parameter", name := "a", type := some { kind := "I32" } }]
           body := some { kind := "Block", statements := [
             some { kind := "Return", expr := some { kind := "Ident", name := "a" } }] } }]

theorem derived_resolved_copied : ∃ p q, dispatched.decode = .ok p ∧ Copy.plainCopy p = .ok q ∧
    Document.ofProgram p = Document.ofProgram q ∧ p.nodes ≠ q.nodes ∧
    p.resolved.1.entryPointFacts.map (fun f => (f.name, f.stage, f.workgroup)) =
    [("main", .compute, (2, 1, 1))] ∧
    p.resolved.2 = q.resolved.2 ∧
    p.resolved.1.entryPointFacts.map (fun f => (f.name, f.stage, f.workgroup)) =
      q.resolved.1.entryPointFacts.map (fun f => (f.name, f.stage, f.workgroup)) ∧
    p.resolved.1.Alike (p.SamePlace q) q.resolved.1 := by
  have hok : (dispatched.decode.toOption.bind fun p => (Copy.plainCopy p).toOption.map fun q =>
      decide (p.nodes ≠ q.nodes ∧
        p.resolved.1.entryPointFacts.map (fun f => (f.name, f.stage, f.workgroup)) =
        [("main", .compute, (2, 1, 1))])) = some true := by
    decide +kernel
  cases hp : dispatched.decode with
  | error e => simp [hp, Except.toOption] at hok
  | ok p =>
    have hderived : p.Derived fun _ => True := .decoded hp
    have hknown : p.Known := fun _ _ _ hn s hs => hderived.spelledOut.known hn s hs
    obtain ⟨q, hq, -, -, hdoc, -⟩ := Copy.plainCopy_reads hderived.sturdy.fit hknown
    rw [hp, Except.toOption, Option.bind_some, hq, Except.toOption, Option.map_some] at hok
    have hfacts := of_decide_eq_true (Option.some.inj hok)
    obtain ⟨hds, hpoints, halike, -⟩ := derived_resolved hderived (.copied hderived hq) hdoc
    exact ⟨p, q, rfl, hq, hdoc, hfacts.1, hfacts.2, hds, hpoints, halike⟩

end Program
end ShaderLoom
