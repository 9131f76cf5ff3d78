import ShaderLoom.Proofs.Meaning.Reachable
import ShaderLoom.Proofs.Meaning.Touch

/-! The record of statements as a walk through the bodies of functions. The walk notes for every
statement that it meets whether control can reach it and how control leaves it; nothing but the
statements and their order decides what it notes. The record that resolution leaves is the one of
the walk, in every program that is a tree. -/
namespace ShaderLoom

namespace Flow

/-- What is noted about a statement. -/
structure Mark where
  node : NodeId
  live : Bool
  behaviors : Behaviors
  deriving DecidableEq, Repr

/-- What is walked through: a statement, or the rest of a list after what its first statements
do. -/
inductive Look where
  | one (s : NodeId)
  | all (ss : List NodeId) (sofar : Behaviors)

/-- The behaviors of what has no statements in it. -/
def alone? : Option (Shape Symbol NodeId) → Option Behaviors
  | some (.stmt (.block _)) | some (.stmt (.ifElse _ _ _)) | some (.stmt (.forLoop _ _ _ _))
  | some (.stmt (.whileLoop _ _)) | some (.stmt (.loop _ _)) => none
  | some (.stmt .breakLoop) => some (.only .brk)
  | some (.stmt .continueLoop) => some (.only .cont)
  | some (.stmt .discard) => some (.only .discard)
  | some (.stmt (.ret _)) => some (.only .ret)
  | _ => some (.only .next)

/-- A walk, its behaviors and its notes. The body of a loop with a continuing part is walked through
only if it is a block. -/
inductive Visit (a : Arena) : Look → Bool → Behaviors → List Mark → Prop
  | absent {live} : Visit a (.one 0) live (.only .next) []
  | alone {s live b} : s ≠ 0 → alone? (a.shape? s) = some b → Visit a (.one s) live b [⟨s, live, b⟩]
  | block {s ss live b ms} : a.shape? s = some (.stmt (.block ss)) →
    Visit a (.all ss (.only .next)) live b ms →
    Visit a (.one s) live b (⟨s, live, b⟩ :: ms)
  | ifElse {s c d o live b b' ms ms'} : a.shape? s = some (.stmt (.ifElse c d o)) →
    Visit a (.one d) live b ms →
    Visit a (.one o) live b' ms' →
    Visit a (.one s) live (b.union b') (⟨s, live, b.union b'⟩ :: (ms ++ ms'))
  | forLoop {s i c k d live b₁ b b₂ m₁ ms m₂} : a.shape? s = some (.stmt (.forLoop i c k d)) →
    Visit a (.one i) live b₁ m₁ → Visit a (.one d) live b ms → Visit a (.one k) live b₂ m₂ →
    Visit a (.one s) live (b.ofLoop (c ≠ 0)) (⟨s, live, b.ofLoop (c ≠ 0)⟩ :: (m₁ ++ ms ++ m₂))
  | whileLoop {s c d live b ms} : a.shape? s = some (.stmt (.whileLoop c d)) →
    Visit a (.one d) live b ms →
    Visit a (.one s) live (b.ofLoop true) (⟨s, live, b.ofLoop true⟩ :: ms)
  | loop {s d k live b b' ms ms'} : a.shape? s = some (.stmt (.loop d k)) → a.isBlock d →
    Visit a (.one d) live b ms → Visit a (.one k) live b' ms' →
    Visit a (.one s) live (b.ofLoop false) (⟨s, live, b.ofLoop false⟩ :: (ms ++ ms'))
  | closing {s d k live b ms} : a.shape? s = some (.stmt (.loop d k)) → ¬ a.isBlock d →
    Visit a (.one k) live b ms →
    Visit a (.one s) live (Behaviors.ofLoop {} false) (⟨s, live, Behaviors.ofLoop {} false⟩ :: ms)
  | done {sofar live} : Visit a (.all [] sofar) live sofar []
  | next {s ss sofar live b b' ms ms'} : Visit a (.one s) (live && sofar.next) b ms →
    Visit a (.all ss (if live && sofar.next then sofar.andThen b else sofar)) live b' ms' →
    Visit a (.all (s :: ss) sofar) live b' (ms ++ ms')

/-- The nodes that a walk may come to. -/
def Look.covers (p : Program) : Look → NodeId → Prop
  | .one s, x => s ≠ 0 ∧ p.Below s x
  | .all ss _, x => ∃ s ∈ ss, s ≠ 0 ∧ p.Below s x

theorem covers_substatement {p : Program} {s d x : NodeId} {sh : StmtShape NodeId}
    (hs : p.shape? s = some (.stmt sh)) (hd : d ∈ substatements sh) (h : (Look.one d).covers p x) :
    (Look.one s).covers p x :=
  ⟨Arena.ne_zero_of_shape hs, .of_child (mem_children_of_substatement hs hd h.1) h.2⟩

theorem Visit.covers {p : Program} {t : Look} {live : Bool} {b : Behaviors} {ms : List Mark}
    (h : Visit p.toArena t live b ms) : ∀ m ∈ ms, t.covers p m.node := by
  induction h with
  | absent => simp
  | alone h0 _ =>
    simp only [List.mem_singleton, forall_eq]
    exact ⟨h0, .self⟩
  | @block s ss _ _ _ hs _ ih =>
    refine List.forall_mem_cons.2 ⟨⟨Arena.ne_zero_of_shape hs, .self⟩, fun m hm => ?_⟩
    obtain ⟨d, hd, hd0, hx⟩ := ih m hm
    exact covers_substatement hs hd ⟨hd0, hx⟩
  | ifElse hs _ _ ih ih' =>
    refine List.forall_mem_cons.2 ⟨⟨Arena.ne_zero_of_shape hs, .self⟩,
      List.forall_mem_append.2 ⟨?_, ?_⟩⟩
    · exact fun m hm => covers_substatement hs (by simp [substatements]) (ih m hm)
    · exact fun m hm => covers_substatement hs (by simp [substatements]) (ih' m hm)
  | forLoop hs _ _ _ ih₁ ih ih₂ =>
    refine List.forall_mem_cons.2 ⟨⟨Arena.ne_zero_of_shape hs, .self⟩,
      List.forall_mem_append.2 ⟨List.forall_mem_append.2 ⟨?_, ?_⟩, ?_⟩⟩
    · exact fun m hm => covers_substatement hs (by simp [substatements]) (ih₁ m hm)
    · exact fun m hm => covers_substatement hs (by simp [substatements]) (ih m hm)
    · exact fun m hm => covers_substatement hs (by simp [substatements]) (ih₂ m hm)
  | whileLoop hs _ ih =>
    refine List.forall_mem_cons.2 ⟨⟨Arena.ne_zero_of_shape hs, .self⟩, ?_⟩
    exact fun m hm => covers_substatement hs (by simp [substatements]) (ih m hm)
  | loop hs _ _ _ ih ih' =>
    refine List.forall_mem_cons.2 ⟨⟨Arena.ne_zero_of_shape hs, .self⟩,
      List.forall_mem_append.2 ⟨?_, ?_⟩⟩
    · exact fun m hm => covers_substatement hs (by simp [substatements]) (ih m hm)
    · exact fun m hm => covers_substatement hs (by simp [substatements]) (ih' m hm)
  | closing hs _ _ ih =>
    refine List.forall_mem_cons.2 ⟨⟨Arena.ne_zero_of_shape hs, .self⟩, ?_⟩
    exact fun m hm => covers_substatement hs (by simp [substatements]) (ih m hm)
  | done => simp
  | next _ _ ih ih' =>
    refine List.forall_mem_append.2 ⟨fun m hm => ?_, fun m hm => ?_⟩
    · exact ⟨_, List.mem_cons_self, ih m hm⟩
    · obtain ⟨d, hd, h⟩ := ih' m hm
      exact ⟨d, List.mem_cons_of_mem _ hd, h⟩

/-- What a walk through a statement is, read off the statement's shape. -/
def Within (a : Arena) (live : Bool) : Option (Shape Symbol NodeId) → Behaviors → List Mark → Prop
  | some (.stmt (.block ss)), b, ms => Visit a (.all ss (.only .next)) live b ms
  | some (.stmt (.ifElse _ d o)), b, ms =>
    ∃ b₁ b₂ m₁ m₂, Visit a (.one d) live b₁ m₁ ∧ Visit a (.one o) live b₂ m₂ ∧
      b = b₁.union b₂ ∧ ms = m₁ ++ m₂
  | some (.stmt (.forLoop i c k d)), b, ms => ∃ b₁ b₂ b₃ m₁ m₂ m₃, Visit a (.one i) live b₁ m₁ ∧
      Visit a (.one d) live b₂ m₂ ∧ Visit a (.one k) live b₃ m₃ ∧ b = b₂.ofLoop (c ≠ 0) ∧
      ms = m₁ ++ m₂ ++ m₃
  | some (.stmt (.whileLoop _ d)), b, ms => ∃ b₁, Visit a (.one d) live b₁ ms ∧ b = b₁.ofLoop true
  | some (.stmt (.loop d k)), b, ms =>
    (a.isBlock d ∧ ∃ b₁ b₂ m₁ m₂, Visit a (.one d) live b₁ m₁ ∧ Visit a (.one k) live b₂ m₂ ∧
      b = b₁.ofLoop false ∧ ms = m₁ ++ m₂) ∨
    (¬ a.isBlock d ∧ ∃ b₁, Visit a (.one k) live b₁ ms ∧ b = Behaviors.ofLoop {} false)
  | s, b, ms => alone? s = some b ∧ ms = []

theorem within_of_alone {a : Arena} {live : Bool} {s : Option (Shape Symbol NodeId)} {b : Behaviors}
    (h : alone? s = some b) : Within a live s b [] := by
  unfold Within
  split <;> first | exact ⟨h, rfl⟩ | simp [alone?] at h

theorem Visit.within {a : Arena} {s : NodeId} {live : Bool} {b : Behaviors} {ms : List Mark}
    (h : Visit a (.one s) live b ms) (h0 : s ≠ 0) :
    ∃ inner, ms = ⟨s, live, b⟩ :: inner ∧ Within a live (a.shape? s) b inner := by
  cases h with
  | absent => exact absurd rfl h0
  | alone _ h => exact ⟨[], rfl, within_of_alone h⟩
  | block hs h => exact ⟨_, rfl, hs ▸ h⟩
  | ifElse hs h h' => exact ⟨_, rfl, hs ▸ ⟨_, _, _, _, h, h', rfl, rfl⟩⟩
  | forLoop hs h₁ h h₂ => exact ⟨_, rfl, hs ▸ ⟨_, _, _, _, _, _, h₁, h, h₂, rfl, rfl⟩⟩
  | whileLoop hs h => exact ⟨_, rfl, hs ▸ ⟨_, h, rfl⟩⟩
  | loop hs hd h h' => exact ⟨_, rfl, hs ▸ .inl ⟨hd, _, _, _, _, h, h', rfl, rfl⟩⟩
  | closing hs hd h => exact ⟨_, rfl, hs ▸ .inr ⟨hd, _, h, rfl⟩⟩

theorem Visit.of_within {a : Arena} {s : NodeId} {live : Bool} {b : Behaviors} {ms : List Mark}
    (h0 : s ≠ 0) (h : Within a live (a.shape? s) b ms) :
    Visit a (.one s) live b (⟨s, live, b⟩ :: ms) := by
  unfold Within at h
  split at h
  · next hs => exact .block hs h
  · next hs =>
    obtain ⟨b₁, b₂, m₁, m₂, h₁, h₂, rfl, rfl⟩ := h
    exact .ifElse hs h₁ h₂
  · next hs =>
    obtain ⟨b₁, b₂, b₃, m₁, m₂, m₃, h₁, h₂, h₃, rfl, rfl⟩ := h
    exact .forLoop hs h₁ h₂ h₃
  · next hs =>
    obtain ⟨b₁, h₁, rfl⟩ := h
    exact .whileLoop hs h₁
  · next hs =>
    rcases h with ⟨hd, b₁, b₂, m₁, m₂, h₁, h₂, rfl, rfl⟩ | ⟨hd, b₁, h₁, rfl⟩
    · exact .loop hs hd h₁ h₂
    · exact .closing hs hd h₁
  · obtain ⟨h, rfl⟩ := h
    exact .alone h0 h

theorem Visit.zero {a : Arena} {live : Bool} {b : Behaviors} {ms : List Mark}
    (h : Visit a (.one 0) live b ms) : b = .only .next ∧ ms = [] := by
  cases h with
  | absent => exact ⟨rfl, rfl⟩
  | alone h0 _ => exact absurd rfl h0
  | block hs _ => exact absurd rfl (Arena.ne_zero_of_shape hs)
  | ifElse hs _ _ => exact absurd rfl (Arena.ne_zero_of_shape hs)
  | forLoop hs _ _ _ => exact absurd rfl (Arena.ne_zero_of_shape hs)
  | whileLoop hs _ => exact absurd rfl (Arena.ne_zero_of_shape hs)
  | loop hs _ _ _ => exact absurd rfl (Arena.ne_zero_of_shape hs)
  | closing hs _ _ => exact absurd rfl (Arena.ne_zero_of_shape hs)

end Flow

namespace Resolve

open ShaderLoom.Flow

variable {p : Program} {c : Scene}

/-- The notes of a walk have been taken into the record, and nothing else has. -/
structure Noted (r r' : Resolver) (ms : List Mark) : Prop where
  noted : ∀ m ∈ ms, ∃ fn, r'.facts.stmts[m.node]? = some ⟨fn, m.behaviors, m.live⟩
  kept : ∀ x, (∀ m ∈ ms, m.node ≠ x) → r'.facts.stmts[x]? = r.facts.stmts[x]?

theorem Noted.nil {r r' : Resolver} (h : stmtsOf r' = stmtsOf r) : Noted r r' [] :=
  ⟨by simp, fun x _ => by rw [show r'.facts.stmts = r.facts.stmts from h]⟩

theorem Noted.append {r r₁ r₂ : Resolver} {ms ms' : List Mark} (h : Noted r r₁ ms)
    (h' : Noted r₁ r₂ ms') (hd : ∀ m ∈ ms, ∀ m' ∈ ms', m'.node ≠ m.node) :
    Noted r r₂ (ms ++ ms') := by
  refine ⟨fun m hm => ?_, fun x hx => ?_⟩
  · rcases List.mem_append.1 hm with hm | hm
    · rw [h'.kept m.node (hd m hm)]
      exact h.noted m hm
    · exact h'.noted m hm
  · rw [h'.kept x fun m hm => hx m (List.mem_append_right _ hm), h.kept x fun m hm =>
      hx m (List.mem_append_left _ hm)]

/-- Steps that leave the record alone may come before and after. -/
theorem Noted.keep {r r₀ r₁ r₂ : Resolver} {ms : List Mark} (h : Noted r₀ r₁ ms)
    (h₀ : stmtsOf r₀ = stmtsOf r) (h₂ : stmtsOf r₂ = stmtsOf r₁) : Noted r r₂ ms := by
  have h₀ : r₀.facts.stmts = r.facts.stmts := h₀
  have h₂ : r₂.facts.stmts = r₁.facts.stmts := h₂
  exact ⟨fun m hm => by rw [h₂]; exact h.noted m hm, fun x hx => by rw [h₂, h.kept x hx, h₀]⟩

section Tree

variable (hp : p.TreeShaped)
include hp

/-- The notes about different statements in a statement are about different nodes. -/
theorem apart {i d e : NodeId} (hi : p.inTree i = true) {x : StmtShape NodeId}
    (hx : p.shape? i = some (.stmt x)) (hsub : [d, e].Sublist (substatements x)) {live live' : Bool}
    {b b' : Behaviors} {ms ms' : List Mark} (hd : Visit p.toArena (.one d) live b ms)
    (he : Visit p.toArena (.one e) live' b' ms') : ∀ m ∈ ms, ∀ m' ∈ ms', m'.node ≠ m.node := by
  intro m hm m' hm' hnode
  obtain ⟨hd0, hbelow⟩ := hd.covers m hm
  obtain ⟨he0, hbelow'⟩ := he.covers m' hm'
  have hne : d ≠ e := by
    have hnd := (hsub.filter (· != 0)).nodup (nodup_substatements hp hi hx)
    simp only [List.filter_cons, bne_iff_ne, ne_eq, hd0, he0, not_false_eq_true, if_true,
      List.filter_nil, List.nodup_cons, List.mem_singleton] at hnd
    exact hnd.1
  exact hp.disjoint hi (mem_children_of_substatement hx (hsub.subset (by simp)) hd0)
    (mem_children_of_substatement hx (hsub.subset (by simp)) he0) hne hbelow (hnode ▸ hbelow')

/-- A statement is in the record once its entry is made, what is in it is noted, and the behaviors
are added to the entry. -/
theorem Noted.of_within {i : NodeId} (hi : p.inTree i = true) {live : Bool} {fn : Option NodeId}
    {b : Behaviors} {ms : List Mark} {r r₁ r₂ r₃ : Resolver}
    (hset : r₁.facts.stmts = r.facts.stmts.insert i { function := fn, reachable := live })
    (h : Noted r₁ r₂ ms) (hin : ∀ m ∈ ms, ∃ d ∈ p.children i, p.Below d m.node)
    (hadd : r₃.facts.stmts = r₂.facts.stmts.modify i fun s => { s with behaviors := b }) :
    Noted r r₃ (⟨i, live, b⟩ :: ms) := by
  have hne : ∀ m ∈ ms, m.node ≠ i := by
    rintro m hm hmi
    obtain ⟨d, hd, hx⟩ := hin m hm
    exact hp.not_below_child hi hd (hmi ▸ hx)
  have hother : ∀ x, x ≠ i → r₃.facts.stmts[x]? = r₂.facts.stmts[x]? := by
    intro x hx
    rw [hadd, Std.TreeMap.getElem?_modify, if_neg (by simpa using Ne.symm hx)]
  have hself : r₃.facts.stmts[i]? = some { function := fn, behaviors := b, reachable := live } := by
    have hentry := h.kept i hne
    rw [hset, Std.TreeMap.getElem?_insert_self] at hentry
    rw [hadd, Std.TreeMap.getElem?_modify_self, hentry]
    rfl
  refine ⟨List.forall_mem_cons.2 ⟨⟨fn, hself⟩, fun m hm => ?_⟩, fun x hx => ?_⟩
  · rw [hother _ (hne m hm)]
    exact h.noted m hm
  · have hxi : x ≠ i := Ne.symm (hx ⟨i, live, b⟩ List.mem_cons_self)
    rw [hother x hxi, h.kept x fun m hm => hx m (List.mem_cons_of_mem _ hm), hset,
      Std.TreeMap.getElem?_insert, if_neg (by simpa using Ne.symm hxi)]

end Tree

/-- A step walks through a statement and notes what it finds. -/
def Walks (p : Program) (t : Look) (live : Bool) (r : Resolver) (b : Behaviors) (r' : Resolver) :
    Prop :=
  ∃ ms, Visit p.toArena t live b ms ∧ Noted r r' ms

/-- The same for what is in a statement. -/
def Fills (p : Program) (i : NodeId) (live : Bool) (r : Resolver) (b : Behaviors) (r' : Resolver) :
    Prop :=
  ∃ ms, Within p.toArena live (p.shape? i) b ms ∧ Noted r r' ms ∧ ∀ m ∈ ms,
    ∃ d ∈ p.children i, p.Below d m.node

section Statement

variable (hp : p.TreeShaped)
include hp

theorem inOrder_walks {i : NodeId} (hi : p.inTree i = true)
    {one : NodeId → Bool → Resolve Behaviors} {live : Bool} {ss : List NodeId}
    (hone : ∀ s ∈ ss, ∀ live r, Ends (one s live) r (Walks p (.one s) live r))
    (hmem : ∀ s ∈ ss, s ≠ 0 → s ∈ p.children i) (hnd : (ss.filter (· != 0)).Nodup)
    (sofar : Behaviors) (r : Resolver) :
    Ends (inOrder one live ss sofar) r (Walks p (.all ss sofar) live r) := by
  induction ss generalizing sofar r with
  | nil => exact .pure ⟨[], .done, .nil rfl⟩
  | cons s ss ih =>
    have hnd' : (ss.filter (· != 0)).Nodup := ((List.sublist_cons_self s ss).filter _).nodup hnd
    unfold inOrder
    refine Ends.bind ((hone s List.mem_cons_self _ r).mono fun b r₁ h₁ => ?_)
    obtain ⟨ms, hv, hnoted⟩ := h₁
    refine (ih (fun s hs => hone s (List.mem_cons_of_mem _ hs))
      (fun s hs => hmem s (List.mem_cons_of_mem _ hs)) hnd' _ r₁).mono fun b' r₂ h₂ => ?_
    obtain ⟨ms', hv', hnoted'⟩ := h₂
    refine ⟨ms ++ ms', .next hv hv', hnoted.append hnoted' ?_⟩
    intro m hm m' hm' hnode
    obtain ⟨hs0, hbelow⟩ := hv.covers m hm
    obtain ⟨d, hd, hd0, hbelow'⟩ := hv'.covers m' hm'
    have hne : s ≠ d := by
      rintro rfl
      rw [List.filter_cons, if_pos (by simpa using hs0)] at hnd
      exact (List.nodup_cons.1 hnd).1 (List.mem_filter.2 ⟨hd, by simpa using hs0⟩)
    exact hp.disjoint hi (hmem s List.mem_cons_self hs0) (hmem d (List.mem_cons_of_mem _ hd) hd0)
      hne hbelow
      (hnode ▸ hbelow')

variable (hc : c.arena = p.toArena) {rank : NodeId → Nat}
  (hrank : ∀ i d, p.inTree i = true → d ∈ p.children i → rank i < rank d)
include hrank

/-- The statements of a block, with the block's own entry still to be made. -/
theorem block_fills_walk {i : NodeId} (hi : p.inTree i = true) {ss : List NodeId}
    (hx : p.shape? i = some (.stmt (.block ss))) {one : NodeId → Bool → Resolve Behaviors}
    (hone : ∀ s, (s ≠ 0 → p.inTree s = true ∧ rank i < rank s) →
      ∀ live r, Ends (one s live) r (Walks p (.one s) live r)) (live : Bool) (r : Resolver) :
    Ends (inOrder one live ss (.only .next)) r (Fills p i live r) := by
  have hchild : ∀ s ∈ ss, s ≠ 0 → s ∈ p.children i :=
    fun s hs h0 => mem_children_of_substatement hx hs h0
  refine (inOrder_walks hp hi (fun s hs => hone s fun h0 => ?_) hchild
    (nodup_substatements hp hi hx) _ r).mono
    fun b r₁ h₁ => ?_
  · exact ⟨hp.inTree_child hi (hchild s hs h0), hrank _ _ hi (hchild s hs h0)⟩
  · obtain ⟨ms, hv, hnoted⟩ := h₁
    refine ⟨ms, by rw [hx]; exact hv, hnoted, fun m hm => ?_⟩
    obtain ⟨d, hd, hd0, hbelow⟩ := hv.covers m hm
    exact ⟨d, hchild d hd hd0, hbelow⟩

include hc

/-- The body of a loop is walked through if it is a block, and else it is left alone. -/
theorem openBody_walks {i body : NodeId} (hi : p.inTree i = true)
    (hbody : body ≠ 0 → body ∈ p.children i) {one : NodeId → Bool → Resolve Behaviors}
    (hone : ∀ s, (s ≠ 0 → p.inTree s = true ∧ rank i < rank s) →
      ∀ live r, Ends (one s live) r (Walks p (.one s) live r)) (live : Bool) (r : Resolver) :
    Ends (openBody c one body live) r fun b r' =>
      (p.isBlock body ∧ Walks p (.one body) live r b r') ∨
      (¬ p.isBlock body ∧ b = {} ∧ stmtsOf r' = stmtsOf r) := by
  unfold openBody
  rw [hc]
  split
  · next ss hss =>
    have hx : p.shape? body = some (.stmt (.block ss)) := by
      obtain ⟨x, hx, hs⟩ := Option.bind_eq_some_iff.1 hss
      unfold Shape.block? at hs
      split at hs <;> simp_all
    have h0 := Arena.ne_zero_of_shape hx
    have hlt := hrank _ _ hi (hbody h0)
    have hin := hp.inTree_child hi (hbody h0)
    refine Ends.bind (.modify (Ends.bind ?_))
    refine (block_fills_walk hp hrank hin hx
      (fun s hs => hone s fun h0 => ⟨(hs h0).1, Nat.lt_trans hlt (hs h0).2⟩) live _).mono
      fun b r₁ h₁ => ?_
    obtain ⟨ms, hwithin, hnoted, hbelow⟩ := h₁
    refine Ends.bind
      (.modify (.pure (.inl ⟨by simp [Arena.isBlock, hss], _, .of_within h0 hwithin, ?_⟩)))
    exact hnoted.of_within hp hin rfl hbelow rfl
  · next hss => exact .pure (.inr ⟨by simp [Arena.isBlock, hss], rfl, rfl⟩)

/-- What is in a statement, whatever its shape. -/
theorem inside_fills {i : NodeId} (hi : p.inTree i = true) {one : NodeId → Bool → Resolve Behaviors}
    (hone : ∀ s, (s ≠ 0 → p.inTree s = true ∧ rank i < rank s) →
      ∀ live r, Ends (one s live) r (Walks p (.one s) live r)) (live : Bool) (r : Resolver) :
    Ends (inside c one i live (p.shape? i)) r (Fills p i live r) := by
  have hchild : ∀ {x : StmtShape NodeId} {s : NodeId}, p.shape? i = some (.stmt x) →
      s ∈ substatements x →
      s ≠ 0 → s ∈ p.children i := fun hx hs h0 => mem_children_of_substatement hx hs h0
  have hsub : ∀ {x : StmtShape NodeId} {s : NodeId}, p.shape? i = some (.stmt x) →
      s ∈ substatements x →
      ∀ live r, Ends (one s live) r (Walks p (.one s) live r) := fun hx hs =>
    hone _ fun h0 => ⟨hp.inTree_child hi (hchild hx hs h0), hrank _ _ hi (hchild hx hs h0)⟩
  have hexpr := fun e => (moves_expr c c.fuel e).stmts
  -- A statement without others in it leaves the record as it is.
  have hplain : ∀ {b : Behaviors} {r' : Resolver}, alone? (p.shape? i) = some b →
      stmtsOf r' = stmtsOf r →
      Fills p i live r b r' := fun hb hr => ⟨[], within_of_alone hb, .nil hr, by simp⟩
  -- Notes about the statements in a statement are about nodes below its children.
  have hdown : ∀ {x : StmtShape NodeId} {s : NodeId} {b : Behaviors} {ms : List Mark},
      p.shape? i = some (.stmt x) → s ∈ substatements x → Visit p.toArena (.one s) live b ms →
      ∀ m ∈ ms, ∃ d ∈ p.children i, p.Below d m.node := fun hx hs hv m hm =>
    ⟨_, hchild hx hs (hv.covers m hm).1, (hv.covers m hm).2⟩
  cases hx : p.shape? i with
  | none =>
    exact Ends.bind (((moves_report c i _).stmts r).mono fun _ r₁ h₁ =>
      .pure (hplain (by rw [hx]; rfl) h₁))
  | some sh =>
    cases sh with
    | stmt x =>
      cases x with
      | block ss =>
        refine Ends.bind (.modify (Ends.bind ?_))
        refine (block_fills_walk hp hrank hi hx hone live _).mono fun b r₁ h₁ =>
          Ends.bind (.modify (.pure ?_))
        obtain ⟨ms, hw, hnoted, hbelow⟩ := h₁
        exact ⟨ms, hw, hnoted.keep rfl rfl, hbelow⟩
      | varDecl v =>
        exact Ends.bind (((moves_localVariable c v).stmts r).mono fun _ r₁ h₁ =>
          .pure (hplain (by rw [hx]; rfl) h₁))
      | assign l e =>
        refine Ends.bind
          ((hexpr l r).mono fun _ r₁ h₁ => Ends.bind ((hexpr e r₁).mono fun _ r₂ h₂ => .pure ?_))
        exact hplain (by rw [hx]; rfl) (h₂.trans h₁)
      | increment l _ =>
        exact Ends.bind ((hexpr l r).mono fun _ r₁ h₁ => .pure (hplain (by rw [hx]; rfl) h₁))
      | callStatement e =>
        exact Ends.bind ((hexpr e r).mono fun _ r₁ h₁ => .pure (hplain (by rw [hx]; rfl) h₁))
      | ifElse cond body otherwise =>
        refine Ends.bind ((hexpr cond r).mono fun _ r₁ h₁ => ?_)
        refine Ends.bind ((hsub hx (by simp [substatements]) live r₁).mono fun b r₂ h₂ => ?_)
        refine Ends.bind ((hsub hx (by simp [substatements]) live r₂).mono fun b' r₃ h₃ => .pure ?_)
        obtain ⟨ms, hv, hn⟩ := h₂
        obtain ⟨ms', hv', hn'⟩ := h₃
        refine ⟨ms ++ ms', by rw [hx]; exact ⟨_, _, _, _, hv, hv', rfl, rfl⟩,
          (hn.keep h₁ rfl).append hn' (apart hp hi hx (.refl _) hv hv'),
          List.forall_mem_append.2 ⟨?_, ?_⟩⟩
        · exact hdown hx (by simp [substatements]) hv
        · exact hdown hx (by simp [substatements]) hv'
      | forLoop init cond continuing body =>
        refine Ends.bind (.modify (Ends.bind ?_))
        refine (hsub hx (by simp [substatements]) live _).mono fun b₁ r₁ h₁ => ?_
        refine Ends.bind ((hexpr cond r₁).mono fun _ r₂ h₂ => ?_)
        refine Ends.bind ((hsub hx (by simp [substatements]) live r₂).mono fun b₃ r₃ h₃ => ?_)
        refine Ends.bind ((hsub hx (by simp [substatements]) live r₃).mono fun b₄ r₄ h₄ => ?_)
        refine Ends.bind (.modify (.pure ?_))
        obtain ⟨m₁, hv₁, hn₁⟩ := h₁
        obtain ⟨m₃, hv₃, hn₃⟩ := h₃
        obtain ⟨m₄, hv₄, hn₄⟩ := h₄
        have hfirst :=
          (hn₁.keep rfl h₂).append hn₃ (apart hp hi hx (by simp [substatements]) hv₁ hv₃)
        have hlast : ∀ m ∈ m₁ ++ m₃, ∀ m' ∈ m₄, m'.node ≠ m.node := by
          refine List.forall_mem_append.2 ⟨?_, ?_⟩
          · exact apart hp hi hx (by simp [substatements]) hv₁ hv₄
          · exact apart hp hi hx (by simp [substatements]) hv₃ hv₄
        refine ⟨m₁ ++ m₃ ++ m₄, by rw [hx]; exact ⟨_, _, _, _, _, _, hv₁, hv₃, hv₄, rfl, rfl⟩,
          (hfirst.append hn₄ hlast).keep rfl rfl,
          List.forall_mem_append.2 ⟨List.forall_mem_append.2 ⟨?_, ?_⟩, ?_⟩⟩
        · exact hdown hx (by simp [substatements]) hv₁
        · exact hdown hx (by simp [substatements]) hv₃
        · exact hdown hx (by simp [substatements]) hv₄
      | whileLoop cond body =>
        refine Ends.bind ((hexpr cond r).mono fun _ r₁ h₁ => ?_)
        refine Ends.bind ((hsub hx (by simp [substatements]) live r₁).mono fun b r₂ h₂ => .pure ?_)
        obtain ⟨ms, hv, hn⟩ := h₂
        exact ⟨ms, by rw [hx]; exact ⟨b, hv,
          rfl⟩, hn.keep h₁ rfl, hdown hx (by simp [substatements]) hv⟩
      | loop body continuing =>
        refine Ends.bind (.modify (Ends.bind ?_))
        refine (openBody_walks hp hc hrank hi (hchild hx (by simp [substatements])) hone live
          _).mono fun b₁ r₁ h₁ => ?_
        refine Ends.bind ((hsub hx (by simp [substatements]) live r₁).mono fun b₂ r₂ h₂ => ?_)
        refine Ends.bind (.modify (.pure ?_))
        obtain ⟨ms', hv', hn'⟩ := h₂
        rcases h₁ with ⟨hblock, ms, hv, hn⟩ | ⟨hblock, rfl, hr₁⟩
        · refine ⟨ms ++ ms', by rw [hx]; exact .inl ⟨hblock, _, _, _, _, hv, hv', rfl, rfl⟩,
            (hn.append hn' (apart hp hi hx (.refl _) hv hv')).keep rfl rfl,
            List.forall_mem_append.2 ⟨?_, ?_⟩⟩
          · exact hdown hx (by simp [substatements]) hv
          · exact hdown hx (by simp [substatements]) hv'
        · exact ⟨ms', by rw [hx]; exact .inr ⟨hblock, _, hv', rfl⟩, hn'.keep hr₁ rfl,
            hdown hx (by simp [substatements]) hv'⟩
      | breakLoop => exact .pure (hplain (by rw [hx]; rfl) rfl)
      | continueLoop => exact .pure (hplain (by rw [hx]; rfl) rfl)
      | discard => exact .pure (hplain (by rw [hx]; rfl) rfl)
      | ret v =>
        exact Ends.bind ((hexpr v r).mono fun _ r₁ h₁ => .pure (hplain (by rw [hx]; rfl) h₁))
    | _ =>
      exact Ends.bind (((moves_report c i _).stmts r).mono fun _ r₁ h₁ =>
        .pure (hplain (by rw [hx]; rfl) h₁))

/-- Resolving a statement walks through it. The bound on the depth is never met. -/
theorem statement_walks (hle : ∀ i, rank i ≤ p.treeIds.length) (n : Nat) {s : NodeId}
    (hs : s ≠ 0 → p.inTree s = true ∧ p.treeIds.length < n + rank s) (live : Bool) (r : Resolver) :
    Ends (statement c n s live) r (Walks p (.one s) live r) := by
  induction n generalizing s live r with
  | zero =>
    by_cases h0 : s = 0
    · subst h0
      unfold statement
      exact Ends.bind (((moves_refuse c 0 _).stmts r).mono fun _ r₁ h₁ =>
        .pure ⟨[], .absent, .nil h₁⟩)
    · obtain ⟨ht, hn⟩ := hs h0
      have := hle s
      omega
  | succ n ih =>
    unfold statement
    split
    · next h0 =>
      subst h0
      exact .pure ⟨[], .absent, .nil rfl⟩
    · next h0 =>
      obtain ⟨ht, hn⟩ := hs h0
      refine Ends.get (Ends.bind (.modify (Ends.bind (.modify (Ends.bind ?_)))))
      rw [hc]
      refine (inside_fills hp hc hrank ht (fun d hd live r => ih (fun hd0 => ?_) live r) live
        _).mono fun b r₁ h₁ => ?_
      · have := (hd hd0).2
        exact ⟨(hd hd0).1, by omega⟩
      · obtain ⟨ms, hwithin, hnoted, hbelow⟩ := h₁
        refine Ends.bind (.modify (Ends.bind (.modify (.pure ?_))))
        exact ⟨_, .of_within h0 hwithin, (hnoted.of_within hp ht rfl hbelow rfl).keep rfl rfl⟩

/-- A function's body, after its parameters. -/
theorem body_walks (hle : ∀ i, rank i ≤ p.treeIds.length) (hfuel : p.treeIds.length < c.fuel)
    {g : NodeId} {f : FunctionShape Symbol NodeId} (hbody : f.body ≠ 0 → p.inTree f.body = true)
    (r : Resolver) :
    Ends (body c g f) r fun _ r' => ∃ b, Walks p (.one f.body) true r b r' ∧
      r'.facts.functions[g]?.map (·.behaviors) = r.facts.functions[g]?.map (fun _ => b) ∧
      ∀ h, h ≠ g → headAt r'.facts h = headAt r.facts h := by
  have hs : f.body ≠ 0 → p.inTree f.body = true ∧ p.treeIds.length < c.fuel + rank f.body :=
    fun h0 => ⟨hbody h0, Nat.lt_of_lt_of_le hfuel (Nat.le_add_right _ _)⟩
  refine Ends.bind (.modify ?_)
  have hparams := Moves.forM f.params (touch_parameter c g)
  refine Ends.bind
    ((((Moves.forM f.params (moves_parameter c g)).stmts _).and (hparams.headAt _)).mono
    fun _ r₁ h₁ => ?_)
  refine Ends.bind (((statement_walks hp hc hrank hle c.fuel hs true r₁).and
    ((touch_statement c c.fuel f.body true).headAt r₁)).mono fun b r₂ h₂ => ?_)
  obtain ⟨⟨ms, hv, hnoted⟩, hhead₂⟩ := h₂
  obtain ⟨hstmts, hhead₁⟩ := h₁
  have hheads : ∀ h, headAt r₂.facts h = headAt r.facts h := fun h => (hhead₂ h).trans (hhead₁ h)
  refine Ends.bind (.modify (.modify ⟨b, ⟨ms, hv, hnoted.keep hstmts rfl⟩, ?_, fun h hne => ?_⟩))
  · have hsome := congrArg (Option.map fun _ => b) (hheads g)
    simp only [headAt, Option.map_map] at hsome
    simp only [Std.TreeMap.getElem?_modify_self, Option.map_map]
    exact hsome
  · rw [← hheads h]
    simp only [headAt]
    rw [Std.TreeMap.getElem?_modify, if_neg (by simpa using Ne.symm hne)]

end Statement

/-- Notes of the functions' bodies that make up a record. -/
structure Recounts (p : Program) (done : List NodeId) (notes : NodeId → Behaviors × List Mark)
    (facts : Facts) : Prop where
  visit : ∀ g ∈ done,
    ∀ f, p.function? g = some f → Visit p.toArena (.one f.body) true (notes g).1 (notes g).2
  noted : ∀ g ∈ done, (p.function? g).isSome → ∀ m ∈ (notes g).2,
    ∃ fn, facts.stmts[m.node]? = some ⟨fn, m.behaviors, m.live⟩
  behaviors : ∀ g ∈ done, (p.function? g).isSome →
    facts.functions[g]?.map (·.behaviors) = some (notes g).1
  only : ∀ x, (∀ g ∈ done, (p.function? g).isSome → ∀ m ∈ (notes g).2, m.node ≠ x) →
    facts.stmts[x]? = none

/-- A function whose head is resolved has facts, and no function loses them. -/
theorem signature_heads (g : NodeId) (f : FunctionShape Symbol NodeId) (r : Resolver) :
    Ends (signature c g f) r fun _ r' => stmtsOf r' = stmtsOf r ∧ r'.facts.functions[g]?.isSome ∧
      ∀ h : NodeId, r.facts.functions[h]?.isSome → r'.facts.functions[h]?.isSome := by
  refine (((moves_signature c g f).stmts r).and ?_).mono fun _ _ h => h
  have hlast : ∀ (t : Option Ty) (r₁ : Resolver), r₁.facts.functions[g]?.isSome →
      (∀ h : NodeId, r.facts.functions[h]?.isSome → r₁.facts.functions[h]?.isSome) →
      Ends (updateFunction g fun f' => { f' with
        returnType := t
        stage := stageOf c.arena f.attributes
        workgroup := workgroupOf c.arena f.attributes }) r₁ fun _ r' =>
          r'.facts.functions[g]?.isSome ∧
          ∀ h : NodeId, r.facts.functions[h]?.isSome → r'.facts.functions[h]?.isSome := by
    intro t r₁ hg hall
    refine .modify ⟨?_, fun h hh => ?_⟩
    · simpa [Std.TreeMap.getElem?_modify_self] using hg
    · rw [Std.TreeMap.getElem?_modify]
      split
      · simpa using hg
      · exact hall h hh
  have hstart : ∀ h : NodeId, (r.facts.functions[h]?.isSome ∨ h = g) →
      (r.facts.functions.insert g { decl := g, name := c.arena.nameOf f.name })[h]?.isSome := by
    intro h hh
    rw [Std.TreeMap.getElem?_insert]
    split
    · rfl
    · next hne => exact hh.resolve_right fun he => hne (by simp [he])
  unfold signature
  refine Ends.bind (.modify ?_)
  split
  · have htype : Moves (Touch True) (type c c.fuel f.returnType) := (touch_types c c.fuel).1 _
    refine Ends.bind ((htype.headAt _).mono fun t r₁ h₁ => ?_)
    have hsome : ∀ h : NodeId, (r.facts.functions[h]?.isSome ∨ h = g) →
        r₁.facts.functions[h]?.isSome := by
      intro h hh
      have hmap := congrArg Option.isSome (h₁ h)
      simp only [headAt, Option.isSome_map] at hmap
      rw [hmap]
      exact hstart h hh
    exact hlast t r₁ (hsome g (.inr rfl)) fun h hh => hsome h (.inl hh)
  · exact Ends.bind (.pure (hlast _ _ (hstart g (.inr rfl)) fun h hh => hstart h (.inl hh)))

theorem covers_function {g x : NodeId} {f : FunctionShape Symbol NodeId}
    (hf : p.function? g = some f) (h : (Look.one f.body).covers p x) : g ≠ 0 ∧ p.Below g x := by
  refine ⟨?_, .of_child (body_mem_children hf h.1) h.2⟩
  rintro rfl
  simp [Arena.function?, Arena.shape?] at hf

/-- One more body. -/
theorem Recounts.snoc (hp : p.TreeShaped) {done rest : List NodeId} {g : NodeId}
    {notes : NodeId → Behaviors × List Mark} {f : FunctionShape Symbol NodeId} {r r' : Resolver}
    {b : Behaviors} {ms : List Mark} (hgs : p.globals = done ++ g :: rest)
    (h : Recounts p done notes r.facts) (hf : p.function? g = some f)
    (hv : Visit p.toArena (.one f.body) true b ms) (hn : Noted r r' ms)
    (hb : r'.facts.functions[g]?.map (·.behaviors) = some b)
    (hhead : ∀ h, h ≠ g → headAt r'.facts h = headAt r.facts h) :
    Recounts p (done ++ [g]) (fun h => if h = g then (b, ms) else notes h) r'.facts := by
  have hg0 : g ≠ 0 := by
    rintro rfl
    simp [Arena.function?, Arena.shape?] at hf
  have hfresh : g ∉ done := by
    intro hd
    have hnd := hp.nodup_globals
    rw [hgs, List.filter_append, List.filter_cons, if_pos (by simpa using hg0)] at hnd
    exact (List.nodup_append.1 hnd).2.2 _ (List.mem_filter.2 ⟨hd, by simpa using hg0⟩) _
      List.mem_cons_self rfl
  have hne : ∀ d ∈ done, d ≠ g := fun d hd he => hfresh (he ▸ hd)
  have hmem : ∀ d ∈ done, d ∈ p.globals := fun d hd => hgs ▸ List.mem_append_left _ hd
  have hgmem : g ∈ p.globals := by simp [hgs]
  -- The notes of another function are about other nodes.
  have hapart : ∀ d ∈ done, (p.function? d).isSome → ∀ m ∈ (notes d).2,
      ∀ m' ∈ ms, m'.node ≠ m.node := by
    intro d hd hfd m hm m' hm' hnode
    obtain ⟨f', hf'⟩ := Option.isSome_iff_exists.1 hfd
    obtain ⟨hd0, hbelow⟩ := covers_function hf' ((h.visit d hd f' hf').covers m hm)
    obtain ⟨_, hbelow'⟩ := covers_function hf (hv.covers m' hm')
    exact hp.disjoint p.inTree_root (Program.TreeShaped.mem_children_root (hmem d hd) hd0)
      (Program.TreeShaped.mem_children_root hgmem hg0) (hne d hd) hbelow (hnode ▸ hbelow')
  have hlast : ∀ d ∈ done ++ [g], d ∈ done ∧ d ≠ g ∨ d = g := by
    intro d hd
    rcases List.mem_append.1 hd with hd | hd
    · exact .inl ⟨hd, hne d hd⟩
    · exact .inr (List.mem_singleton.1 hd)
  refine ⟨fun d hd f' hf' => ?_, fun d hd hfd m hm => ?_, fun d hd hfd => ?_, fun x hx => ?_⟩
  · rcases hlast d hd with ⟨hd, hdg⟩ | rfl
    · simpa [hdg] using h.visit d hd f' hf'
    · cases hf.symm.trans hf'
      simpa using hv
  · rcases hlast d hd with ⟨hd, hdg⟩ | rfl
    · simp only [hdg, if_false] at hm
      rw [hn.kept m.node (hapart d hd hfd m hm)]
      exact h.noted d hd hfd m hm
    · exact hn.noted m (by simpa using hm)
  · rcases hlast d hd with ⟨hd, hdg⟩ | rfl
    · have hsame := congrArg (Option.map Prod.snd) (hhead d hdg)
      simp only [headAt, Option.map_map] at hsame
      simp only [hdg, if_false]
      exact hsame.trans (h.behaviors d hd hfd)
    · simpa using hb
  · rw [hn.kept x fun m hm => ?_, h.only x fun d hd hfd m hm => ?_]
    · exact hx d (List.mem_append_left _ hd) hfd m (by simpa [hne d hd] using hm)
    · exact hx g (by simp) (by simp [hf]) m (by simpa using hm)

/-- Once a module is resolved, its record is the notes of the walks through its functions. -/
theorem module_recounts (hp : p.TreeShaped) (hc : c.arena = p.toArena)
    (hfuel : p.treeIds.length < c.fuel) {r : Resolver} (hr : r.facts.stmts = {}) :
    Ends (module c p.globals) r fun _ r' => ∃ notes, Recounts p p.globals notes r'.facts := by
  obtain ⟨rank, hle, hrank⟩ := hp.ranked_treeIds
  unfold module
  refine Ends.bind (Ends.forIn (fun _ r => stmtsOf r = {}) hr (fun g rest r _ hr => ?_) fun r₁ h₁ =>
    ?_)
  · split
    · exact Ends.bind (((moves_declaration c g).stmts r).mono fun _ _ h => .pure ⟨rfl, h.trans hr⟩)
    · exact .pure ⟨rfl, hr⟩
  refine Ends.bind (Ends.forIn (fun rest r => stmtsOf r = {} ∧ ∃ done, p.globals = done ++ rest ∧
    ∀ g ∈ done, (p.function? g).isSome → r.facts.functions[g]?.isSome) ⟨h₁, [], rfl, by simp⟩
    (fun g rest r hg hr => ?_) fun r₂ h₂ => ?_)
  · obtain ⟨hr, done, hgs, hdone⟩ := hr
    rw [hc]
    split
    · next f hf =>
      refine Ends.bind ((signature_heads g f r).mono fun _ r' h =>
        .pure ⟨rfl, h.1.trans hr, done ++ [g], by simp [hgs], ?_⟩)
      intro d hd hfd
      rcases List.mem_append.1 hd with hd | hd
      · exact h.2.2 d (hdone d hd hfd)
      · rw [List.mem_singleton.1 hd]
        exact h.2.1
    · next hf =>
      refine .pure ⟨rfl, hr, done ++ [g], by simp [hgs], fun d hd hfd => ?_⟩
      rcases List.mem_append.1 hd with hd | hd
      · exact hdone d hd hfd
      · rw [List.mem_singleton.1 hd] at hfd
        obtain ⟨f, hf'⟩ := Option.isSome_iff_exists.1 hfd
        exact absurd hf' (hf f)
  obtain ⟨hempty, done, hgs, hheads⟩ := h₂
  rw [List.append_nil] at hgs
  subst hgs
  have hstart : Recounts p [] (fun _ => ({}, [])) r₂.facts :=
    ⟨by simp, by simp, by simp, fun x _ => by rw [show r₂.facts.stmts = {} from hempty]; simp⟩
  refine Ends.bind
    (Ends.forIn (fun rest r =>
      (∀ g ∈ p.globals, (p.function? g).isSome → r.facts.functions[g]?.isSome) ∧
    ∃ done notes, p.globals = done ++ rest ∧
      Recounts p done notes r.facts) ⟨hheads, [], _, rfl, hstart⟩
    (fun g rest r hg hr => ?_) fun r₃ h₃ => ?_)
  · obtain ⟨hheads, done, notes, hgs, hdone⟩ := hr
    rw [hc]
    split
    · next f hf =>
      have hg0 : g ≠ 0 := by
        rintro rfl
        simp [Arena.function?, Arena.shape?] at hf
      have hbody : f.body ≠ 0 → p.inTree f.body = true := fun h0 =>
        hp.inTree_child (hp.inTree_global hg hg0) (body_mem_children hf h0)
      refine Ends.bind ((body_walks hp hc hrank hle hfuel hbody r).mono fun _ r' hr' => ?_)
      obtain ⟨b, ⟨ms, hv, hn⟩, hb, hhead⟩ := hr'
      obtain ⟨facts, hfacts⟩ := Option.isSome_iff_exists.1 (hheads g hg (by simp [hf]))
      rw [hfacts, Option.map_some] at hb
      refine .pure ⟨rfl, fun d hd hfd => ?_, done ++ [g],
        _, by simp [hgs], hdone.snoc hp hgs hf hv hn hb hhead⟩
      by_cases hdg : d = g
      · subst hdg
        obtain ⟨facts', hfacts', _⟩ := Option.map_eq_some_iff.1 hb
        simp [hfacts']
      · have hmap := congrArg Option.isSome (hhead d hdg)
        simp only [headAt, Option.isSome_map] at hmap
        rw [hmap]
        exact hheads d hd hfd
    · next hf =>
      refine .pure ⟨rfl, hheads, done ++ [g], notes, by simp [hgs], ?_⟩
      have hnone : p.function? g = none := Option.eq_none_iff_forall_ne_some.2 hf
      have hlast : ∀ d ∈ done ++ [g], (p.function? d).isSome → d ∈ done := by
        intro d hd hfd
        rcases List.mem_append.1 hd with hd | hd
        · exact hd
        · rw [List.mem_singleton.1 hd, hnone] at hfd
          simp at hfd
      exact ⟨fun d hd f hf => hdone.visit d (hlast d hd (by simp [hf])) f hf,
        fun d hd hfd => hdone.noted d (hlast d hd hfd) hfd, fun d hd hfd =>
          hdone.behaviors d (hlast d hd hfd) hfd,
        fun x hx => hdone.only x fun d hd => hx d (List.mem_append_left _ hd)⟩
  · obtain ⟨_, done, notes, hgs, hdone⟩ := h₃
    rw [List.append_nil] at hgs
    subst hgs
    refine .modify ⟨notes, hdone.visit, ?_, fun g hg hfg => ?_, ?_⟩
    · simpa only [Facts.stmts_summarize] using hdone.noted
    · have hsame := congrArg (Option.map Prod.snd) (headAt_summarize r₃.facts p.globals g)
      simp only [headAt, Option.map_map] at hsame
      exact hsame.trans (hdone.behaviors g hg hfg)
    · simpa only [Facts.stmts_summarize] using hdone.only

section Proper

/-- Every node in the record is a statement, unless there is a problem. -/
def Proper (a : Arena) (r : Resolver) : Prop :=
  r.diagnostics.hasErrors = true ∨ ∀ x : NodeId, r.facts.stmts[x]?.isSome →
    (a.shape? x).any Shape.isStatement = true

/-- The step keeps it so. -/
def KeepsProper {α : Type} (a : Arena) (step : Resolve α) : Prop :=
  ∀ r, Proper a r → Ends step r fun _ r' => Proper a r'

variable {α β : Type} {a : Arena}

theorem KeepsProper.pure (x : α) : KeepsProper a (pure x : Resolve α) := fun _ h => .pure h

theorem KeepsProper.bind {step : Resolve β} {next : β → Resolve α} (h : KeepsProper a step)
    (h' : ∀ b, KeepsProper a (next b)) : KeepsProper a (step >>= next) :=
  fun r hr => Ends.bind ((h r hr).mono fun b r' hr' => h' b r' hr')

theorem KeepsProper.modify {g : Resolver → Resolver} (hd : ∀ r, (g r).diagnostics = r.diagnostics)
    (hs : ∀ r (x : NodeId), (g r).facts.stmts[x]?.isSome → r.facts.stmts[x]?.isSome) :
    KeepsProper a (modify g : Resolve Unit) :=
  fun r h => .modify (h.imp (fun h => by rwa [hd]) fun h x hx => h x (hs r x hx))

/-- Steps that only touch other facts. -/
theorem KeepsProper.of_touch {inner : Prop} {step : Resolve α} (h : Moves (Touch inner) step)
    (h' : ∀ r, Ends step r fun _ r' => stmtsOf r' = stmtsOf r) : KeepsProper a step := by
  intro r hr
  refine ((h.hasErrors r).and (h' r)).mono fun _ r' hr' => hr.imp hr'.1 fun hall x hx => hall x ?_
  rwa [show r'.facts.stmts = r.facts.stmts from hr'.2] at hx

theorem keepsProper_setBehaviors (id : NodeId) (b : Behaviors) :
    KeepsProper a (setBehaviors id b) :=
  .modify (fun _ => rfl) fun r x hx => by
    have hsome := isSome_modify (m := r.facts.stmts) (g := fun s => { s with behaviors := b })
      (i := id) (x := x)
    exact hsome ▸ hx

variable {one : NodeId → Bool → Resolve Behaviors}

theorem keepsProper_inOrder (h : ∀ id live, KeepsProper a (one id live)) (reachable : Bool)
    (ids : List NodeId) (sofar : Behaviors) : KeepsProper a (inOrder one reachable ids sofar) := by
  induction ids generalizing sofar with
  | nil => exact .pure _
  | cons id ids ih => exact .bind (h id _) fun _ => ih _

theorem keepsProper_setStmt {id : NodeId} (hs : (a.shape? id).any Shape.isStatement = true)
    (reachable : Bool) : KeepsProper a (setStmt id reachable) := by
  refine fun r h => .modify (h.imp (fun h => h) fun h x hx => ?_)
  rw [Std.TreeMap.getElem?_insert] at hx
  split at hx
  · next hc =>
    rw [Nat.compare_eq_eq] at hc
    exact hc ▸ hs
  · exact h x hx

theorem keepsProper_inside (h : ∀ id live, KeepsProper c.arena (one id live)) (id : NodeId)
    (reachable : Bool) (x : StmtShape NodeId) :
    KeepsProper c.arena (inside c one id reachable (some (.stmt x))) := by
  have hexpr : ∀ e, KeepsProper c.arena (expr c c.fuel e) := fun e =>
    .of_touch (touch_expr c c.fuel e : Moves (Touch True) _) (moves_expr c c.fuel e).stmts
  have hpush : KeepsProper c.arena pushFrame := .modify (fun _ => rfl) fun _ _ h => h
  have hpop : KeepsProper c.arena popFrame := .modify (fun _ => rfl) fun _ _ h => h
  cases x with
  | block ss =>
    exact .bind hpush fun _ => .bind (keepsProper_inOrder h reachable _ _) fun _ =>
      .bind hpop fun _ => .pure _
  | varDecl v =>
    exact .bind (.of_touch (touch_localVariable c v) (moves_localVariable c v).stmts) fun _ =>
      .pure _
  | assign l e => exact .bind (hexpr _) fun _ => .bind (hexpr _) fun _ => .pure _
  | increment l _ => exact .bind (hexpr _) fun _ => .pure _
  | callStatement e => exact .bind (hexpr _) fun _ => .pure _
  | ifElse cond body otherwise =>
    exact .bind (hexpr _) fun _ => .bind (h _ _) fun _ => .bind (h _ _) fun _ => .pure _
  | forLoop init cond continuing body =>
    exact .bind hpush fun _ =>
      .bind (h _ _) fun _ => .bind (hexpr _) fun _ => .bind (h _ _) fun _ =>
      .bind (h _ _) fun _ => .bind hpop fun _ => .pure _
  | whileLoop cond body => exact .bind (hexpr _) fun _ => .bind (h _ _) fun _ => .pure _
  | loop body continuing =>
    refine .bind hpush fun _ => .bind ?_ fun _ => .bind (h _ _) fun _ => .bind hpop fun _ => .pure _
    unfold openBody
    split
    · next ss hss =>
      have hblock : (c.arena.shape? body).any Shape.isStatement = true := by
        obtain ⟨s, hs, hss⟩ := Option.bind_eq_some_iff.1 hss
        unfold Shape.block? at hss
        split at hss <;> simp_all [Shape.isStatement]
      exact .bind (keepsProper_setStmt hblock reachable) fun _ =>
        .bind (keepsProper_inOrder h reachable _ _) fun _ =>
        .bind (keepsProper_setBehaviors _ _) fun _ => .pure _
    · exact .pure _
  | breakLoop => exact .pure _
  | continueLoop => exact .pure _
  | discard => exact .pure _
  | ret v => exact .bind (hexpr _) fun _ => .pure _

/-- Only what is no statement is reported as such, so whatever else is walked through is one. -/
theorem keepsProper_statement (n : Nat) (id : NodeId) (reachable : Bool) :
    KeepsProper c.arena (statement c n id reachable) := by
  induction n generalizing id reachable with
  | zero =>
    unfold statement
    exact .bind (.of_touch (touch_refuse c id _ : Moves (Touch True) _) (moves_refuse c id _).stmts)
      fun _ => .pure _
  | succ n ih =>
    have hstmt : ∀ s,
        KeepsProper c.arena (modify fun r => { r with stmt := s } : Resolve Unit) := fun _ =>
      .modify (fun _ => rfl) fun _ _ h => h
    intro r hr
    unfold statement
    split
    · exact .pure hr
    · refine Ends.get (Ends.bind (.modify ?_))
      by_cases hs : (c.arena.shape? id).any Shape.isStatement = true
      · refine Ends.bind
          ((keepsProper_setStmt hs reachable { r with stmt := id } hr).mono fun _ r₁ h₁ => ?_)
        obtain ⟨sh, hsh, hst⟩ := (Option.any_eq_true _ _).1 hs
        cases sh with
        | stmt x =>
          rw [hsh]
          refine Ends.bind ((keepsProper_inside ih id reachable x r₁ h₁).mono fun b r₂ h₂ => ?_)
          exact KeepsProper.bind (keepsProper_setBehaviors id b)
            (fun _ => .bind (hstmt _) fun _ => .pure _) r₂ h₂
        | _ => cases hst
      · refine Ends.bind (.modify (Ends.bind ?_))
        have hreport : inside c (statement c n) id reachable (c.arena.shape? id) = (do
            report c id "expected a statement"
            return .only .next) := by
          cases hsh : c.arena.shape? id with
          | none => rfl
          | some sh =>
            cases sh with
            | stmt x => simp [hsh, Shape.isStatement] at hs
            | _ => rfl
        rw [hreport]
        refine Ends.bind
          (.modify (.pure (Ends.bind (.modify (Ends.bind (.modify (.pure (.inl ?_))))))))
        simp [Diagnostics.hasErrors, Diagnostic.isError, Diagnostic.errorAt]

theorem keepsProper_module (globals : List NodeId) : KeepsProper c.arena (module c globals) := by
  have hloop : ∀ {step : NodeId → PUnit → Resolve (ForInStep PUnit)}, (∀ g u r, Proper c.arena r →
      Ends (step g u) r fun o r' => o = .yield ⟨⟩ ∧ Proper c.arena r') →
      KeepsProper c.arena (forIn globals PUnit.unit step) := by
    intro step h r hr
    exact Ends.forIn (fun _ r => Proper c.arena r) hr (fun g _ r _ hr => h g ⟨⟩ r hr) fun _ hr => hr
  have hstep : ∀ {step : Resolve PUnit} {r : Resolver}, KeepsProper c.arena step →
      Proper c.arena r →
      Ends (do step; pure (ForInStep.yield PUnit.unit)) r fun o r' =>
        o = .yield ⟨⟩ ∧ Proper c.arena r' :=
    fun h hr => Ends.bind ((h _ hr).mono fun _ _ hr => .pure ⟨rfl, hr⟩)
  have hbody : ∀ g f, KeepsProper c.arena (body c g f) := by
    intro g f
    refine .bind (.modify (fun _ => rfl) fun _ _ h => h) fun _ => ?_
    refine .bind (.of_touch (.forM f.params (touch_parameter c g))
      (Moves.forM f.params (moves_parameter c g)).stmts)
      fun _ => ?_
    refine .bind (keepsProper_statement _ _ _) fun b => ?_
    exact .bind (.modify (fun _ => rfl) fun _ _ h => h) fun _ =>
      .modify (fun _ => rfl) fun _ _ h => h
  have hhead : ∀ g f, KeepsProper c.arena (signature c g f) := by
    intro g f
    have hlast : ∀ k, KeepsProper c.arena (updateFunction g k) :=
      fun k => .modify (fun _ => rfl) fun _ _ h => h
    unfold signature
    refine .bind (.modify (fun _ => rfl) fun _ _ h => h) fun _ => ?_
    split
    · exact .bind (.of_touch ((touch_types c c.fuel).1 _ : Moves (Touch True) _)
        ((moves_types c c.fuel).1 _).stmts) fun _ => hlast _
    · exact .bind (.pure _) fun _ => hlast _
  unfold module
  refine .bind (hloop fun g _ r hr => ?_) fun _ => .bind (hloop fun g _ r hr => ?_) fun _ =>
    .bind (hloop fun g _ r hr => ?_) fun _ => .modify (fun _ => rfl) fun r x hx => by
      simpa only [Facts.stmts_summarize] using hx
  · split
    · exact hstep (.of_touch (touch_declaration c g : Moves (Touch True) _)
        (moves_declaration c g).stmts) hr
    · exact .pure ⟨rfl, hr⟩
  · split
    · next f _ => exact hstep (hhead g f) hr
    · exact .pure ⟨rfl, hr⟩
  · split
    · exact hstep (hbody _ _) hr
    · exact .pure ⟨rfl, hr⟩

end Proper

/-- The record of a program whose nodes form a tree is the notes of the walks through its
functions. -/
theorem recounts_build {b : Builder} (hb : b.diagnostics.hasErrors = false)
    (ht : b.build.TreeShaped) : ∃ notes, Recounts b.build b.build.globals notes b.build.facts := by
  rw [(Program.outcome_build hb).1]
  exact (module_recounts (c := b.build.scene) ht rfl b.build.length_lt_fuel
    (r := b.build.unresolved) rfl).run

/-- In a valid program every node in the record is a statement. -/
theorem proper_build {b : Builder} (hv : b.build.valid = true) {x : NodeId}
    (hx : b.build.facts.stmts[x]?.isSome) : (b.build.shape? x).any Shape.isStatement = true := by
  obtain ⟨hb, hr⟩ := Program.noErrors_of_valid hv
  have hstart : Proper b.build.toArena b.build.unresolved :=
    .inr fun x hx => by simp [Program.unresolved] at hx
  have hproper :=
    (keepsProper_module (c := b.build.scene) b.build.globals b.build.unresolved hstart).run
  rw [(Program.outcome_build hb).1] at hx
  refine hproper.resolve_left (fun he => ?_) x hx
  rw [← Bool.not_eq_true] at hr
  exact hr he

end Resolve
end ShaderLoom
