import ShaderLoom.Copy.Engine
import ShaderLoom.Proofs.Program

/-! Accounts of copying. While a session copies its source, an account notes for nodes of the target
from which node of the source each came. It says what such a node looks like, what nodes may be put
between copies, and what the session's own state keeps; the engine keeps the account as it goes. -/
namespace ShaderLoom.Copy

variable {κ σ : Type}

/-- A session, and for every node of its target the node of the source that it stands for. Nodes
that stand for none come from zero. -/
abbrev World (κ σ : Type) := Session κ σ × (NodeId → NodeId)

/-- What was registered for a copy does not change while it is made. -/
structure Session.SameTables (s t : Session κ σ) : Prop where
  source : t.source = s.source
  replacements : t.replacements = s.replacements
  removed : t.removed = s.removed
  before : t.before = s.before
  after : t.after = s.after
  front : t.front = s.front
  back : t.back = s.back
  handlers : t.handlers = s.handlers
  symbolRule : t.symbolRule = s.symbolRule

namespace Session.SameTables

variable {s t u : Session κ σ}

theorem refl (s : Session κ σ) : s.SameTables s := ⟨rfl, rfl, rfl, rfl, rfl, rfl, rfl, rfl, rfl⟩

theorem trans (h : s.SameTables t) (h' : t.SameTables u) : s.SameTables u :=
  ⟨h'.source.trans h.source, h'.replacements.trans h.replacements, h'.removed.trans h.removed,
    h'.before.trans h.before, h'.after.trans h.after, h'.front.trans h.front, h'.back.trans h.back,
    h'.handlers.trans h.handlers, h'.symbolRule.trans h.symbolRule⟩

theorem of_target (s : Session κ σ) (b : Builder) : s.SameTables { s with target := b } :=
  ⟨rfl, rfl, rfl, rfl, rfl, rfl, rfl, rfl, rfl⟩

end Session.SameTables

/-- The second list is the first one with copies in place of its elements, some of them left out,
and with further nodes between them. -/
inductive Listed (extra gone : NodeId → Prop) (out : NodeId → NodeId → Prop) :
    List NodeId → List NodeId → Prop
  | nil : Listed extra gone out [] []
  | insert {y xs ys} : extra y → Listed extra gone out xs ys → Listed extra gone out xs (y :: ys)
  | keep {x y xs ys} : ¬ gone x → out x y → Listed extra gone out xs ys →
    Listed extra gone out (x :: xs) (y :: ys)
  | drop {x xs ys} : gone x → Listed extra gone out xs ys → Listed extra gone out (x :: xs) ys

namespace Listed

variable {extra extra' gone : NodeId → Prop} {out out' : NodeId → NodeId → Prop}
  {xs ys xs' ys' : List NodeId}

theorem mono (h : Listed extra gone out xs ys) (he : ∀ y, extra y → extra' y)
    (ho : ∀ x y, out x y → out' x y) : Listed extra' gone out' xs ys := by
  induction h with
  | nil => exact nil
  | insert hy _ ih => exact insert (he _ hy) ih
  | keep hx hxy _ ih => exact keep hx (ho _ _ hxy) ih
  | drop hx _ ih => exact drop hx ih

theorem append (h : Listed extra gone out xs ys) (h' : Listed extra gone out xs' ys') :
    Listed extra gone out (xs ++ xs') (ys ++ ys') := by
  induction h with
  | nil => exact h'
  | insert hy _ ih => exact insert hy ih
  | keep hx hxy _ ih => exact keep hx hxy ih
  | drop hx _ ih => exact drop hx ih

theorem inserts (h : ∀ y ∈ ys, extra y) : Listed extra gone out [] ys := by
  induction ys with
  | nil => exact nil
  | cons y ys ih => exact insert (h y (by simp)) (ih fun z hz => h z (by simp [hz]))

/-- Where an element of the new list comes from. -/
theorem mem (h : Listed extra gone out xs ys) {y : NodeId} (hy : y ∈ ys) :
    extra y ∨ ∃ x ∈ xs, ¬ gone x ∧ out x y := by
  induction h with
  | nil => simp at hy
  | insert he _ ih =>
    rcases List.mem_cons.1 hy with rfl | hy
    · exact .inl he
    · exact ih hy
  | keep hx hxy _ ih =>
    rcases List.mem_cons.1 hy with rfl | hy
    · exact .inr ⟨_, by simp, hx, hxy⟩
    · exact (ih hy).imp_right fun ⟨x, hm, h⟩ => ⟨x, by simp [hm], h⟩
  | drop hx _ ih => exact (ih hy).imp_right fun ⟨x, hm, h⟩ => ⟨x, by simp [hm], h⟩

end Listed

/-- The same, with the nodes that were registered before and after each element just there. -/
inductive Flanked (before after : NodeId → List NodeId) (gone : NodeId → Prop)
    (out : NodeId → NodeId → Prop) : List NodeId → List NodeId → Prop
  | nil : Flanked before after gone out [] []
  | keep {x y xs ys} : ¬ gone x → out x y → Flanked before after gone out xs ys →
    Flanked before after gone out (x :: xs) (before x ++ y :: (after x ++ ys))
  | drop {x xs ys} : gone x → Flanked before after gone out xs ys →
    Flanked before after gone out (x :: xs) (before x ++ (after x ++ ys))

theorem Flanked.mono {before after : NodeId → List NodeId} {gone : NodeId → Prop}
    {out out' : NodeId → NodeId → Prop} {xs ys : List NodeId}
    (h : Flanked before after gone out xs ys) (ho : ∀ x y, out x y → out' x y) :
    Flanked before after gone out' xs ys := by
  induction h with
  | nil => exact nil
  | keep hx hxy _ ih => exact keep hx (ho _ _ hxy) ih
  | drop hx _ ih => exact drop hx ih

/-- A state with more nodes and more notes. -/
structure Grown (w w' : World κ σ) : Prop where
  tables : w.1.SameTables w'.1
  target : w.1.target.Extends w'.1.target
  origin : ∀ k, w.2 k ≠ 0 → w'.2 k = w.2 k
  symbols : ∀ s t, w.1.symbols.lookup s = some t → w'.1.symbols.lookup s = some t

theorem Grown.refl (w : World κ σ) : Grown w w :=
  ⟨.refl _, .refl _, fun _ _ => rfl, fun _ _ h => h⟩

theorem Grown.trans {u v w : World κ σ} (h : Grown u v) (h' : Grown v w) : Grown u w := by
  refine ⟨h.tables.trans h'.tables, h.target.trans h'.target, fun k hk => ?_, ?_⟩
  · have := h.origin k hk
    rw [h'.origin k (by rwa [this]), this]
  · exact fun s t hs => h'.symbols s t (h.symbols s t hs)

/-- What is known of the copies that a session makes. -/
structure Account (κ σ : Type) where
  mode : Builder.Mode
  /-- The session before copying, with all that is registered. -/
  base : Session κ σ
  name : World κ σ → Symbol → Symbol → Prop
  /-- What holds of a node and what it becomes as a part of another node. -/
  side : World κ σ → NodeId → NodeId → Prop
  /-- Nodes put between copies. -/
  extra : World κ σ → NodeId → Prop
  /-- What handlers make of a node. -/
  special : World κ σ → NodeId → NodeId → Prop
  /-- The nodes that may be made anew from their parts. -/
  parts : NodeId → Prop
  state : World κ σ → Prop
  /-- The nodes of the target that the handler of a node puts in. -/
  owned : NodeId → List NodeId := fun _ => []
  /-- Handlers that neither put nodes in nor copy anything. -/
  stops : κ → Bool := fun _ => false

namespace Account

variable (A : Account κ σ)

/-- A node becomes one that comes from it; an absent node stays absent. -/
def Out (w : World κ σ) (i j : NodeId) : Prop :=
  (i = 0 ∧ j = 0) ∨ (i ≠ 0 ∧ w.2 j = i ∧ A.side w i j)

def gone (i : NodeId) : Prop := A.base.removed i = true

/-- What becomes of a list. -/
structure Lists (w : World κ σ) (xs ys : List NodeId) : Prop where
  listed : Listed (fun y => y ≠ 0 ∧ A.extra w y) A.gone (A.Out w) xs ys
  flanked : Flanked A.base.before A.base.after A.gone (A.Out w) xs ys

/-- A node made anew from the copies of its parts. -/
def Parts (w : World κ σ) (i j : NodeId) : Prop :=
  A.parts i ∧ ∃ n m, A.base.source.node? i = some n ∧ w.1.target.node? j = some m ∧
    m.span = (if n.span.valid then n.span else {}) ∧
    Shape.Rel (A.name w) (A.Out w) (A.Lists w) n.shape m.shape

def Describes (w : World κ σ) (i j : NodeId) : Prop := A.Parts w i j ∨ A.special w i j

/-- A state of the copy in which the account is right, and nodes that are free to be held. -/
structure Holds (w : World κ σ) (l : List NodeId) : Prop where
  tables : A.base.SameTables w.1
  good : A.mode.Good w.1.target (l.filter (· ≠ 0))
  inserted : ∀ i, ∀ y ∈ A.base.before i ++ A.base.after i, y ≠ 0 ∧ A.extra w y
  fixed : ∀ i j, A.base.replacements i = some (.fixed j) → A.Out w i j
  traced : ∀ k, w.2 k ≠ 0 → A.base.source.inTree (w.2 k) = true ∧ A.Describes w (w.2 k) k
  range : ∀ k, w.2 k ≠ 0 → 0 < k ∧ k ≤ w.1.target.size
  fresh : ∀ {k n}, w.1.target.node? k = some n → w.2 k = 0 → A.mode.Allows w.1.target n.shape
  state : A.state w

/-- A later state of the same copy. -/
structure Later (w w' : World κ σ) : Prop extends Grown w w' where
  copied : w'.1.copied = w.1.copied
  globals : A.mode.closed → w'.1.target.globals = w.1.target.globals

/-- Nothing that an account says becomes wrong later. -/
structure Stable : Prop where
  name : ∀ {w w' s t}, Grown w w' → A.name w s t → A.name w' s t
  side : ∀ {w w' i j}, Grown w w' → A.side w i j → A.side w' i j
  extra : ∀ {w w' y}, Grown w w' → A.extra w y → A.extra w' y
  special : ∀ {w w' i j}, Grown w w' → A.special w i j → A.special w' i j
  state : ∀ {w w'}, Grown w w' → w'.1.state = w.1.state → w'.1.symbols = w.1.symbols →
    A.state w → A.state w'

variable {A} {w w' w'' : World κ σ} {l l' : List NodeId}

theorem Later.refl (w : World κ σ) : A.Later w w := ⟨.refl w, rfl, fun _ => rfl⟩

theorem Later.trans (h : A.Later w w') (h' : A.Later w' w'') : A.Later w w'' :=
  ⟨h.toGrown.trans h'.toGrown, h'.copied.trans h.copied,
    fun hc => (h'.globals hc).trans (h.globals hc)⟩

theorem Out.grown (hA : A.Stable) (h : Grown w w') {i j : NodeId} (ho : A.Out w i j) :
    A.Out w' i j := by
  refine ho.imp_right fun ⟨hi, hj, hs⟩ => ⟨hi, ?_, hA.side h hs⟩
  rw [h.origin j (by rwa [hj]), hj]

theorem Lists.grown (hA : A.Stable) (h : Grown w w') {xs ys : List NodeId}
    (hl : A.Lists w xs ys) : A.Lists w' xs ys :=
  ⟨hl.listed.mono (fun _ => And.imp_right (hA.extra h)) fun _ _ => Out.grown hA h,
    hl.flanked.mono fun _ _ => Out.grown hA h⟩

theorem Parts.grown (hA : A.Stable) (h : Grown w w') {i j : NodeId} (hp : A.Parts w i j) :
    A.Parts w' i j := by
  obtain ⟨hi, n, m, hn, hm, hspan, hr⟩ := hp
  exact ⟨hi, n, m, hn, h.target.node? hm, hspan, hr.mono (fun _ _ => hA.name h)
    (fun _ _ => Out.grown hA h) fun _ _ => Lists.grown hA h⟩

theorem Describes.grown (hA : A.Stable) (h : Grown w w') {i j : NodeId}
    (hd : A.Describes w i j) : A.Describes w' i j :=
  hd.imp (Parts.grown hA h) (hA.special h)

theorem Holds.weaken (h : A.Holds w l) (hl : ∀ x, l'.count x ≤ l.count x) : A.Holds w l' := by
  refine { h with good := h.good.weaken fun x => ?_ }
  by_cases hx : x = 0
  · have h0 : ∀ l : List NodeId, (l.filter (· ≠ 0)).count 0 = 0 := by
      intro l
      simp [List.count_eq_zero]
    rw [hx, h0]
    exact Nat.zero_le _
  · rw [List.count_filter (by simpa using hx), List.count_filter (by simpa using hx)]
    exact hl x

/-- The absent node is always free. -/
theorem Holds.absent {u : List NodeId} (h : A.Holds w (u ++ l)) : A.Holds w (0 :: l) := by
  have h' : A.Holds w l := h.weaken fun x => by
    rw [List.count_append]
    omega
  exact { h' with good := by simpa using h'.good }

/-- Another state with the same nodes and notes. -/
theorem Holds.alike (hA : A.Stable) (h : A.Holds w l) (hg : Grown w w') (ho : w'.2 = w.2)
    (hn : w'.1.target.nodes = w.1.target.nodes) (hb : A.mode.Good w'.1.target (l'.filter (· ≠ 0)))
    (hs : A.state w') : A.Holds w' l' := by
  have hnode : ∀ k, w'.1.target.node? k = w.1.target.node? k := by simp [Arena.node?, hn]
  refine ⟨h.tables.trans hg.tables, hb, ?_, ?_, ?_, ?_, ?_, ?_⟩
  · exact fun i y hy => (h.inserted i y hy).imp_right (hA.extra hg)
  · exact fun i j hf => (h.fixed i j hf).grown hA hg
  · rw [ho]
    exact fun k hk => (h.traced k hk).imp_right (Describes.grown hA hg)
  · simpa [ho, Arena.size, hn] using h.range
  · intro k n hk h0
    rw [hnode] at hk
    rw [ho] at h0
    exact (h.fresh hk h0).extends hg.target
  · exact hs

/-- Another state with the same tables, in which the target has grown by nodes that come from
nowhere. -/
theorem Holds.grow (hA : A.Stable) (h : A.Holds w l) {b : Builder} {m : List NodeId}
    (hg : A.mode.Grows w.1.target b) (hb : A.mode.Good b (m.filter (· ≠ 0))) :
    A.Holds ({ w.1 with target := b }, w.2) m ∧ A.Later w ({ w.1 with target := b }, w.2) := by
  have hl : A.Later w ({ w.1 with target := b }, w.2) :=
    ⟨⟨.of_target _ _, hg.toExtends, fun _ _ => rfl, fun _ _ h => h⟩, rfl, hg.globals⟩
  refine ⟨⟨h.tables.trans (.of_target _ _), hb, ?_, ?_, ?_, ?_, ?_, ?_⟩, hl⟩
  · exact fun i y hy => (h.inserted i y hy).imp_right (hA.extra hl.toGrown)
  · exact fun i j hf => (h.fixed i j hf).grown hA hl.toGrown
  · exact fun k hk => (h.traced k hk).imp_right (Describes.grown hA hl.toGrown)
  · intro k hk
    have := h.range k hk
    have := hg.size_le
    grind
  · intro k n hn hk
    by_cases hle : k ≤ w.1.target.size
    · rw [hg.node?_eq hle] at hn
      exact (h.fresh hn hk).extends hg.toExtends
    · exact hg.allowed (Nat.lt_of_not_le hle) hn
  · exact hA.state hl.toGrown rfl rfl h.state

/-- The note that a node of the target comes from a node of the source. -/
def note (w : World κ σ) (i j : NodeId) : World κ σ := (w.1, update w.2 j i)

/-- A node that comes from nowhere may be noted once there is a description of it. -/
theorem Holds.note (hA : A.Stable) (h : A.Holds w l) {i j : NodeId} (hi : i ≠ 0) (hj : w.2 j = 0)
    (hr : 0 < j ∧ j ≤ w.1.target.size) (ht : A.base.source.inTree i = true)
    (hd : A.Describes (note w i j) i j) :
    A.Holds (Account.note w i j) l ∧ A.Later w (Account.note w i j) := by
  have hl : A.Later w (Account.note w i j) := by
    refine ⟨⟨.refl _, .refl _, fun k hk => ?_, fun _ _ h => h⟩, rfl, fun _ => rfl⟩
    exact update_of_ne _ _ fun he => hk (he ▸ hj)
  refine ⟨⟨h.tables, h.good, ?_, ?_, ?_, ?_, ?_, ?_⟩, hl⟩
  · exact fun i y hy => (h.inserted i y hy).imp_right (hA.extra hl.toGrown)
  · exact fun i j hf => (h.fixed i j hf).grown hA hl.toGrown
  · intro k hk
    by_cases hkj : k = j
    · subst hkj
      simp only [Account.note, update_self]
      exact ⟨ht, hd⟩
    · simp only [Account.note, update_of_ne _ _ hkj] at hk ⊢
      exact (h.traced k hk).imp_right (Describes.grown hA hl.toGrown)
  · intro k hk
    by_cases hkj : k = j
    · exact hkj ▸ hr
    · simp only [Account.note, update_of_ne _ _ hkj] at hk
      exact h.range k hk
  · intro k n hn hk
    by_cases hkj : k = j
    · subst hkj
      exact absurd hk (by simpa [Account.note] using hi)
    · simp only [Account.note, update_of_ne _ _ hkj] at hk
      exact h.fresh hn hk
  · exact hA.state hl.toGrown rfl rfl h.state

variable (A) in
/-- The nodes of the target that the copy of a node uses up: what is registered for the node and for
everything below it that is copied. -/
def below : Nat → NodeId → List NodeId
  | 0, _ => []
  | n + 1, i =>
    let parts := (((A.base.source.shape? i).map Shape.slots).getD []).flatMap fun c =>
      A.base.before c ++ A.base.after c ++ below n c
    match A.base.replacements i with
    | some (.fixed j) => [j]
    | some (.handler h) => if A.stops h then [] else A.owned i ++ parts
    | none => parts

variable (A) in
/-- The same together with what is put around the node in a list. -/
def around (n : Nat) (i : NodeId) : List NodeId := A.base.before i ++ A.base.after i ++ A.below n i

/-- Accounts of one session that put in the same nodes use up the same nodes. -/
theorem below_congr {A B : Account κ σ} (hbase : A.base = B.base) (howned : A.owned = B.owned)
    (hstops : A.stops = B.stops) (n : Nat) : A.below n = B.below n := by
  induction n with
  | zero => rfl
  | succ n ih =>
    funext i
    simp only [below, hbase, howned, hstops, ih]

theorem around_congr {A B : Account κ σ} (hbase : A.base = B.base) (howned : A.owned = B.owned)
    (hstops : A.stops = B.stops) (n : Nat) : A.around n = B.around n := by
  funext i
  simp only [around, hbase, below_congr hbase howned hstops n]

variable (A) in
/-- What a handler of a node may use up, with a way to copy to a depth. -/
def needs (n : Nat) (h : κ) (i : NodeId) (node : Node) : List NodeId :=
  if A.stops h then [] else A.owned i ++ node.shape.slots.flatMap (A.around n)

theorem below_succ {n : Nat} {i : NodeId} {node : Node} (hn : A.base.source.node? i = some node) :
    A.below (n + 1) i = match A.base.replacements i with
      | some (.fixed j) => [j]
      | some (.handler h) => A.needs n h i node
      | none => node.shape.slots.flatMap (A.around n) := by
  have hslots : ((A.base.source.shape? i).map Shape.slots).getD [] = node.shape.slots := by
    simp [Arena.shape?, hn]
  have haround : A.around n = fun c => A.base.before c ++ A.base.after c ++ A.below n c := rfl
  rw [below, hslots, ← haround]
  rfl

/-- How an account goes through the parts of a node. -/
def copying (hA : A.Stable) (n : Nat) : Shape.Copying (World κ σ) Symbol Symbol NodeId NodeId where
  inv := A.Holds
  le := A.Later
  name := A.name
  child := A.Out
  list := A.Lists
  res := A.around n
  le_refl := .refl
  le_trans := Later.trans
  weaken := Holds.weaken
  name_mono h := hA.name h.toGrown
  child_mono h ho := Out.grown hA h.toGrown ho
  list_mono h hl := Lists.grown hA h.toGrown hl

end Account
end ShaderLoom.Copy
