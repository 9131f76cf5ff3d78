import ShaderLoom.Pass.Pass
import ShaderLoom.Proofs.Copy.Engine
import ShaderLoom.Proofs.Held

/-! What passes have in common. A pass registers its changes in a session and copies the module
then. A regime says what may be registered and what the pass's own state keeps; while a session is
made ready under it, and while it is copied, the target stays fit. -/
namespace ShaderLoom

namespace Arena

variable {a b b' : Arena} {i j : NodeId}

/-- What a node becomes can stand where the node stood: a block for a block, a conditional or a
block for a conditional, and a simple statement for a simple one. -/
structure Kindred (a b : Arena) (i j : NodeId) : Prop where
  block : a.isBlock i → b.isBlock j
  cond : a.isIf i → b.isIf j ∨ b.isBlock j
  simple : a.isSimple i → b.isSimple j

theorem Kindred.extends {b b' : Builder} (h : a.Kindred b.toArena i j) (hb : b.Extends b') :
    a.Kindred b'.toArena i j :=
  ⟨fun hi => hb.isBlock (h.block hi), fun hi => (h.cond hi).imp hb.isIf hb.isBlock,
    fun hi => hb.isSimple (h.simple hi)⟩

/-- A node that is no statement. -/
def NoStatement (a : Arena) (i : NodeId) : Prop := (a.shape? i).any Shape.isStatement = false

theorem NoStatement.kindred (h : a.NoStatement i) : a.Kindred b i j where
  block hb := by
    obtain ⟨ss, hs⟩ := Option.isSome_iff_exists.1 hb
    obtain ⟨s, hs, hblock⟩ := Option.bind_eq_some_iff.1 hs
    rw [NoStatement, hs] at h
    cases s <;> simp_all [Shape.block?, Shape.isStatement]
  cond := fun ⟨c, d, e, hs⟩ => by simp [NoStatement, hs, Shape.isStatement] at h
  simple := fun ⟨s, hs, _⟩ => by simp [NoStatement, hs, Shape.isStatement] at h

section Rel

variable {N : Symbol → Symbol → Prop} {C : NodeId → NodeId → Prop}
    {L : List NodeId → List NodeId → Prop}

theorem kindred_of_rel {s t : Shape Symbol NodeId} (hs : a.shape? i = some s)
    (ht : b.shape? j = some t) (h : Shape.Rel N C L s t) : a.Kindred b i j := by
  refine ⟨fun hb => ?_, fun hi => ?_, fun hi => ?_⟩
  · simp only [isBlock, block?, hs, ht, Option.bind_some] at hb ⊢
    cases h <;> simp_all [Shape.block?]
  · obtain ⟨c, d, e, he⟩ := hi
    cases hs.symm.trans he
    cases h
    exact .inl ⟨_, _, _, ht⟩
  · obtain ⟨u, hu, hm⟩ := hi
    cases hs.symm.trans hu
    cases h <;> simp only at hm <;> exact ⟨_, ht, trivial⟩

/-- A shape of the documented form is made into one by parts that can stand in their place. -/
theorem documented_of_rel {s t : Shape Symbol NodeId} (h : Shape.Rel N C L s t)
    (hC : ∀ x y, C x y → (x = 0 ∧ y = 0) ∨ (x ≠ 0 ∧ a.Kindred b x y)) (hs : a.Documented s) :
    b.Documented t := by
  have hblock : ∀ x y, C x y → a.isBlock x → b.isBlock y := by
    intro x y hxy hx
    rcases hC x y hxy with ⟨rfl, _⟩ | ⟨_, hk⟩
    · simp [isBlock, block?, shape?] at hx
    · exact hk.block hx
  have hsimple : ∀ x y, C x y → x = 0 ∨ a.isSimple x → y = 0 ∨ b.isSimple y := by
    intro x y hxy hx
    rcases hC x y hxy with ⟨_, h0⟩ | ⟨h0, hk⟩
    · exact .inl h0
    · exact .inr (hk.simple (hx.resolve_left h0))
  have helse : ∀ x y, C x y → x = 0 ∨ a.isBlock x ∨ a.isIf x → y = 0 ∨ b.isBlock y ∨ b.isIf y := by
    intro x y hxy hx
    rcases hC x y hxy with ⟨_, h0⟩ | ⟨h0, hk⟩
    · exact .inl h0
    · refine .inr ((hx.resolve_left h0).elim (fun h => .inl (hk.block h)) fun h => ?_)
      exact (hk.cond h).symm
  have hcont : ∀ x y, C x y → x = 0 ∨ a.isBlock x → y = 0 ∨ b.isBlock y := by
    intro x y hxy hx
    rcases hC x y hxy with ⟨_, h0⟩ | ⟨h0, hk⟩
    · exact .inl h0
    · exact .inr (hk.block (hx.resolve_left h0))
  cases h <;> first | trivial | skip
  all_goals simp only [Documented] at hs ⊢
  all_goals grind

end Rel

end Arena

namespace Program

/-- The statements in the tree are of the kinds that belong where they stand. -/
def Tidy (p : Program) : Prop :=
  ∀ i s, p.inTree i = true → p.shape? i = some s → p.Documented s

/-- Facts belong to the nodes that they are about. -/
structure Recorded (p : Program) : Prop where
  decl : ∀ {i v}, p.facts.variableAt i = some v → v.decl = i
  expr : ∀ {i e}, p.facts.exprs[i]? = some e → p.NoStatement i
  user : ∀ {i v u}, p.facts.variableAt i = some v → u ∈ v.users → p.NoStatement u

end Program

namespace Copy

variable {κ σ α β : Type}

/-- The rule only adds names, and never the empty one. -/
def SymbolRule.Tame (rule : SymbolRule) : Prop :=
  ∀ s t, "" ∉ t.names.toList →
    (∃ more, (rule s t).2.names = t.names ++ more) ∧ "" ∉ (rule s t).2.names.toList

/-- The nodes of the target that the tables of a session hold for a node of the source. -/
def Session.registered (s : Session κ σ) (i : NodeId) : List NodeId :=
  s.before i ++ s.after i ++
    match s.replacements i with
    | some (.fixed j) => [j]
    | _ => []

/-- What a pass may register, and what its own state keeps. The state may hold nodes of the target
for nodes of the source too, which the handlers of these put in. Some handlers stop the copy: what
lies below their nodes is not copied. -/
structure Regime (κ σ : Type) extends Builder.Demands where
  keep : σ → Builder → Prop
  replaced : NodeId → κ → Prop
  parts : NodeId → Prop
  owned : σ → NodeId → List NodeId := fun _ _ => []
  stops : κ → Bool := fun _ => false
  /-- The state does not change while the module is copied. -/
  frozen : Prop := False

namespace Regime

variable (R : Regime κ σ)

def mode : Builder.Mode := ⟨R.toDemands, False⟩

/-- What a node of the target may look like: what a step may add, and what becomes of the nodes of
the source that are made anew. -/
structure Permits (p : Program) (b : Builder) (s : Shape Symbol NodeId) : Prop where
  documented : R.tidy → p.Tidy → b.Documented s
  internal : R.tidy →
    (∀ i, p.inTree i = true → R.parts i → p.shape? i ≠ some (.type .externalTexture)) →
    s ≠ .type .externalTexture
  accessible : R.worded → p.Accessible → s.Accessible

/-- The account of a session under the regime. -/
def account (s : Session κ σ) : Account κ σ where
  mode := R.mode
  base := s
  name _ _ _ := True
  side w i j := R.tidy → s.source.Kindred w.1.target.toArena i j
  extra _ _ := True
  special w _ j := ∃ m, w.1.target.node? j = some m ∧ R.Permits s.source w.1.target m.shape
  parts := R.parts
  state w := R.keep w.1.state w.1.target ∧ R.owned w.1.state = R.owned s.state ∧
    (R.frozen → w.1.state = s.state)
  owned := R.owned s.state
  stops := R.stops

/-- What the state keeps does not depend on what is added to the target. -/
def Steady : Prop := ∀ {st b b'}, b.Extends b' → R.keep st b → R.keep st b'

/-- All nodes of the target that a session holds for a node of the source. -/
def registered (s : Session κ σ) (i : NodeId) : List NodeId := s.registered i ++ R.owned s.state i

/-- Does the copy stop at the node? -/
def cuts (s : Session κ σ) (i : NodeId) : Bool :=
  match s.replacements i with
  | some (.handler h) => R.stops h
  | _ => false

/-- The copy of the module does not stop above the node. -/
def Live (s : Session κ σ) (i : NodeId) : Prop :=
  ∀ k, k ≠ s.source.root → R.cuts s k = true → ¬ s.source.Under k i

open Classical in
/-- The nodes of the target that the copy of the module may use up. -/
noncomputable def tokens (s : Session κ σ) : List NodeId :=
  (s.source.ids.filter (R.Live s ·)).flatMap (R.registered s)

/-- A session in which changes to a program are being registered, with handlers of families. -/
structure Laid (p : Program) (hs : List (Tag × κ)) (w : World κ σ) : Prop where
  source : w.1.source = p
  front : w.1.front = fun _ _ => []
  back : w.1.back = fun _ _ => []
  rule : ∀ r, w.1.symbolRule = some r → r.Tame
  replaced : ∀ i h, w.1.replacements i = some (.handler h) → R.replaced i h
  handlers : w.1.handlers = hs
  anchored : ∀ i, R.registered w.1 i ≠ [] → 0 < i ∧ i ≤ p.size
  free : ∀ i, ∀ y ∈ R.registered w.1 i, 0 < y ∧ y ≤ w.1.target.size
  fixed : ∀ i j, w.1.replacements i = some (.fixed j) →
    w.2 j = i ∧ (R.tidy → p.Kindred w.1.target.toArena i j)
  noted : ∀ k, w.2 k ≠ 0 → p.inTree (w.2 k) = true ∧ 0 < k ∧ k ≤ w.1.target.size
  traced : ∀ {k n}, w.1.target.node? k = some n → R.Permits p w.1.target n.shape
  fresh : ∀ {k n}, w.1.target.node? k = some n → w.2 k = 0 → R.mode.Allows w.1.target n.shape
  state : R.keep w.1.state w.1.target

/-- Such a session with a fit target, and nodes of the target that are free beside those that are
registered. -/
structure Ready (p : Program) (hs : List (Tag × κ)) (w : World κ σ) (F : List NodeId) : Prop
    extends Laid R p hs w where
  good : R.mode.Good w.1.target (R.tokens w.1 ++ F)

variable {R} {p : Program} {hs : List (Tag × κ)} {w : World κ σ} {F l : List NodeId}

theorem Permits.extends {b b' : Builder} {s : Shape Symbol NodeId} (h : R.Permits p b s)
    (hb : b.Extends b') : R.Permits p b' s :=
  { h with documented := fun ht hp => hb.documented (h.documented ht hp) }

theorem permits_of_allows {b : Builder} {s : Shape Symbol NodeId} (h : R.mode.Allows b s) :
    R.Permits p b s :=
  ⟨fun ht _ => h.documented ht, fun ht _ => h.internal ht, fun hw _ => h.accessible hw⟩

theorem stable (hR : R.Steady) (s : Session κ σ) : (R.account s).Stable where
  name _ _ := trivial
  side h hk ht := (hk ht).extends h.target
  extra _ _ := trivial
  special h := fun ⟨m, hm, ha⟩ => ⟨m, h.target.node? hm, ha.extends h.target⟩
  state {w w'} h hs _ hk := by
    have hk' : R.keep w.1.state w'.1.target := hR h.target hk.1
    change R.keep w'.1.state w'.1.target ∧ R.owned w'.1.state = R.owned s.state ∧
      (R.frozen → w'.1.state = s.state)
    rw [hs]
    exact ⟨hk', hk.2⟩

section Tokens

variable (R) in
/-- The nodes that a copy from a node meets, to a depth. -/
def walk (s : Session κ σ) : Nat → NodeId → List NodeId
  | 0, i => [i]
  | n + 1, i => i :: if R.cuts s i then [] else (s.source.slotsOf i).flatMap (walk s n)

theorem count_walk_le (s : Session κ σ) (n : Nat) (i k : NodeId) :
    (R.walk s n i).count k ≤ (s.source.visits n i).count k := by
  induction n generalizing i with
  | zero => exact Nat.le_refl _
  | succ n ih =>
    have hsum : ∀ cs : List NodeId, (cs.flatMap (R.walk s n)).count k ≤
        (cs.flatMap (s.source.visits n)).count k := by
      intro cs
      induction cs with
      | nil => simp
      | cons c cs ihc =>
        have := ih c
        simp only [List.flatMap_cons, List.count_append]
        omega
    have := hsum (s.source.slotsOf i)
    simp only [walk, Arena.visits, List.count_cons]
    split
    · simp only [List.count_nil]
      omega
    · omega

/-- What a copy uses up is registered for the nodes that it meets. -/
theorem count_around_le (s : Session κ σ) (n : Nat) (i x : NodeId) :
    ((R.account s).around n i).count x ≤ ((R.walk s n i).flatMap (R.registered s)).count x := by
  induction n generalizing i with
  | zero =>
    simp only [Account.around, Account.below, walk, List.flatMap_cons, List.flatMap_nil, registered,
      Session.registered, account, List.count_append]
    omega
  | succ n ih =>
    have hsum : ∀ cs : List NodeId, (cs.flatMap ((R.account s).around n)).count x ≤
        ((cs.flatMap (R.walk s n)).flatMap (R.registered s)).count x := by
      intro cs
      induction cs with
      | nil => simp
      | cons c cs ihc =>
        have := ih c
        simp only [List.flatMap_cons, List.flatMap_append, List.count_append]
        omega
    have hslots := hsum (s.source.slotsOf i)
    have haround : (R.account s).around (n + 1) i =
        s.before i ++ s.after i ++ (R.account s).below (n + 1) i := rfl
    rw [haround]
    rcases hr : s.replacements i with _ | (j | h)
    · have hbelow : (R.account s).below (n + 1) i =
          (s.source.slotsOf i).flatMap ((R.account s).around n) := by
        simp only [Account.below, account, hr]
        rfl
      simp only [hbelow, walk, cuts, hr, List.flatMap_cons, registered, Session.registered,
        List.count_append, Bool.false_eq_true, if_false]
      omega
    · have hbelow : (R.account s).below (n + 1) i = [j] := by simp only [Account.below, account, hr]
      simp only [hbelow, walk, cuts, hr, List.flatMap_cons, registered, Session.registered,
        List.count_append]
      omega
    · have hbelow : (R.account s).below (n + 1) i = if R.stops h then [] else
          R.owned s.state i ++ (s.source.slotsOf i).flatMap ((R.account s).around n) := by
        simp only [Account.below, account, hr]
        rfl
      simp only [hbelow, walk, cuts, hr, List.flatMap_cons, registered, Session.registered,
        List.count_append]
      split
      · simp only [List.count_nil]
        omega
      · simp only [List.count_append]
        omega

/-- Nothing is met below an absent node. -/
theorem walk_zero (s : Session κ σ) (n : Nat) : R.walk s n 0 = [0] := by
  cases n with
  | zero => rfl
  | succ n => simp [walk, Arena.slotsOf, Arena.shape?]

/-- A copy meets its first node, or what a copy from one of its children meets. -/
theorem mem_walk {s : Session κ σ} (hs : s.source = p) {n : Nat} {i k : NodeId}
    (hk : k ∈ R.walk s n i) (h0 : k ≠ 0) :
    k = i ∨ ∃ m, n = m + 1 ∧ R.cuts s i = false ∧ ∃ c ∈ p.children i, k ∈ R.walk s m c := by
  cases n with
  | zero => exact .inl (List.mem_singleton.1 hk)
  | succ n =>
    rw [walk] at hk
    rcases List.mem_cons.1 hk with rfl | hk
    · exact .inl rfl
    split at hk
    · cases hk
    · next hcut =>
      obtain ⟨c, hm, hk⟩ := List.mem_flatMap.1 hk
      have hne : c ≠ 0 := by
        rintro rfl
        rw [walk_zero, List.mem_singleton] at hk
        exact h0 hk
      rw [hs] at hm
      obtain ⟨node, hn, hc⟩ := Arena.mem_slotsOf hm
      exact .inr ⟨n, rfl, by simpa using hcut, c, Arena.mem_children.2 ⟨node, hn, hc, hne⟩, hk⟩

theorem below_of_mem_walk {s : Session κ σ} (hs : s.source = p) {n : Nat} {i k : NodeId}
    (hk : k ∈ R.walk s n i) (h0 : k ≠ 0) : p.Below i k := by
  induction n generalizing i with
  | zero =>
    rw [walk, List.mem_singleton] at hk
    exact hk ▸ .self
  | succ n ih =>
    rcases mem_walk hs hk h0 with rfl | ⟨_, hm, _, c, hc, hk⟩
    · exact .self
    · cases hm
      exact .of_child hc (ih hk)

/-- A copy that does not stop at a live node goes on to live ones. -/
theorem Live.child (hc : p.Counted) {s : Session κ σ} (hs : s.source = p) {i c : NodeId}
    (hi : R.Live s i) (hcut : R.cuts s i = false) (hm : c ∈ p.children i) : R.Live s c := by
  intro k hr hk hu
  rw [hs] at hu
  rcases hc.above hm hu with rfl | hu
  · simp [hcut] at hk
  · exact hi k hr hk (hs ▸ hu)

/-- Whatever a copy from a live node meets is live. -/
theorem live_of_mem_walk (hc : p.Counted) {s : Session κ σ} (hs : s.source = p) {n : Nat}
    {i k : NodeId} (hi : R.Live s i) (hk : k ∈ R.walk s n i) (h0 : k ≠ 0) : R.Live s k := by
  induction n generalizing i with
  | zero =>
    rw [walk, List.mem_singleton] at hk
    exact hk ▸ hi
  | succ n ih =>
    rcases mem_walk hs hk h0 with rfl | ⟨_, hm, hcut, c, hchild, hk⟩
    · exact hi
    · cases hm
      exact ih (hi.child hc hs hcut hchild) hk

theorem count_flatMap_around_le (s : Session κ σ) (n : Nat) (cs : List NodeId) (x : NodeId) :
    (cs.flatMap ((R.account s).around n)).count x ≤
      ((cs.flatMap (R.walk s n)).flatMap (R.registered s)).count x := by
  induction cs with
  | nil => simp
  | cons c cs ih =>
    have := count_around_le (R := R) s n c x
    simp only [List.flatMap_cons, List.flatMap_append, List.count_append]
    omega

/-- Where nothing is registered, nothing is used up. -/
theorem below_eq_nil {s : Session κ σ} (h : R.registered s = fun _ => []) (n : Nat) (i : NodeId) :
    (R.account s).below n i = [] := by
  refine List.eq_nil_iff_forall_not_mem.2 fun x hx => ?_
  have hle := count_around_le (R := R) s n i x
  have hpos : 0 < ((R.account s).around n i).count x :=
    List.count_pos_iff.2 (List.mem_append_right _ hx)
  obtain ⟨k, _, hk⟩ := List.mem_flatMap.1 (List.count_pos_iff.1 (Nat.lt_of_lt_of_le hpos hle))
  rw [h] at hk
  cases hk

theorem Laid.mem_around (h : R.Laid p hs w) {n : Nat} {i y : NodeId}
    (hy : y ∈ (R.account w.1).around n i) : 0 < y ∧ y ≤ w.1.target.size := by
  have hle := count_around_le (R := R) w.1 n i y
  obtain ⟨k, _, hk⟩ := List.mem_flatMap.1
    (List.count_pos_iff.1 (Nat.lt_of_lt_of_le (List.count_pos_iff.2 hy) hle))
  exact h.free k y hk

/-- Where no node of the source is held twice, all that copying the module needs is registered. -/
theorem Laid.count_globals (h : R.Laid p hs w) (hp : p.Fit) (hc : p.Counted) (n : Nat)
    (x : NodeId) :
    (p.globals.flatMap ((R.account w.1).around n)).count x ≤ (R.tokens w.1).count x := by
  classical
  have hslots : p.slotsOf p.root = p.globals := by simp [Arena.slotsOf, hp.module, Shape.slots]
  have hvisits : ∀ (cs : List NodeId) k, (cs.flatMap (R.walk w.1 n)).count k ≤
      (cs.flatMap (p.visits n)).count k := by
    intro cs k
    induction cs with
    | nil => simp
    | cons c cs ih =>
      have := count_walk_le (R := R) w.1 n c k
      rw [h.source] at this
      simp only [List.flatMap_cons, List.count_append]
      omega
  refine Nat.le_trans (count_flatMap_around_le w.1 n p.globals x) (count_flatMap_le fun k hk => ?_)
  have hrange := h.anchored k (List.ne_nil_of_mem hk)
  by_cases hm : k ∈ p.globals.flatMap (R.walk w.1 n)
  · obtain ⟨g, hg, hkg⟩ := List.mem_flatMap.1 hm
    have hlive : R.Live w.1 g := by
      intro j hr _ hu
      rw [h.source] at hu hr
      have hg0 : g ≠ 0 := Nat.ne_of_gt (hp.globals g hg).1
      rcases hc.above (Program.TreeShaped.mem_children_root hg hg0) hu with hj | hu
      · exact hr hj
      · have hlt := hp.lt_of_under hu
        obtain ⟨c, hc, _⟩ := hu
        obtain ⟨node, hn, _⟩ := Arena.mem_children.1 hc
        exact absurd (hp.root ▸ (Arena.range_of_node? hn).2) (Nat.not_le.2 hlt)
    have hlivek := live_of_mem_walk hc h.source hlive hkg (Nat.ne_of_gt hrange.1)
    have hone := hc.visits hp (n + 1) p.root (Nat.ne_of_gt hrange.1)
    have := hvisits p.globals k
    simp only [Arena.visits, hslots, List.count_cons] at hone
    rw [List.count_filter (by simpa using hlivek), h.source, Arena.count_ids hrange.1 hrange.2]
    omega
  · rw [List.count_eq_zero_of_not_mem hm]
    exact Nat.zero_le _

theorem Ready.good_globals (h : R.Ready p hs w F) (hp : p.Fit) (hc : R.counted → p.Counted)
    (n : Nat) :
    R.mode.Good w.1.target
      ((p.globals.flatMap ((R.account w.1).around n) ++ F).filter (· ≠ 0)) := by
  by_cases hk : R.counted
  · refine h.good.weaken fun x => ?_
    have := h.count_globals hp (hc hk) n x
    have := (List.filter_sublist (p := (· ≠ 0))
      (l := p.globals.flatMap ((R.account w.1).around n) ++ F)).count_le x
    simp only [List.count_append] at this ⊢
    omega
  · refine h.good.again hk fun x hx => ?_
    obtain ⟨hx, _⟩ := List.mem_filter.1 hx
    rcases List.mem_append.1 hx with hx | hx
    · obtain ⟨g, _, hg⟩ := List.mem_flatMap.1 hx
      exact h.mem_around hg
    · exact h.good.free x (List.mem_append_right _ hx)

end Tokens

/-- A session in which changes are registered keeps its account. -/
theorem Laid.holds (h : R.Laid p hs w) (hl : R.mode.Good w.1.target (l.filter (· ≠ 0))) :
    (R.account w.1).Holds w l where
  tables := .refl _
  good := hl
  inserted i y hy := by
    refine ⟨Nat.ne_of_gt (h.free i y ?_).1, trivial⟩
    exact List.mem_append_left _ (List.mem_append_left _ hy)
  fixed i j hf := by
    have hi : R.registered w.1 i ≠ [] := by
      simp [registered, Session.registered, show w.1.replacements i = _ from hf]
    obtain ⟨hj, hk⟩ := h.fixed i j hf
    refine .inr ⟨Nat.ne_of_gt (h.anchored i hi).1, hj, fun ht => ?_⟩
    rw [h.source]
    exact hk ht
  traced k hk := by
    obtain ⟨ht, hpos, hle⟩ := h.noted k hk
    obtain ⟨n, hn⟩ := Option.isSome_iff_exists.1 (Arena.node?_isSome_iff.2 ⟨hpos, hle⟩)
    refine ⟨by rw [account, h.source]; exact ht, .inr ⟨n, hn, ?_⟩⟩
    rw [h.source]
    exact h.traced hn
  range k hk := (h.noted k hk).2
  fresh := h.fresh
  state := ⟨h.state, rfl, fun _ => rfl⟩

/-- Any misuse is accepted where only the result of success matters. -/
abbrev any : Misuse → Prop := fun _ => True

theorem turns_copySymbol (hR : R.Steady) {s : Session κ σ}
    (hs : ∀ r, s.symbolRule = some r → r.Tame) (x : Symbol) :
    (R.account s).Turns any (Edit.copySymbol x) [] (fun _ => []) fun _ _ => True := by
  intro w F hw
  unfold Edit.copySymbol
  split
  · exact Runs.pure w.2 ⟨hw, .refl w, trivial⟩
  refine Runs.bind (Runs.get ?_)
  split
  · exact Runs.pure w.2 ⟨hw, .refl w, trivial⟩
  · next rule hnone hrule =>
    rw [hw.tables.symbolRule] at hrule
    obtain ⟨hmore, hempty⟩ := hs rule hrule x w.1.target.symbols hw.good.named
    refine Runs.bind (Runs.set w.2 (Runs.pure w.2 ?_))
    have htarget :
        w.1.target.Extends { w.1.target with symbols := (rule x w.1.target.symbols).2 } :=
      ⟨⟨#[], by simp⟩, hmore, rfl, rfl⟩
    have hlater : (R.account s).Later w ({ w.1 with
        target := { w.1.target with symbols := (rule x w.1.target.symbols).2 }
        symbols := (x, (rule x w.1.target.symbols).1) :: w.1.symbols }, w.2) := by
      refine ⟨⟨⟨rfl, rfl, rfl, rfl, rfl, rfl, rfl, rfl, rfl⟩, htarget, fun _ _ => rfl, ?_⟩,
        rfl, fun _ => rfl⟩
      intro y t hy
      by_cases hyx : y = x
      · rw [hyx, hnone] at hy
        simp at hy
      · simpa [List.lookup_cons, beq_false_of_ne hyx] using hy
    exact ⟨hw.alike (stable hR s) hlater.toGrown rfl rfl (hw.good.renamed hempty)
      ⟨hR htarget hw.state.1, hw.state.2⟩, hlater, trivial⟩
  · exact Runs.pure w.2 ⟨hw, .refl w, trivial⟩

theorem plain (hR : R.Steady) (h : R.Laid p hs w) (hp : p.Fit) : (R.account w.1).Plain any where
  source := by rw [account, h.source]; exact hp
  front := h.front
  back := h.back
  name _ _ _ x _ := turns_copySymbol hR h.rule x

theorem reach (s : Session κ σ) : (R.account s).Reach any fun _ _ => True :=
  ⟨fun _ _ => trivial, fun _ _ _ _ => .inr trivial, fun _ _ _ _ _ _ _ => trivial,
    fun _ _ => trivial⟩

/-- A node made anew can stand where its original stood. -/
theorem side_of_parts {s : Session κ σ} {i j : NodeId} (h : (R.account s).Parts w i j) :
    (R.account s).side w i j := by
  obtain ⟨_, n, m, hn, hm, _, hrel⟩ := h
  intro _
  exact Arena.kindred_of_rel (by simp [Arena.shape?, show s.source.node? i = _ from hn])
    (by simp [Arena.shape?, hm]) hrel

/-- A node of the target is new and allowed, or made of the copies of the parts of a node in the
tree. -/
theorem permits_of_holds {s : Session κ σ} (hs : s.source = p) (h : (R.account s).Holds w l)
    {k : NodeId} {m : Node} (hm : w.1.target.node? k = some m) :
    R.Permits p w.1.target m.shape := by
  by_cases hk : w.2 k = 0
  · exact permits_of_allows (h.fresh hm hk)
  obtain ⟨htree, ⟨hparts, n, m', hn, hm', _, hrel⟩ | ⟨m', hm', ha⟩⟩ := h.traced k hk
  · cases hm.symm.trans hm'
    have htree' : p.inTree (w.2 k) = true := by
      rw [← hs]
      exact htree
    have hnode : p.node? (w.2 k) = some n := by
      rw [← hs]
      exact hn
    have hshape : p.shape? (w.2 k) = some n.shape := by simp [Arena.shape?, hnode]
    refine ⟨fun ht hp => ?_, fun ht hp he => ?_, fun _ hp => hrel.accessible.1 (hp _ _ hnode)⟩
    · refine Arena.documented_of_rel hrel (fun x y hxy => ?_) (hp _ _ htree' hshape)
      rw [← hs]
      exact hxy.imp_right fun h => ⟨h.1, h.2.2 ht⟩
    · rw [he] at hrel
      generalize n.shape = t at hrel hshape
      cases hrel
      exact hp _ htree' hparts hshape
  · cases hm.symm.trans hm'
    exact hs ▸ ha

variable (R) in
/-- What is known of the target once the module of a program is copied. -/
structure Finished (p : Program) (b : Builder) : Prop where
  good : R.mode.Good b []
  permitted : ∀ {k n}, b.node? k = some n → R.Permits p b n.shape

/-- Copying the module of a session that is ready. -/
theorem Ready.copyModule (hR : R.Steady) (h : R.Ready p hs w []) (hp : p.Fit)
    (hc : R.counted → p.Counted) {act : Act κ σ}
    (hH : (R.account w.1).Handled any (fun _ _ => True) act) :
    Runs (Edit.copyModule (Edit.copy act)) w any fun _ w' => R.Finished p w'.1.target := by
  have hglobals : (R.account w.1).base.source.globals = p.globals := by rw [account, h.source]
  refine (Account.copyModule (F := []) (stable hR w.1) (plain hR h.toLaid hp) (reach w.1) hH
    (fun _ _ => trivial) (fun _ => trivial) ?_).mono fun _ w' hw' =>
      ⟨hw'.1.good, fun hn => permits_of_holds h.source hw'.1 hn⟩
  rw [hglobals]
  exact h.holds (h.good_globals hp hc _)

end Regime
end Copy
end ShaderLoom
