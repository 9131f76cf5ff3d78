import ShaderLoom.Proofs.Parents
import ShaderLoom.Proofs.Pass.Moved
import ShaderLoom.Proofs.Pass.Rereading

/-! The runs of hoisting, and the program that it makes. Adding an expression makes one more
declaration and keeps what is known of those that were made before. In the end every node that comes
from a node of the source is that node over what its parts have become, a reference to a
declaration, or a lowered form; and the declarations hold copies of the expressions that they stand
for. -/
namespace ShaderLoom

open Copy Builder.Mode

namespace Hoist

section Steps

variable (p : Program) (ms : List Moved)

/-- The declaration of an expression: a new name for a copy of it. -/
structure Made (b : Arena) (origin : NodeId → NodeId) (m : Moved) : Prop where
  decl : b.shape? m.decl = some (.decl (.value ⟨m.kind, m.name, 0, m.value, []⟩))
  stmt : b.shape? m.stmt = some (.stmt (.varDecl m.decl))
  named : ∃ t, b.symbols.Names m.name t ∧ t ∉ p.symbols.names.toList
  comes : origin m.value = m.expr
  value : Echoes p ms b origin m.expr m.value

/-- The nodes of the expressions that were moved. -/
def Inside (i : NodeId) : Prop := ∃ m ∈ ms, p.Below m.expr i

/-- A session in which expressions have their declarations. -/
structure Underway (w : World Rule Hoist) : Prop where
  requested : Requested p ms w.1
  target : (Session.start p {} : Session Rule Hoist).target.Extends w.1.target
  globals : w.1.target.globals = []
  made : ∀ m ∈ ms, Made p ms w.1.target.toArena w.2 m
  distinct : (ms.map (·.name)).Nodup
  apart : ms.Pairwise fun m m' => ¬ p.Below m.expr m'.expr
  plain : ∀ i, Inside p ms i → p.NoStatement i
  placed : ∀ m ∈ ms, ∃ x, place p m.expr = some x
  origin : ∀ k, w.2 k ≠ 0 → p.inTree (w.2 k) = true ∧ (0 < k ∧ k ≤ w.1.target.size) ∧
    Inside p ms (w.2 k) ∧
    (Echoes p ms w.1.target.toArena w.2 (w.2 k) k ∨
      ∃ m ∈ ms, m.expr = w.2 k ∧ w.1.target.shape? k = some (.expr (.ident m.name)))

variable {p ms} {s t : Session Rule Hoist} {D : NodeId → Prop} {w w' : World Rule Hoist}

theorem Made.mono {b b' : Builder} {o o' : NodeId → NodeId} (hb : b.Extends b')
    (ho : ∀ k, o k ≠ 0 → o' k = o k) {m : Moved} (hm : 0 < m.expr) (h : Made p ms b.toArena o m) :
    Made p ms b'.toArena o' m where
  decl := hb.shape? h.decl
  stmt := hb.shape? h.stmt
  named := h.named.imp fun _ => And.imp_left (·.extend hb.names)
  comes := by rw [ho _ (by rw [h.comes]; exact Nat.ne_of_gt hm), h.comes]
  value := h.value.mono hb ho

/-- A session with the same tables and the same state. -/
theorem Requested.of_tables (h : Requested p ms s) (ht : s.SameTables t)
    (hstate : t.state = s.state) (hsymbols : t.symbols = []) (hcopied : t.copied = s.copied) :
    Requested p ms t where
  source := ht.source.trans h.source
  removed := ht.removed.trans h.removed
  after := ht.after.trans h.after
  front := ht.front.trans h.front
  back := ht.back.trans h.back
  handlers := ht.handlers.trans h.handlers
  symbols := hsymbols
  symbolRule := ht.symbolRule.trans h.symbolRule
  copied := hcopied.trans h.copied
  before := by rw [ht.before]; exact h.before
  loop := by rw [hstate]; exact h.loop
  otherwise := by rw [hstate]; exact h.otherwise
  loops := by rw [hstate]; exact h.loops
  elseIfs := by rw [hstate]; exact h.elseIfs
  replacements := by rw [ht.replacements]; exact h.replacements

theorem replacements_joined (x : Place) (y : NodeId) :
    (x.joined y s).replacements = s.replacements := by cases x <;> rfl

theorem target_joined (x : Place) (y : NodeId) : (x.joined y s).target = s.target := by
  cases x <;> rfl

/-- One more expression with a declaration at its place. -/
theorem Requested.joined (h : Requested p ms s) {m : Moved} {x : Place}
    (hx : place p m.expr = some x) (hnew : ∀ m' ∈ ms, m'.expr ≠ m.expr) : Requested p (ms ++ [m])
      (x.joined m.stmt
      { s with replacements := update s.replacements m.expr (some (.handler (.reference m.name))) })
      where
  toNoted :=
    Noted.joined (s :=
      { s with replacements := update s.replacements m.expr (some (.handler (.reference m.name))) })
    { h.toNoted with } hx
  replacements k r := by
    rw [replacements_joined]
    by_cases hk : k = m.expr
    · subst hk
      have hold : ¬ ∃ m' ∈ ms, m'.expr = m.expr ∧ r = .handler (.reference m'.name) :=
        fun ⟨m', hm', he, _⟩ => hnew m' hm' he
      simp only [update_self, Option.some.injEq, List.mem_append, List.mem_singleton, or_and_right,
        exists_or, exists_eq_left, hold, true_and, false_or]
      exact eq_comm
    · simp [update_of_ne _ _ hk, h.replacements, or_and_right, exists_or, Ne.symm hk]

theorem forall₂_of_flanked {before after : NodeId → List NodeId} {gone : NodeId → Prop}
    {out : NodeId → NodeId → Prop} {xs ys : List NodeId} (h : Flanked before after gone out xs ys)
    (hb : ∀ x ∈ xs, before x = []) (ha : ∀ x, after x = []) (hg : ∀ x, ¬ gone x) :
    List.Forall₂ out xs ys := by
  induction h with
  | nil => exact .nil
  | @keep x y xs ys _ ho _ ih =>
    rw [hb x List.mem_cons_self, ha]
    exact .cons ho (ih fun x hx => hb x (List.mem_cons_of_mem _ hx))
  | drop hx => exact absurd hx (hg _)

theorem flanked_of_forall₂ {before after : NodeId → List NodeId} {gone : NodeId → Prop}
    {out : NodeId → NodeId → Prop} {xs ys : List NodeId} (h : List.Forall₂ out xs ys)
    (hb : ∀ x ∈ xs, before x = []) (ha : ∀ x, after x = []) (hg : ∀ x, ¬ gone x) :
    Flanked before after gone out xs ys := by
  induction h with
  | nil => exact .nil
  | @cons x y xs ys ho _ ih =>
    have hkeep : Flanked before after gone out (x :: xs) (before x ++ y :: (after x ++ ys)) :=
      .keep (hg x) ho (ih fun x hx => hb x (List.mem_cons_of_mem _ hx))
    rwa [hb x List.mem_cons_self, ha] at hkeep

/-- Nothing is put before a child of a node that is no block. -/
theorem before_eq_nil (ht : p.TreeShaped) (hs : Noted p ms s) {i c : NodeId}
    (hi : p.inTree i = true) (hc : c ∈ p.children i) (hplain : p.NoStatement i) :
    s.before c = [] := by
  rw [hs.before, List.eq_nil_iff_forall_not_mem]
  intro y hy
  obtain ⟨m, _, hplace, _⟩ := mem_declaredAt.1 hy
  obtain ⟨_, ss, hparent⟩ := suits_of_place hplace
  rw [ht.parent hi hc] at hparent
  simp [Arena.NoStatement, hparent, Shape.isStatement] at hplain

theorem before_zero (hs : Noted p ms s) : s.before 0 = [] := by
  rw [hs.before, List.eq_nil_iff_forall_not_mem]
  intro y hy
  obtain ⟨m, _, hplace, _⟩ := mem_declaredAt.1 hy
  exact Bool.false_ne_true (suits_of_place hplace).1

/-- Nothing is put before a part of a node that is no block. -/
theorem before_slot (ht : p.TreeShaped) (hs : Noted p ms s) {i x : NodeId} (hi : p.inTree i = true)
    {n : Node} (hn : p.node? i = some n) (hplain : p.NoStatement i) (hx : x ∈ n.shape.slots) :
    s.before x = [] := by
  by_cases h0 : x = 0
  · exact h0 ▸ before_zero hs
  · exact before_eq_nil ht hs hi (Arena.mem_children.2 ⟨n, hn, hx, h0⟩) hplain

theorem not_gone (hs : Noted p ms s) (i : NodeId) : ¬ (account p ms s D).gone i := by
  simp [Account.gone, account, hs.removed]

theorem echoes_of_parts (ht : p.TreeShaped) (hs : Noted p ms s) {i j : NodeId}
    (hi : p.inTree i = true) (hplain : p.NoStatement i) (h : (account p ms s D).Parts w i j) :
    Echoes p ms w.1.target.toArena w.2 i j := by
  obtain ⟨_, n, m, hn, hm, hspan, hrel⟩ := h
  have hn : p.node? i = some n := by rwa [← hs.source]
  refine ⟨n, m, hn, hm, hspan, hrel.within_both.mono (fun _ _ h => h) (fun _ _ h => h.2.2) ?_⟩
  rintro xs ys ⟨hxs, _, hl⟩
  exact forall₂_of_flanked hl.flanked (fun x hx => before_slot ht hs hi hn hplain (hxs x hx))
    (fun x => congrFun hs.after x)
    (not_gone hs)

/-- A plain copy is made of the copies of its parts. -/
theorem parts_of_echoes (ht : p.TreeShaped) (hs : Ruled p ms s) {i j : NodeId}
    (hi : p.inTree i = true) (hplain : p.NoStatement i) (hD : D i)
    (h : Echoes p ms w.1.target.toArena w.2 i j) : (account p ms s D).Parts w i j := by
  obtain ⟨n, m, hn, hm, hspan, hrel⟩ := h
  refine ⟨⟨hD, fun rule hr => ?_⟩, n, m, by rwa [← hs.source] at hn, hm, hspan,
    hrel.within_both.mono (fun _ _ h => h) (fun _ _ h => h.2.2) ?_⟩
  · obtain ⟨rule', hrule, hr'⟩ := hs.rules i _ hr
    cases hr'
    cases hrule with
    | reference => exact ⟨_, rfl⟩
    | loop hl =>
      obtain ⟨x, hd, hx, _⟩ := isLoopHeader_iff.1 hl.isLoopHeader
      simp [Arena.NoStatement, hx, Shape.isStatement] at hplain
    | otherwise hl =>
      obtain ⟨_, _, _, hx⟩ := hl.isIf
      simp [Arena.NoStatement, hx, Shape.isStatement] at hplain
  · rintro xs ys ⟨hxs, _, hl⟩
    refine ⟨Listed.of_forall₂ hl (not_gone hs.toNoted),
      flanked_of_forall₂ hl (fun x hx => ?_) (fun x => congrFun hs.after x) (not_gone hs.toNoted)⟩
    exact before_slot ht hs.toNoted hi hn hplain (hxs x hx)

/-- A plain copy stays one when another expression is moved that is none of its parts. -/
theorem Echoes.concat {b : Arena} {o : NodeId → NodeId} {i j : NodeId} {m : Moved}
    (h : Echoes p ms b o i j) (hm0 : m.expr ≠ 0) (hne : m.expr ∉ p.children i) :
    Echoes p (ms ++ [m]) b o i j := by
  obtain ⟨n, n', hn, hn', hspan, hrel⟩ := h
  have hcomes : ∀ x y, x ∈ n.shape.slots → Comes ms b o x y → Comes (ms ++ [m]) b o x y := by
    rintro x y hx (h | ⟨hx0, hy, hms⟩)
    · exact .inl h
    · refine .inr ⟨hx0, hy, fun m' hm' he => ?_⟩
      rcases List.mem_append.1 hm' with hm' | hm'
      · exact hms m' hm' he
      · rw [List.mem_singleton] at hm'
        subst hm'
        exact absurd (Arena.mem_children.2 ⟨n, hn, he ▸ hx, hm0⟩) hne
  refine ⟨n, n', hn, hn', hspan,
    hrel.within_both.mono (fun _ _ h => h) (fun x y h => hcomes x y h.1 h.2.2) ?_⟩
  rintro xs ys ⟨hxs, hys, hl⟩
  clear hrel hys
  induction hl with
  | nil => exact .nil
  | @cons x y xs ys hxy _ ih =>
    exact .cons (hcomes x y (hxs x List.mem_cons_self) hxy)
      (ih fun x hx => hxs x (List.mem_cons_of_mem _ hx))

/-- Before anything is added. -/
theorem Underway.start (p : Program) :
    Underway p [] ((Session.start p {}, fun _ => 0) : World Rule Hoist) where
  requested := .start p
  target := .refl _
  globals := rfl
  made := by simp
  distinct := by simp
  apart := .nil
  plain := by simp [Inside]
  placed := by simp
  origin k hk := absurd rfl hk

/-- The copies that were made are as the account of further copies says. -/
theorem Underway.traced (ht : p.TreeShaped) (h : Underway p ms w) {b : Builder}
    (hb : w.1.target.Extends b) (hs : Ruled p ms s) (hD : ∀ i, Inside p ms i → D i) {k : NodeId}
    (hk : w.2 k ≠ 0) {w' : World Rule Hoist} (hw' : w'.1.target = b ∧ w'.2 = w.2) :
    (account p ms s D).base.source.inTree (w.2 k) = true ∧
    (account p ms s D).Describes w' (w.2 k) k := by
  obtain ⟨hin, _, hinside, hform⟩ := h.origin k hk
  obtain ⟨htarget, hnotes⟩ := hw'
  refine ⟨?_, ?_⟩
  · have hsource : (account p ms s D).base.source = p := hs.source
    rwa [hsource]
  rcases hform with hform | ⟨m, hm, he, hshape⟩
  · refine .inl (parts_of_echoes ht hs hin (h.plain _ hinside) (hD _ hinside) ?_)
    rw [htarget, hnotes]
    exact hform.mono hb fun _ _ => rfl
  · refine .inr ⟨hD _ hinside, ?_⟩
    rw [← he]
    refine .reference hm ?_
    rw [htarget]
    exact hb.shape? hshape

/-- The account of a copy that is made under way. -/
theorem Underway.holds (hp : p.Fit) (hc : p.Counted) (h : Underway p ms w) {s : Session Rule Hoist}
    {g : NodeId → NodeId} (hs : Requested p ms s) (hb : w.1.target.Extends s.target)
    (hD : ∀ i, Inside p ms i → D i) (hready : (regime counting p).Ready p [] (s, g) []) {e : NodeId}
    (he : 0 < e ∧ e < p.root) (hapart : ∀ m ∈ ms, ¬ p.Below m.expr e) :
    (account p ms s D).Holds (s, w.2) ((account p ms s D).below (account p ms s D).depth e) where
  tables := .refl _
  good := by
    have hnone : s.replacements e = none := by
      refine Option.eq_none_iff_forall_ne_some.2 fun r hr => ?_
      obtain ⟨m, hm, rfl, _⟩ := (hs.replacements e r).1 hr
      exact hapart m hm .self
    have hlive : (regime counting p).Live s e := by
      rintro k _ hcut ⟨c, hchild, hu⟩
      rw [hs.source] at hchild hu
      cases hr : s.replacements k with
      | none => simp [Regime.cuts, hr] at hcut
      | some r =>
        obtain ⟨m, hm, rfl, _⟩ := (hs.replacements k r).1 hr
        exact hapart m hm (.of_child hchild hu)
    have hgood := hready.good
    rw [List.append_nil] at hgood
    have hgood := hgood.weaken fun x => Nat.le_trans (Nat.le_add_right _ _)
      (Regime.count_replacing hp hc hready.toLaid (rfl : (regime counting p).stops (.reference 0) =
        true) he hnone hlive (account p ms s D).depth x)
    rw [Account.below_congr (A := (regime counting p).account s) (B := account p ms s D) rfl
      rfl rfl] at hgood
    have hgood' := hgood.weaken fun x =>
      (List.filter_sublist :
        (((account p ms s D).below (account p ms s D).depth e).filter (· ≠ 0)).Sublist _).count_le x
    exact ⟨hgood'.toFit, hgood'.free, hgood'.once⟩
  inserted i y hy := by
    have hafter : s.after = fun _ => [] := hs.after
    have hy : y ∈ s.before i ++ s.after i := hy
    rw [hafter, List.append_nil, hs.before] at hy
    obtain ⟨m, hm, _, rfl⟩ := mem_declaredAt.1 hy
    obtain ⟨n, hn, _⟩ := Option.map_eq_some_iff.1 (h.made m hm).stmt
    exact ⟨Nat.ne_of_gt (Arena.range_of_node? hn).1, trivial⟩
  fixed i j hf := by
    obtain ⟨_, _, _, hr⟩ := (hs.replacements i _).1 hf
    cases hr
  traced k hk := h.traced (hp.treeShaped hc) hb hs.ruled hD hk ⟨rfl, rfl⟩
  range k hk := ⟨(h.origin k hk).2.1.1, Nat.le_trans (h.origin k hk).2.1.2 hb.size_le⟩
  fresh _ _ := ⟨False.elim, False.elim, False.elim⟩
  state := ⟨rfl, hs.symbols, (h.target.trans hb).names⟩

/-- More may go wrong than does. -/
theorem relax {ε σ γ α : Type} {step : EStateM ε σ α} {w : σ × γ} {D E : ε → Prop}
    {Q : α → σ × γ → Prop} (hE : ∀ e, D e → E e) (h : Runs step w D Q) : Runs step w E Q := by
  unfold Runs at h ⊢
  split at h
  · exact h
  · exact hE _ h

theorem place_eq_none {e : NodeId} (h : p.statementOf e = 0) : place p e = none := by
  have hzero : p.shape? 0 = none := rfl
  simp [place, h, isLoopHeader, placeBefore, hzero]

/-- The declaration of a copy goes to its place. -/
theorem runs_place {E : Stop → Prop} {e y : NodeId} {Q : Unit → World Rule Hoist → Prop}
    (hs : w.1.source = p) (hnone : place p e = none → ∀ x, E x)
    (h : ∀ x, place p e = some x → Runs (Work.edit (put x y)) w E Q) :
    Runs (if isLoopHeader p (p.statementOf e) then
      Work.edit <| changeRecord (·.onLoop (p.statementOf e) fun l =>
        { l with condition := l.condition ++ [y] })
    else insert (p.statementOf e) y) w E Q := by
  unfold place at hnone h
  split
  · next hloop => exact h (.condition _) (by rw [if_pos hloop])
  · next hloop =>
    rw [if_neg hloop] at hnone h
    unfold insert
    refine Runs.bind (Runs.get ?_)
    rw [hs]
    exact runs_insertBefore hs _ _ _ hnone h

/-- What a copy of an expression leaves is known once it is made. -/
theorem Underway.runs_copy (hp : p.Fit) (hk : p.Known) (hc : p.Counted) (h : Underway p ms w)
    {s : Session Rule Hoist} {g : NodeId → NodeId} (hs : Requested p ms s)
    (hb : w.1.target.Extends s.target) (hready : (regime counting p).Ready p [] (s, g) [])
    {e : NodeId} (he : 0 < e ∧ e < p.root) (hin : p.inTree e = true)
    (hplain : ∀ i, p.Below e i → p.NoStatement i) (hapart : ∀ m ∈ ms, ¬ p.Below m.expr e) :
    Runs (Edit.copy Promote.act e) (s, w.2) (fun _ => False) fun j w' => Requested p ms w'.1 ∧
      s.target.Extends w'.1.target ∧ w'.1.target.globals = s.target.globals ∧
      (∀ k, w.2 k ≠ 0 → w'.2 k = w.2 k) ∧ w'.2 j = e ∧
      ∀ k, w'.2 k ≠ 0 → p.inTree (w'.2 k) = true ∧ (0 < k ∧ k ≤ w'.1.target.size) ∧
        (Inside p ms (w'.2 k) ∨ p.Below e (w'.2 k)) ∧
        (Echoes p ms w'.1.target.toArena w'.2 (w'.2 k) k ∨
          ∃ m ∈ ms, m.expr = w'.2 k ∧ w'.1.target.shape? k = some (.expr (.ident m.name))) := by
  have ht := hp.treeShaped hc
  let D : NodeId → Prop := fun i => Inside p ms i ∨ p.Below e i
  have hD : ∀ i c, D i → c ∈ p.children i → D c := fun i c hi hc => hi.imp
    (fun ⟨m, hm, hb⟩ => ⟨m, hm, hb.trans (.of_child hc .self)⟩) fun hb =>
      hb.trans (.of_child hc .self)
  have hD' : ∀ i, D i → p.NoStatement i := fun i hi => hi.elim (h.plain i) (hplain i)
  have h0 : ∀ m ∈ ms, m.stmt ≠ 0 := fun m hm => by
    obtain ⟨n, hn, _⟩ := Option.map_eq_some_iff.1 (h.made m hm).stmt
    exact Nat.ne_of_gt (Arena.range_of_node? hn).1
  have hcopies :=
    Account.copies (A := account p ms s D) account_stable (account_plain hp hk hs.toNoted)
    (reach_reaching hp hs.source hD) (account_handled hp hs.ruled h0 hD) (account p ms s D).depth
  have hreach : reaching p D (account p ms s D).depth e := by
    refine ⟨⟨?_, fun _ => ⟨hin, Nat.ne_of_lt he.2⟩⟩, fun _ => .inr .self⟩
    have hsource : (account p ms s D).base.source = p := hs.source
    have hlt := he.2
    rw [hp.root] at hlt
    rw [Account.depth, hsource]
    grind
  have hholds := h.holds hp hc hs hb (D := D) (fun i hi => .inl hi) hready he hapart
  have hturn := Account.turns_copy hcopies hreach (s, w.2) [] (by rwa [List.append_nil])
  refine hturn.mono fun j w' ⟨hw', hlater, hout⟩ => ?_
  have hne : e ≠ 0 := Nat.ne_of_gt he.1
  obtain ⟨_, hj, _⟩ := hout.resolve_left fun h => hne h.1
  refine ⟨hs.of_tables hlater.tables hw'.state.1 hw'.state.2.1 hlater.copied, hlater.target,
    hlater.globals trivial, hlater.origin, hj, fun k hk => ?_⟩
  obtain ⟨hin', hform⟩ := hw'.traced k hk
  have hin' : p.inTree (w'.2 k) = true := by rwa [← hs.source]
  have hDk : D (w'.2 k) := hform.elim (fun h => h.1.1) fun h => h.1
  refine ⟨hin', hw'.range k hk, hDk, ?_⟩
  rcases hform with hform | ⟨_, hform⟩
  · exact .inl (echoes_of_parts ht hs.toNoted hin' (hD' _ hDk) hform)
  · have hplain := hD' _ hDk
    generalize w'.2 k = i at hform hplain
    cases hform with
    | reference hm hshape => exact .inr ⟨_, hm, rfl, hshape⟩
    | loop _ hi _ _ => simp [Arena.NoStatement, hi, Shape.isStatement] at hplain
    | otherwise _ hi _ => simp [Arena.NoStatement, hi, Shape.isStatement] at hplain

/-- A declaration joins those that were made, once the copy that it declares is there. -/
theorem Underway.joined (hp : p.Fit) (hc : p.Counted) (h : Underway p ms w) {s : Session Rule Hoist}
    {o : NodeId → NodeId} {m : Moved} {x : Place} (hs : Requested p ms s)
    (hb : w.1.target.Extends s.target) (hglobals : s.target.globals = [])
    (ho : ∀ k, w.2 k ≠ 0 → o k = w.2 k) (hfresh : m.name = w.1.target.symbols.size + 1)
    (hnamed : ∃ t, s.target.symbols.Names m.name t ∧ t ∉ p.symbols.names.toList)
    (hdecl : s.target.shape? m.decl = some (.decl (.value ⟨m.kind, m.name, 0, m.value, []⟩)))
    (hstmt : s.target.shape? m.stmt = some (.stmt (.varDecl m.decl))) (hvalue : o m.value = m.expr)
    (hm : 0 < m.expr) (hplain : ∀ i, p.Below m.expr i → p.NoStatement i)
    (hapart : ∀ m' ∈ ms, ¬ p.Below m'.expr m.expr)
    (horigin : ∀ k, o k ≠ 0 → p.inTree (o k) = true ∧ (0 < k ∧ k ≤ s.target.size) ∧
      (Inside p ms (o k) ∨ p.Below m.expr (o k)) ∧ (Echoes p ms s.target.toArena o (o k) k ∨
        ∃ m' ∈ ms, m'.expr = o k ∧ s.target.shape? k = some (.expr (.ident m'.name))))
    (hx : place p m.expr = some x) :
    Underway p (ms ++ [m]) (x.joined m.stmt
      { s with replacements := update s.replacements m.expr (some (.handler (.reference m.name))) },
      o) := by
  have ht := hp.treeShaped hc
  have hm0 : m.expr ≠ 0 := Nat.ne_of_gt hm
  have hinside : ∀ {i}, Inside p ms i → Inside p (ms ++ [m]) i :=
    fun ⟨m', hm', hb⟩ => ⟨m', List.mem_append_left _ hm', hb⟩
  -- The expression is no part of one that was copied.
  have hpart : ∀ i, p.inTree i = true → Inside p ms i ∨ p.Below m.expr i →
      m.expr ∉ p.children i := by
    rintro i hi (⟨m', hm', hb⟩ | hb) hchild
    · exact hapart m' hm' (hb.trans (.of_child hchild .self))
    · exact ht.not_below_child hi hchild hb
  have htarget : (x.joined m.stmt { s with
      replacements :=
        update s.replacements m.expr (some (.handler (.reference m.name))) }).target = s.target :=
    target_joined _ _
  refine ⟨hs.joined hx fun m' hm' he => hapart m' hm' (he ▸ .self), ?_, ?_, ?_, ?_, ?_, ?_, ?_, ?_⟩
  · rw [htarget]
    exact h.target.trans hb
  · rw [htarget]
    exact hglobals
  · intro m' hm'
    rw [htarget]
    rcases List.mem_append.1 hm' with hm' | hm'
    · have hmade := h.made m' hm'
      have hm0' : 0 < m'.expr := by
        obtain ⟨n, _, hn, _⟩ := hmade.value
        exact (Arena.range_of_node? hn).1
      have hlater := hmade.mono hb ho hm0'
      obtain ⟨hin, _⟩ := horigin m'.value (by rw [hlater.comes]; exact Nat.ne_of_gt hm0')
      rw [hlater.comes] at hin
      exact { hlater with value := hlater.value.concat hm0 (hpart _ hin (.inl ⟨m', hm', .self⟩)) }
    · rw [List.mem_singleton] at hm'
      subst hm'
      obtain ⟨hin, _, _, hform⟩ := horigin m'.value (by rwa [hvalue])
      rw [hvalue] at hin hform
      refine ⟨hdecl, hstmt, hnamed, hvalue, Echoes.concat ?_ hm0 (hpart _ hin (.inr .self))⟩
      exact hform.resolve_right fun ⟨m₀, hm₀, he, _⟩ => hapart m₀ hm₀ (he ▸ .self)
  · rw [List.map_append, List.map_singleton, List.nodup_append]
    refine ⟨h.distinct, List.nodup_singleton _, ?_⟩
    rintro y hy _ hmem rfl
    rw [List.mem_singleton] at hmem
    obtain ⟨m', hm', hname⟩ := List.mem_map.1 hy
    obtain ⟨t, hnames, _⟩ := (h.made m' hm').named
    have hle := hnames.le_size.2
    have heq : m'.name = w.1.target.symbols.size + 1 := hname.trans (hmem.trans hfresh)
    rw [heq] at hle
    exact absurd hle (Nat.not_succ_le_self _)
  · refine List.pairwise_append.2 ⟨h.apart, List.pairwise_singleton _ _, fun m' hm' y hy => ?_⟩
    rw [List.mem_singleton.1 hy]
    exact hapart m' hm'
  · rintro i ⟨m', hm', hb⟩
    rcases List.mem_append.1 hm' with hm' | hm'
    · exact h.plain i ⟨m', hm', hb⟩
    · rw [List.mem_singleton] at hm'
      exact hplain i (hm' ▸ hb)
  · exact List.forall_mem_append.2 ⟨h.placed, List.forall_mem_singleton.2 ⟨x, hx⟩⟩
  · intro k hk
    obtain ⟨hin, hrange, hwhere, hform⟩ := horigin k hk
    rw [htarget]
    refine ⟨hin, hrange, ?_, ?_⟩
    · exact hwhere.elim hinside fun hb =>
        ⟨m, List.mem_append_right _ (List.mem_singleton_self _), hb⟩
    · refine hform.imp (fun he => he.concat hm0 (hpart _ hin hwhere)) ?_
      exact fun ⟨m', hm', h⟩ => ⟨m', List.mem_append_left _ hm', h⟩

/-- The kind of declaration that is asked for. -/
def kindOf (asLet : Bool) : VariableKind := if asLet then .letValue else .var .none .undefined

theorem freshSymbol_new (b : Builder) (hint : String) :
    ∃ t b', Build.freshSymbol hint b = .ok (b.symbols.size + 1) b' ∧
    t ∉ b.symbols.names.toList ∧ b'.symbols.Names (b.symbols.size + 1) t ∧ b.Adds b' [] := by
  have hrun : Build.freshSymbol hint b =
      .ok (b.symbols.fresh hint).1 { b with symbols := (b.symbols.fresh hint).2 } := rfl
  obtain ⟨name, hnew, hsymbol, hnames⟩ := b.symbols.fresh_new hint
  rw [hsymbol] at hrun
  exact ⟨name, _, hrun, hnew, SymbolTable.names_push hnames, (Build.freshSymbol_ok hrun).2⟩

/-- A step that adds one node. -/
theorem push_total {step : Build NodeId} (shape : Shape Symbol NodeId)
    (hstep : step = Build.push shape) (b : Builder) :
    ∃ j b', step b = .ok j b' ∧ b'.shape? j = some shape ∧ b.Adds b' [] := by
  subst hstep
  exact ⟨_, _, rfl, Build.push_ok rfl⟩

theorem runs_replaceWith {E : Misuse → Prop} {e : NodeId} {rule : Rule} (hp : p.Fit)
    (hs : w.1.source = p) (hin : p.inTree e = true) (hnone : w.1.replacements e = none) :
    Runs (Edit.replaceWith e rule) w E fun _ w' =>
      w' = ({ w.1 with replacements := update w.1.replacements e (some (.handler rule)) },
      w.2) := by
  obtain ⟨n, hn⟩ := Option.isSome_iff_exists.1 (hp.node_of_inTree hin)
  subst hs
  have hregister : Edit.register e (.handler rule) w.1 =
      .ok () { w.1 with replacements := update w.1.replacements e (some (.handler rule)) } := by
    unfold Edit.register
    rw [get_bind, hnone]
    rfl
  exact Runs.of_ok (bind_ok.2 ⟨n, w.1, checkSource_ok.2 ⟨hn, hin, rfl⟩, hregister⟩) w.2 rfl

/-- An expression gets its declaration, unless there is no place for it. -/
theorem Underway.runs_add (hp : p.Fit) (hk : p.Known) (hc : p.Counted) (h : Underway p ms w)
    (hready : ∃ g, (regime counting p).Ready p [] (w.1, g) []) {e : NodeId}
    (he : 0 < e ∧ e < p.root) (hin : p.inTree e = true)
    (hplain : ∀ i, p.Below e i → p.NoStatement i) (hapart : ∀ m ∈ ms, ¬ p.Below m.expr e)
    (asLet : Bool) (hint : String) :
    Runs (add Promote.act e e asLet hint) w (fun _ => place p e = none) fun _ w' =>
      ∃ m, m.expr = e ∧ m.kind = kindOf asLet ∧ Underway p (ms ++ [m]) w' := by
  obtain ⟨g, hready⟩ := hready
  unfold add
  refine Runs.bind (Runs.get ?_)
  simp only [h.requested.source]
  split
  · next hzero => exact Runs.bind (Runs.throw (place_eq_none hzero))
  obtain ⟨t, b, hname, hnew, hnamed, hadds⟩ := freshSymbol_new w.1.target hint
  have hstep : Edit.build (Build.freshSymbol hint) w.1 = .ok (w.1.target.symbols.size + 1)
      { w.1 with target := b } := by
    simp only [Edit.build, hname]
  obtain ⟨_, hready⟩ := (hready.makes (u := []) steady (.freshSymbol hint)).ok hstep
  refine Runs.bind (Work.runs_edit (Runs.of_ok hstep w.2 ?_))
  have hs : Requested p ms { w.1 with target := b } :=
    h.requested.of_tables (.of_target _ _) rfl h.requested.symbols rfl
  refine Runs.bind
    (Work.runs_edit
      (relax (fun _ => False.elim) ((h.runs_copy hp hk hc hs hadds.toExtends hready he hin hplain
    hapart).mono fun value w₂ hcopied => ?_)))
  obtain ⟨hs₂, hb₂, hg₂, ho₂, hvalue, horigin⟩ := hcopied
  -- The declaration and its statement are put into the target one after the other.
  obtain ⟨decl, b₃, hpush₃, hdecl, hb₃⟩ :=
    push_total (.decl (.value ⟨kindOf asLet, _, 0, value, []⟩)) rfl w₂.1.target
  refine Runs.bind (Work.runs_edit (Account.runs_build hpush₃ ?_))
  have hnone : w₂.1.replacements e = none := by
    refine Option.eq_none_iff_forall_ne_some.2 fun r hr => ?_
    obtain ⟨m, hm, rfl, _⟩ := (hs₂.replacements e r).1 hr
    exact hapart m hm .self
  refine Runs.bind
    (Work.runs_edit ((runs_replaceWith (w := ({ w₂.1 with target := b₃ }, w₂.2)) hp hs₂.source hin
    hnone).mono ?_))
  rintro _ _ rfl
  obtain ⟨stmt, b₄, hpush₄, hstmt, hb₄⟩ := push_total (.stmt (.varDecl decl)) rfl b₃
  refine Runs.bind (Work.runs_edit (Account.runs_build hpush₄ ?_))
  refine runs_place hs₂.source (fun hnone _ => hnone) fun x hx => Work.runs_edit ?_
  have hnode : (b₄.node? stmt).isSome := by
    obtain ⟨n, hn, _⟩ := Option.map_eq_some_iff.1 hstmt
    exact Option.isSome_iff_exists.2 ⟨n, hn⟩
  refine relax (fun _ => False.elim) ((runs_put (w := ({ w₂.1 with
    target := b₄, replacements := update w₂.1.replacements e (some (.handler (.reference _))) },
      w₂.2)) hs₂.source
    (hp.treeShaped hc) (suits_of_place hx) hnode).mono ?_)
  rintro _ _ rfl
  have hb₂₄ : w₂.1.target.Extends b₄ := hb₃.toExtends.trans hb₄.toExtends
  have hsize : w₂.1.target.size ≤ b₄.size := hb₂₄.size_le
  refine ⟨⟨e, w.1.target.symbols.size + 1, value, decl, stmt, kindOf asLet⟩, rfl, rfl, ?_⟩
  refine h.joined (s := { w₂.1 with target := b₄ }) hp hc
    (hs₂.of_tables (.of_target _ _) rfl hs₂.symbols rfl)
    (hadds.toExtends.trans (hb₂.trans hb₂₄)) ?_ ho₂ rfl ?_ (hb₄.toExtends.shape? hdecl) hstmt hvalue
      he.1 hplain hapart
    (fun k hk => ?_) hx
  · have hglobals : b.globals = [] := hadds.globals.trans (by rw [h.globals, List.append_nil])
    rw [hb₄.globals, hb₃.globals, hg₂, hglobals]
    rfl
  · exact ⟨t, hnamed.extend (hb₂.trans hb₂₄).names, fun hold => hnew (by
      obtain ⟨more, hmore⟩ := h.target.names
      rw [hmore]
      simp only [Array.toList_append, List.mem_append]
      exact .inl hold)⟩
  · obtain ⟨hin', hrange, hwhere, hform⟩ := horigin k hk
    refine ⟨hin', ⟨hrange.1, Nat.le_trans hrange.2 hsize⟩, hwhere,
      hform.imp (·.mono hb₂₄ fun _ _ => rfl) fun hmoved => ?_⟩
    obtain ⟨m, hm, he, hshape⟩ := hmoved
    exact ⟨m, hm, he, hb₂₄.shape? hshape⟩

/-- Adding an expression keeps the session ready, too. -/
theorem Underway.runs_request (hp : p.Fit) (hk : p.Known) (hc : p.Counted) (h : Underway p ms w)
    (hready : ∃ g, (regime counting p).Ready p [] (w.1, g) []) {e : NodeId}
    (he : 0 < e ∧ e < p.root) (hin : p.inTree e = true)
    (hplain : ∀ i, p.Below e i → p.NoStatement i) (hapart : ∀ m ∈ ms, ¬ p.Below m.expr e)
    (asLet : Bool) (hint : String) :
    Runs (add Promote.act e e asLet hint) w (fun _ => place p e = none) fun _ w' =>
      (∃ m, m.expr = e ∧ m.kind = kindOf asLet ∧ Underway p (ms ++ [m]) w') ∧
        ∃ g, (regime counting p).Ready p [] (w'.1, g) [] := by
  have hready' := hready
  obtain ⟨g, hready'⟩ := hready'
  have hbelow : ∀ k, w.1.replacements k ≠ none → ¬ p.Below k e := by
    intro k hne hb
    obtain ⟨r, hr⟩ := Option.ne_none_iff_exists'.1 hne
    obtain ⟨m, hm, rfl, _⟩ := (h.requested.replacements k r).1 hr
    exact hapart m hm hb
  have hkeeps : Runs (add Promote.act e e asLet hint) (w.1, g) (fun _ => True) _ :=
    Hoist.runs_add hp (fun _ => hc) False.elim e he (hplain e .self) hbelow hready'
  exact (h.runs_add hp hk hc hready he hin hplain hapart asLet hint).and (P := fun _ s =>
    ∃ g, (regime counting p).Ready p [] (s, g) [])
      (Runs.of_session g (hkeeps.mono fun _ w' hw' => ⟨w'.2, hw'.1⟩))

theorem inTree_statementOf (hp : p.Fit) {e : NodeId} (h : p.statementOf e ≠ 0) :
    p.inTree (p.statementOf e) = true := by
  have hw : p.Walked := ⟨hp.node_of_inTree p.inTree_root, hp.parents⟩
  have hascends : ∀ {i j : NodeId}, p.Ascends Shape.isStatement i j → (i ≠ 0 → p.inTree i = true) →
      j ≠ 0 → p.inTree j = true := by
    intro i j ha
    induction ha with
    | absent => exact fun _ h => absurd rfl h
    | found h0 => exact fun h _ => h h0
    | up _ _ _ ih => exact fun _ hj => ih (fun h0 => (hw.parent_holds h0).2) hj
  exact hascends (hw.ascends_statementOf e) (fun h0 => (hw.parent_holds h0).2) h

/-- Loops with declarations in them are in the tree. -/
theorem LoopWith.inTree (hp : p.Fit) {k : NodeId} (h : LoopWith p ms k) : p.inTree k = true := by
  obtain ⟨m, _, hm | hm⟩ := h
  · have hloop : Hoist.isLoopHeader p k = true := suits_of_place hm
    unfold place at hm
    split at hm
    · cases hm
      obtain ⟨_, _, hs, _⟩ := isLoopHeader_iff.1 hloop
      exact inTree_statementOf hp (Arena.ne_zero_of_shape hs)
    · have hnot : ∀ n i, placeBefore p n i ≠ some (.condition k) := by
        intro n
        induction n with
        | zero => exact fun _ => nofun
        | succ n ih =>
          intro i hi
          unfold placeBefore at hi
          split at hi
          · cases hi
          split at hi
          · cases hi
          split at hi
          · cases hi
          · split at hi
            · exact ih _ hi
            · split at hi <;> cases hi
          · cases hi
      exact absurd hm (hnot _ _)
  · obtain ⟨_, _, c, _, hk, _, hparent⟩ := suits_of_place hm
    have h0 : p.parent c ≠ 0 := hparent ▸ Arena.ne_zero_of_shape hk
    exact hparent ▸ (hp.parent_holds h0).2

/-- Conditionals with declarations before their conditions are in the tree. -/
theorem ElseWith.inTree (hp : p.Fit) {k : NodeId} (h : ElseWith p ms k) : p.inTree k = true := by
  obtain ⟨m, _, hm⟩ := h
  have helse : isElseOf p k = true := suits_of_place hm
  unfold isElseOf at helse
  split at helse
  · next _ hparent =>
    obtain ⟨hchild, hin⟩ := hp.parent_holds (Arena.ne_zero_of_shape hparent)
    exact hp.inTree_child hin hchild
  · cases helse

/-- The session in which nodes have a rule. -/
def ruling (rule : NodeId → Rule) (ks : List NodeId) (w : World Rule Hoist) : World Rule Hoist :=
  ({ w.1 with replacements := fun k => if k ∈ ks then some (.handler (rule k))
                else w.1.replacements k }, w.2)

theorem ruling_replacements (rule : NodeId → Rule) (ks : List NodeId) (w : World Rule Hoist)
    (k : NodeId) :
    (ruling rule ks w).1.replacements k = if k ∈ ks then some (.handler (rule k))
    else w.1.replacements k := rfl

theorem ruling_nil (rule : NodeId → Rule) (w : World Rule Hoist) : ruling rule [] w = w := by
  simp [ruling]

theorem ruling_concat (rule : NodeId → Rule) (ks : List NodeId) (k : NodeId)
    (w : World Rule Hoist) :
    ({ (ruling rule ks w).1 with
      replacements := update (ruling rule ks w).1.replacements k (some (.handler (rule k))) },
      (ruling rule ks w).2) =
      ruling rule (ks ++ [k]) w := by
  have hsame : update (ruling rule ks w).1.replacements k (some (.handler (rule k))) =
      (ruling rule (ks ++ [k]) w).1.replacements := by
    funext x
    rw [ruling_replacements]
    by_cases hx : x = k
    · subst hx
      simp
    · rw [update_of_ne _ _ hx, ruling_replacements]
      simp [hx]
  rw [hsame]
  rfl

/-- Rules are registered for nodes that have none. -/
theorem runs_registerAll {α : Type} {E : Misuse → Prop} (hp : p.Fit) (hs : w.1.source = p)
    (key : α → NodeId) (rule : NodeId → Rule) (xs : List α) (hnodup : (xs.map key).Nodup)
    (hin : ∀ k ∈ xs.map key, p.inTree k = true ∧ w.1.replacements k = none) :
    Runs (forIn xs PUnit.unit fun x _ => do
      Edit.replaceWith (key x) (rule (key x))
      pure (ForInStep.yield PUnit.unit)) w E fun _ w' => w' = ruling rule (xs.map key) w := by
  refine Runs.forIn (fun rest w' => ∃ done, xs = done ++ rest ∧ w' = ruling rule (done.map key) w)
    ⟨[], rfl, (ruling_nil _ _).symm⟩ ?_ ?_
  · rintro x rest _ hx ⟨done, hxs, rfl⟩
    have hnew : key x ∉ done.map key := by
      rw [hxs, List.map_append, List.map_cons] at hnodup
      exact fun hmem => (List.nodup_append.1 hnodup).2.2 _ hmem _ List.mem_cons_self rfl
    obtain ⟨hin, hnone⟩ := hin (key x) (List.mem_map_of_mem hx)
    refine Runs.yield ((runs_replaceWith (w := ruling rule (done.map key) w) hp hs hin
      (by rw [ruling_replacements, if_neg hnew, hnone])).mono ?_)
    rintro _ _ rfl
    exact ⟨done ++ [x], by simp [hxs], by rw [ruling_concat, List.map_append, List.map_singleton]⟩
  · rintro _ ⟨done, hxs, rfl⟩
    rw [List.append_nil] at hxs
    rw [hxs]

/-- The loops and conditionals are registered too. -/
theorem Underway.runs_apply (hp : p.Fit) (h : Underway p ms w) :
    Runs (apply (κ := Rule) (σ := Hoist)) w (fun _ => False) fun _ w' => Applied p ms w'.1 ∧
      w'.1.target = w.1.target ∧ w'.2 = w.2 := by
  have hnone : ∀ k x, p.shape? k = some (.stmt x) → w.1.replacements k = none := by
    intro k x hk
    refine Option.eq_none_iff_forall_ne_some.2 fun r hr => ?_
    obtain ⟨m, hm, rfl, _⟩ := (h.requested.replacements k r).1 hr
    have := h.plain m.expr ⟨m, hm, .self⟩
    simp [Arena.NoStatement, hk, Shape.isStatement] at this
  have hloops := h.requested.loops
  have helses := h.requested.elseIfs
  refine Runs.bind (Runs.bind (Runs.get (Runs.pure w.2 ?_)))
  refine Runs.bind
    ((runs_registerAll hp h.requested.source PendingLoop.id Rule.lowerLoop _ hloops.1 fun k hk =>
      ?_).mono ?_)
  · have hloop := (hloops.2 k).1 hk
    obtain ⟨x, _, hx, _⟩ := isLoopHeader_iff.1 hloop.isLoopHeader
    exact ⟨hloop.inTree hp, hnone k x hx⟩
  rintro _ _ rfl
  refine Runs.bind
    ((runs_registerAll (w := ruling Rule.lowerLoop (w.1.state.loops.map PendingLoop.id) w) hp
      h.requested.source
    PendingElse.id Rule.lowerElse _ helses.1 fun k hk => ?_).mono ?_)
  · have helse := (helses.2 k).1 hk
    obtain ⟨_, _, _, hx⟩ := helse.isIf
    refine ⟨helse.inTree hp, ?_⟩
    have hnot : k ∉ w.1.state.loops.map (·.id) := fun hmem => by
      have := ((hloops.2 k).1 hmem).isLoopHeader
      simp [Hoist.isLoopHeader, hx] at this
    rw [ruling_replacements, if_neg hnot, hnone k _ hx]
  rintro _ _ rfl
  refine Runs.pure w.2 ⟨?_, rfl, rfl⟩
  refine { h.requested with replacements := fun k r => ?_ }
  rw [ruling_replacements, ruling_replacements]
  constructor
  · split
    · next hmem =>
      rintro ⟨⟩
      exact ⟨_, .otherwise ((helses.2 k).1 hmem), rfl⟩
    split
    · next hmem =>
      rintro ⟨⟩
      exact ⟨_, .loop ((hloops.2 k).1 hmem), rfl⟩
    · intro hr
      obtain ⟨m, hm, rfl, rfl⟩ := (h.requested.replacements k r).1 hr
      exact ⟨_, .reference hm, rfl⟩
  · rintro ⟨_, hrule, rfl⟩
    cases hrule with
    | otherwise helse => exact if_pos ((helses.2 k).2 helse)
    | loop hloop =>
      have hnot : ¬ ElseWith p ms k := fun helse => by
        obtain ⟨_, _, _, hx⟩ := helse.isIf
        have := hloop.isLoopHeader
        simp [Hoist.isLoopHeader, hx] at this
      exact (if_neg (mt (helses.2 k).1 hnot)).trans (if_pos ((hloops.2 k).2 hloop))
    | @reference m hm =>
      have hplain := h.plain m.expr ⟨m, hm, .self⟩
      have hnot : ¬ ElseWith p ms m.expr := fun helse => by
        obtain ⟨_, _, _, hx⟩ := helse.isIf
        simp [Arena.NoStatement, hx, Shape.isStatement] at hplain
      have hnot' : ¬ LoopWith p ms m.expr := fun hloop => by
        obtain ⟨_, _, hx, _⟩ := isLoopHeader_iff.1 hloop.isLoopHeader
        simp [Arena.NoStatement, hx, Shape.isStatement] at hplain
      refine (if_neg (mt (helses.2 _).1 hnot)).trans ((if_neg (mt (hloops.2 _).1 hnot')).trans ?_)
      exact (h.requested.replacements _ _).2 ⟨m, hm, rfl, rfl⟩

end Steps

/-- The second list is the first one with other elements, and with nodes put before them. -/
inductive Woven (before : NodeId → List NodeId) (out : NodeId → NodeId → Prop) :
    List NodeId → List NodeId → Prop
  | nil : Woven before out [] []
  | cons {x y xs ys} : out x y → Woven before out xs ys →
    Woven before out (x :: xs) (before x ++ y :: ys)

theorem Woven.of_flanked {before after : NodeId → List NodeId} {gone : NodeId → Prop}
    {out : NodeId → NodeId → Prop} {xs ys : List NodeId} (h : Flanked before after gone out xs ys)
    (ha : ∀ x, after x = []) (hg : ∀ x, ¬ gone x) : Woven before out xs ys := by
  induction h with
  | nil => exact .nil
  | keep _ ho _ ih =>
    rw [ha]
    exact .cons ho ih
  | drop hx => exact absurd hx (hg _)

section Forms

variable (p : Program) (ms : List Moved) (b : Arena) (origin : NodeId → NodeId)

/-- The declarations before a statement in its block. -/
abbrev before (x : NodeId) : List NodeId := declaredAt p ms (.before x)

/-- The declarations in a loop. -/
def pending (i : NodeId) : PendingLoop :=
  ⟨i, declaredAt p ms (.condition i), declaredAt p ms (.continuing i)⟩

/-- What becomes of a node. -/
inductive Recast : NodeId → NodeId → Prop
  | parts {i j n m} : ¬ LoopWith p ms i → ¬ ElseWith p ms i → p.node? i = some n →
    b.node? j = some m →
    m.span = (if n.span.valid then n.span else {}) →
    Shape.Rel (SameName p b) (Comes ms b origin) (Woven (before p ms) (Comes ms b origin)) n.shape
    m.shape → Recast i j
  | reference {m j} : m ∈ ms → b.shape? j = some (.expr (.ident m.name)) → Recast m.expr j
  | loop {i x h j} : LoopWith p ms i → p.shape? i = some (.stmt x) → header? x = some h →
    LoweredLoop b (Comes ms b origin) (pending p ms i) h j → Recast i j
  | otherwise {i c d e j} : ElseWith p ms i → p.shape? i = some (.stmt (.ifElse c d e)) →
    LoweredElse b (Comes ms b origin) (declaredAt p ms (.otherwise i)) c d e j → Recast i j

end Forms

/-- The builder holds what hoisting makes of the program, where some expressions have declarations
and each node comes from the node of the program that is noted for it. -/
structure Hoisted (p : Program) (ms : List Moved) (b : Builder) (origin : NodeId → NodeId) :
    Prop where
  fit : b.Fit
  counted : b.build.Counted
  symbols : ∃ more, b.symbols.names = p.symbols.names ++ more
  diagnostics : b.diagnostics = p.diagnostics.without .resolver
  made : ∀ m ∈ ms, Made p ms b.toArena origin m
  distinct : (ms.map (·.name)).Nodup
  apart : ms.Pairwise fun m m' => ¬ p.Below m.expr m'.expr
  plain : ∀ i, Inside p ms i → p.NoStatement i
  placed : ∀ m ∈ ms, ∃ x, place p m.expr = some x
  traced : ∀ k, origin k ≠ 0 → p.inTree (origin k) = true ∧ (0 < k ∧ k ≤ b.size) ∧
    Recast p ms b.toArena origin (origin k) k
  globals : List.Forall₂ (Comes ms b.toArena origin) p.globals b.globals

variable {p : Program} {ms : List Moved} {s : Session Rule Hoist} {w : World Rule Hoist}

theorem recast_of_describes {D : NodeId → Prop} (hs : Applied p ms s) {i j : NodeId}
    (h : (account p ms s D).Describes w i j) : Recast p ms w.1.target.toArena w.2 i j := by
  rcases h with ⟨⟨_, hrule⟩, n, m, hn, hm, hspan, hrel⟩ | ⟨_, h⟩
  · have hn : p.node? i = some n := by rwa [← hs.source]
    refine .parts (fun hl => ?_) (fun hl => ?_) hn hm hspan
      (hrel.mono (fun _ _ h => h) (fun _ _ h => h) fun xs ys hl => ?_)
    · obtain ⟨_, hx⟩ := hrule _ ((hs.replacements i _).2 ⟨_, .loop hl, rfl⟩)
      cases hx
    · obtain ⟨_, hx⟩ := hrule _ ((hs.replacements i _).2 ⟨_, .otherwise hl, rfl⟩)
      cases hx
    · have hbefore : (account p ms s D).base.before = before p ms := funext hs.before
      have := Woven.of_flanked hl.flanked (fun x => congrFun hs.after x) (not_gone hs.toNoted)
      rwa [hbefore] at this
  · cases h with
    | reference hm hj => exact .reference hm hj
    | loop hl hi hx hlow =>
      rw [hs.loop] at hlow
      exact .loop hl hi hx hlow
    | otherwise hl hi hlow =>
      rw [hs.otherwise] at hlow
      exact .otherwise hl hi hlow

/-- Once all is registered, the copy makes the program. -/
theorem Underway.runs_copyModule (hp : p.Fit) (hk : p.Known) (hc : p.Counted) (h : Underway p ms w)
    {s : Session Rule Hoist} (hs : Applied p ms s) (htarget : s.target = w.1.target)
    (hready : ∃ g, (regime counting p).Ready p [] (s, g) []) :
    Runs (Edit.copyModule (Edit.copy Promote.act)) (s, w.2) (fun _ => False) fun _ w' =>
      w'.1.copied = true ∧
      Hoisted p ms w'.1.target w'.2 := by
  obtain ⟨g, hready⟩ := hready
  have ht := hp.treeShaped hc
  have h0 : ∀ m ∈ ms, m.stmt ≠ 0 := fun m hm => Arena.ne_zero_of_shape (h.made m hm).stmt
  have hsource : (account p ms s fun _ => True).base.source = p := hs.source
  have hholds : (account p ms s fun _ => True).Holds (s, w.2)
      ((account p ms s fun _ => True).base.source.globals.flatMap
      ((account p ms s fun _ => True).around (account p ms s fun _ => True).depth) ++ []) := by
    refine ⟨.refl _, ?_, fun i y hy => ?_, fun i j hf => ?_, fun k hk => ?_,
      fun k hk => ?_, fun _ _ =>
      ⟨False.elim, False.elim, False.elim⟩, rfl, hs.symbols, by rw [htarget]; exact h.target.names⟩
    · have hgood := hready.good_globals hp (fun _ => hc) (account p ms s fun _ => True).depth
      have haround : ((regime counting p).account s).around (account p ms s fun _ => True).depth =
          (account p ms s fun _ => True).around (account p ms s fun _ => True).depth :=
        Account.around_congr (A := (regime counting p).account s)
          (B := account p ms s fun _ => True) rfl rfl rfl _
      rw [haround] at hgood
      rw [hsource]
      exact ⟨hgood.toFit, hgood.free, hgood.once⟩
    · have hy : y ∈ s.before i ++ s.after i := hy
      rw [hs.after, List.append_nil, hs.before] at hy
      obtain ⟨m, hm, _, rfl⟩ := mem_declaredAt.1 hy
      exact ⟨h0 m hm, trivial⟩
    · obtain ⟨_, _, hr⟩ := (hs.replacements i _).1 hf
      cases hr
    · exact h.traced ht (.refl _) hs.ruled (fun _ _ => trivial) hk ⟨htarget, rfl⟩
    · rw [htarget]
      exact (h.origin k hk).2.1
  refine (Account.copyModule (F := []) account_stable (account_plain hp hk hs.toNoted)
    (reach_reaching hp hs.source fun _ _ _ _ => trivial)
    (account_handled hp hs.ruled h0 fun _ _ _ _ => trivial)
    (fun g hg => ?_) (fun hcopied => ?_) hholds).mono fun _ w' hmade => ?_
  · rw [hsource] at hg
    refine ⟨?_, fun _ => trivial⟩
    rw [Account.depth, hsource]
    exact within_global hp hg
  · rw [show s.copied = false from hs.copied] at hcopied
    cases hcopied
  obtain ⟨hw', hgrown, hcopied, hglobals⟩ := hmade
  refine ⟨hcopied, ?_⟩
  have hextends : w.1.target.Extends w'.1.target := htarget ▸ hgrown.target
  have hbefore : ∀ g ∈ p.globals, s.before g = [] ∧ s.after g = [] := fun g hg =>
    ⟨before_eq_nil ht hs.toNoted p.inTree_root
      (Program.TreeShaped.mem_children_root hg (Nat.ne_of_gt (hp.globals g hg).1))
      (by simp [Arena.NoStatement, hp.module, Shape.isStatement]), congrFun hs.after g⟩
  obtain ⟨ys, hys, _, hlist⟩ := hglobals trivial (by rw [hsource]; exact hbefore)
  refine ⟨hw'.good.toFit, hw'.good.counted_build trivial, (h.target.trans hextends).names,
    (h.target.trans hextends).diagnostics, fun m hm => ?_, h.distinct, h.apart, h.plain, h.placed,
      fun k hk => ?_, ?_⟩
  · refine (h.made m hm).mono hextends hgrown.origin ?_
    obtain ⟨_, _, hn, _⟩ := (h.made m hm).value
    exact (Arena.range_of_node? hn).1
  · obtain ⟨hin, hdescribes⟩ := hw'.traced k hk
    exact ⟨by rwa [← hsource], hw'.range k hk, recast_of_describes hs hdescribes⟩
  · rw [hys, show s.target.globals = [] from htarget ▸ h.globals, List.nil_append, ← hsource]
    exact (hlist trivial).forall₂ (fun _ h => h) (not_gone hs.toNoted)

/-- An expression that is to be moved, with the kind of its declaration and a hint for the name. -/
structure Request where
  expr : NodeId
  asLet : Bool
  hint : String

/-- Requests that can be met: expressions of the tree that hold no statements, inner ones before
outer ones. -/
structure Sensible (p : Program) (rs : List Request) : Prop where
  expr : ∀ r ∈ rs, p.inTree r.expr = true ∧ r.expr ≠ p.root ∧ ∀ i, p.Below r.expr i →
    p.NoStatement i
  order : rs.Pairwise fun r r' => ¬ p.Below r.expr r'.expr

/-- The work of moving expressions. -/
def moving {α : Type} (request : α → Request) (xs : List α) : Work Rule Hoist Unit := do
  for x in xs do
    add Promote.act (request x).expr (request x).expr (request x).asLet (request x).hint
  Work.edit apply
  Work.edit (Edit.copyModule (Edit.copy Promote.act))

/-- Sensible requests are met, unless there is no place for a declaration. -/
theorem runs_moving (hp : p.Fit) (hk : p.Known) (hc : p.Counted) {α : Type} (request : α → Request)
    (xs : List α) (hxs : Sensible p (xs.map request)) :
    Runs (moving request xs) ((Session.start p {}, fun _ => 0) : World Rule Hoist)
      (fun _ => ∃ x ∈ xs, place p (request x).expr = none) fun _ w =>
        w.1.copied = true ∧ ∃ ms : List Moved,
        ms.map (fun m => (m.expr, m.kind)) =
        xs.map (fun x => ((request x).expr, kindOf (request x).asLet)) ∧
        Hoisted p ms w.1.target w.2 := by
  refine Runs.bind (Runs.forIn (fun rest w => ∃ done ms, xs = done ++ rest ∧
      ms.map (fun m : Moved => (m.expr, m.kind)) =
      done.map (fun x => ((request x).expr, kindOf (request x).asLet)) ∧
      Underway p ms w ∧ ∃ g, (regime counting p).Ready p [] (w.1, g) [])
    ⟨[], [], rfl, rfl, .start p, _, .start hp (fun _ => ⟨by simp, by simp⟩) fun _ => rfl⟩ ?_ ?_)
  · rintro x rest w hx ⟨done, ms, rfl, hms, hw, hready⟩
    obtain ⟨hin, hroot, hplain⟩ := hxs.expr _ (List.mem_map_of_mem hx)
    have hexprs : ms.map Moved.expr = done.map fun x => (request x).expr := by
      have := congrArg (List.map Prod.fst) hms
      rw [List.map_map, List.map_map] at this
      exact this
    have hapart : ∀ m ∈ ms, ¬ p.Below m.expr (request x).expr := by
      intro m hm
      obtain ⟨y, hy, he⟩ := List.mem_map.1 (hexprs ▸ List.mem_map_of_mem (f := Moved.expr) hm)
      have horder := hxs.order
      rw [List.map_append, List.map_cons] at horder
      rw [← he]
      exact (List.pairwise_append.1 horder).2.2 _ (List.mem_map_of_mem hy) _ List.mem_cons_self
    refine Runs.yield (relax (fun _ hnone => ⟨x, hx, hnone⟩)
      ((hw.runs_request hp hk hc hready (hp.lt_root hin hroot) hin hplain hapart _ _).mono ?_))
    rintro _ w' ⟨⟨m, he, hkind, hw'⟩, hready'⟩
    exact ⟨done ++ [x], ms ++ [m], by simp, by simp [hms, he, hkind], hw', hready'⟩
  · rintro w ⟨done, ms, hdone, hms, hw, g, hready⟩
    rw [List.append_nil] at hdone
    subst hdone
    have hready' := Hoist.runs_apply (w := (w.1, g)) hready
    have hstep := (hw.runs_apply hp).and
      (P := fun _ s => ∃ g, (regime counting p).Ready p [] (s, g) [])
      (Runs.of_session (s := w.1) g (hready'.mono fun _ w' hw' => ⟨w'.2, hw'⟩))
    refine Runs.bind
      (Work.runs_edit
        (relax (fun _ => False.elim) (hstep.mono fun _ w₁ ⟨⟨hs, htarget, hnotes⟩, hready₁⟩ => ?_)))
    have hcopy := hw.runs_copyModule hp hk hc hs htarget hready₁
    rw [← hnotes] at hcopy
    exact Work.runs_edit
      (relax (fun _ => False.elim) (hcopy.mono fun _ w₂ hw₂ => ⟨hw₂.1, ms, hms, hw₂.2⟩))

end Hoist
end ShaderLoom
