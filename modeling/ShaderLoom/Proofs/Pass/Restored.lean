import ShaderLoom.Proofs.Document.RoundTrip
import ShaderLoom.Proofs.Kinds
import ShaderLoom.Proofs.Pass.Placement
import ShaderLoom.Proofs.Pass.Precedence

/-! Hoisting undone. Where every reference to a declaration of a moved expression is replaced by
what that declares, the expressions of the program that hoisting makes read as those of the source.
What comes from no node of the source is known: declarations, the tests of loops and statements
around what does. Nothing of the source is lost. -/
namespace ShaderLoom

namespace Document

/-- The record of a node with all that is below it, where names read as the nodes that they are said
to stand for. -/
def unfolded (a : Arena) (value? : Symbol → Option NodeId) : Nat → NodeId → Option Record
  | 0, _ => none
  | n + 1, i =>
    match a.shape? i with
    | some (.expr (.ident s)) =>
      match value? s with
      | some v => unfolded a value? n v
      | none => (a.node? i).map (ofNode a (unfolded a value? n))
    | _ => (a.node? i).map (ofNode a (unfolded a value? n))

variable {a : Arena} {value? : Symbol → Option NodeId} {n : Nat} {i : NodeId}

theorem unfolded_reference {s : Symbol} {v : NodeId} (h : a.shape? i = some (.expr (.ident s)))
    (hv : value? s = some v) : unfolded a value? (n + 1) i = unfolded a value? n v := by
  simp [unfolded, h, hv]

theorem unfolded_node {x : Node} (h : a.node? i = some x)
    (hs : ∀ s, x.shape = .expr (.ident s) → value? s = none) :
    unfolded a value? (n + 1) i = some (ofNode a (unfolded a value? n) x) := by
  have hx := Arena.shape?_of_node? h
  unfold unfolded
  rw [hx, h]
  split
  · next s hshape => rw [hs s (Option.some.inj hshape)]; rfl
  · rfl

@[simp] theorem unfolded_zero : unfolded a value? n 0 = none := by
  cases n <;> rfl

end Document

/-- In a program whose fields hold nodes of the kinds that they are for, nothing in an expression is
a statement. -/
theorem Program.quiet_of_kinded {p : Program} (hkinds : p.kinded = true) (hp : p.Fit)
    (ht : p.TreeShaped) {i : NodeId} (hi : p.inTree i = true) {x : ExprShape Symbol NodeId}
    (hx : p.shape? i = some (.expr x)) : p.Quiet i := by
  suffices ∀ j, p.Below i j → p.isPart j by
    intro j hj
    cases hs : p.shape? j with
    | none => simp [Arena.NoStatement, hs]
    | some s => simp [Arena.NoStatement, hs, (this j hj s hs).1]
  intro j hj
  induction hj with
  | self =>
    intro y hy
    cases hx.symm.trans hy
    exact ⟨rfl, rfl⟩
  | @child j c hij hc ih =>
    obtain ⟨n, hn, hslot, h0⟩ := Arena.mem_children.1 hc
    have hs := Arena.shape?_of_node? hn
    obtain ⟨hstmt, hfunction⟩ := ih _ hs
    have hin := ht.inTree_below hi hij
    refine (Arena.holder_of_fields (fields_of_kinded hkinds hp hin hs) (fun gs hgs => ?_) hslot
      h0).resolve_right fun hstatement => ?_
    · have hroot := hp.eq_root (hgs ▸ hs)
      have hle := hp.le_of_below hij
      have hlt : i < p.root := (hp.lt_root hi fun hr => by
        rw [hr, hp.module] at hx
        cases hx).2
      exact Nat.not_lt.2 (hroot ▸ hle) hlt
    · have hmem := hstatement.2
      unfold Arena.statements at hmem
      split at hmem
      · next y hy => simp [hy, Shape.isStatement] at hstmt
      · next f hf => simp [hf, Shape.function?] at hfunction
      · cases hmem

namespace Hoist

/-- What the names of declarations stand for. -/
def valueOf (ms : List Moved) (s : Symbol) : Option NodeId := (ms.find? (·.name == s)).map (·.value)

namespace Hoisted

variable {p : Program} {ms : List Moved} {b : Builder} {origin : NodeId → NodeId}
    (h : Hoisted p ms b origin)
include h

theorem valueOf_name {m : Moved} (hm : m ∈ ms) : valueOf ms m.name = some m.value := by
  unfold valueOf
  cases hfind : ms.find? (·.name == m.name) with
  | none =>
    have := List.find?_eq_none.1 hfind m hm
    simp at this
  | some m' =>
    have hm' := List.mem_of_find?_eq_some hfind
    have hname : m'.name = m.name := by simpa using List.find?_some hfind
    rw [List.inj_on_of_nodup_map h.distinct hm' hm hname]
    rfl

/-- The names of the source stand for no moved expression. -/
theorem valueOf_same {s s' : Symbol} (hs : SameName p b.toArena s s') : valueOf ms s' = none := by
  unfold valueOf
  rw [Option.map_eq_none_iff, List.find?_eq_none]
  intro m hm hname
  obtain ⟨x, hx, hnew⟩ := (h.made m hm).named
  obtain ⟨_, y, hy, hy'⟩ := hs
  obtain rfl : m.name = s' := by simpa using hname
  rw [hx.name_eq hy'] at hnew
  exact hnew hy.mem

/-- Whatever comes from an expression reads as that, once all references are replaced. -/
theorem unfolded_eq (hp : p.Fit) (hc : p.Counted) {i : Nat} (hi : p.inTree i = true)
    (hq : p.Quiet i) {j : NodeId} {n : Nat} (hij : origin j = i) (hn : 2 * i + 1 < n) :
    Document.unfolded b.build.toArena (valueOf ms) n j = Document.whole p.toArena i := by
  have ht := hp.treeShaped hc
  induction i using Nat.strongRecOn generalizing j n with
  | ind i ih =>
  have h0 : i ≠ 0 := by
    obtain ⟨n, hn⟩ := Option.isSome_iff_exists.1 (hp.node_of_inTree hi)
    exact Nat.ne_of_gt (Arena.range_of_node? hn).1
  have hcopy : ∀ {j : NodeId} {n : Nat}, Echoes p ms b.toArena origin i j → 2 * i < n →
      Document.unfolded b.build.toArena (valueOf ms) n j = Document.whole p.toArena i := by
    intro j n ⟨x, y, hx, hy, hspan, hrel⟩ hn
    obtain ⟨n, rfl⟩ :=
      Nat.exists_eq_succ_of_ne_zero (Nat.ne_of_gt (Nat.lt_of_le_of_lt (Nat.zero_le _) hn))
    have hnames : ∀ s, y.shape = .expr (.ident s) → valueOf ms s = none := by
      intro s hs
      rw [hs] at hrel
      generalize x.shape = t at hrel
      cases hrel with
      | ident hss => exact h.valueOf_same hss
    rw [Document.unfolded_node (Builder.node?_build_of hy) hnames, Document.whole_eq hp.ordered hx]
    refine congrArg some (Document.ofNode_eq (hspan ▸ Span.same_ofValid _)
      (hrel.mono (fun _ _ hs => hs.nameOf) (fun _ _ h => h)
      fun _ _ h => h) fun c hcx d _ hcd => ?_).symm
    rcases hcd with ⟨rfl, rfl⟩ | ⟨hc0, hcd, -⟩
    · simp [Document.whole, Document.record]
    · have hchild := Program.mem_children_of_slot (Arena.shape?_of_node? hx) hcx hc0
      have hlt := hp.lt_of_mem_children hchild
      have hle := Nat.succ_le_of_lt hlt
      exact (ih c hlt (ht.inTree_child hi hchild) (fun k hk => hq k (.of_child hchild hk)) hcd
        (by omega)).symm
  rcases h.echoes_or_reference ht h0 hij (hq i .self) with hcopied | ⟨m, hm, rfl, hj⟩
  · exact hcopy hcopied (by omega)
  · obtain ⟨n, rfl⟩ :=
      Nat.exists_eq_succ_of_ne_zero (Nat.ne_of_gt (Nat.lt_of_le_of_lt (Nat.zero_le _) hn))
    rw [Document.unfolded_reference (Builder.shape?_build_of hj) (h.valueOf_name hm)]
    exact hcopy (h.made m hm).value (by omega)

end Hoisted

section Woven

variable {before : NodeId → List NodeId} {out : NodeId → NodeId → Prop} {xs ys : List NodeId}
    (h : Woven before out xs ys)
include h

theorem Woven.exists_of_mem {x : NodeId} (hx : x ∈ xs) : ∃ y ∈ ys, out x y := by
  induction h with
  | nil => cases hx
  | cons hxy _ ih =>
    rcases List.mem_cons.1 hx with rfl | hx
    · exact ⟨_, by simp, hxy⟩
    · obtain ⟨y, hy, hout⟩ := ih hx
      exact ⟨y, by simp [hy], hout⟩

theorem Woven.mem_of_before {x z : NodeId} (hx : x ∈ xs) (hz : z ∈ before x) : z ∈ ys := by
  induction h with
  | nil => cases hx
  | cons _ _ ih =>
    rcases List.mem_cons.1 hx with rfl | hx
    · simp [hz]
    · simp [ih hx]

theorem Woven.cases_of_mem {y : NodeId} (hy : y ∈ ys) :
    (∃ x ∈ xs, out x y) ∨ ∃ x ∈ xs, y ∈ before x := by
  induction h with
  | nil => cases hy
  | @cons x y' xs ys hxy _ ih =>
    rcases List.mem_append.1 hy with hy | hy
    · exact .inr ⟨x, by simp, hy⟩
    · rcases List.mem_cons.1 hy with rfl | hy
      · exact .inl ⟨x, by simp, hxy⟩
      · exact (ih hy).imp (fun ⟨x', hx', h⟩ => ⟨x', by simp [hx'], h⟩) fun ⟨x', hx', h⟩ =>
          ⟨x', by simp [hx'], h⟩

end Woven

section Added

variable (p : Program) (ms : List Moved) (b : Arena) (origin : NodeId → NodeId)

/-- The condition of a loop. -/
def IsCondition (c : NodeId) : Prop :=
  c ≠ 0 ∧ ∃ i x h, p.inTree i = true ∧ p.shape? i = some (.stmt x) ∧ header? x = some h ∧
    h.condition = c

/-- What comes from no node of the source: declarations of moved expressions, negated conditions of
loops, and statements around what does come from the source. -/
inductive Added : NodeId → Prop
  | decl {m} : m ∈ ms → Added m.decl
  | stmt {m} : m ∈ ms → Added m.stmt
  | negation {k c} : b.shape? k = some (.expr (.unary .not c)) → IsCondition p (origin c) → Added k
  | made {k x} : b.shape? k = some (.stmt x) →
    (∀ c ∈ (Shape.stmt (ν := Symbol) x).slots, c ≠ 0 → origin c = 0 → Added c) → Added k

variable {p ms b origin} {i k : NodeId}

theorem Comes.origin_ne_zero (h : Comes ms b origin i k) (h0 : k ≠ 0) : origin k ≠ 0 := by
  obtain ⟨hi, horigin, -⟩ := h.resolve_left fun hz => h0 hz.2
  exact horigin ▸ hi

theorem added_of_mem_declaredAt {x : Place} {y : NodeId} (h : y ∈ declaredAt p ms x) :
    Added p ms b origin y := by
  obtain ⟨m, hm, -, rfl⟩ := mem_declaredAt.1 h
  exact .stmt hm

theorem Tests.added {c y : NodeId} {ts : List NodeId} (h : Tests b (Comes ms b origin) c ts)
    (hc : c ≠ 0 → IsCondition p c) (hy : y ∈ ts) : Added p ms b origin y := by
  cases h with
  | none => cases hy
  | @test c' negated leave body _ h0 hcomes hnegated hleave hbody htest =>
    obtain rfl := List.mem_singleton.1 hy
    have horigin : IsCondition p (origin c') := (hcomes.resolve_left fun hz => h0 hz.1).2.1 ▸ hc h0
    have hleave' : Added p ms b origin leave := .made hleave (by simp [Shape.slots])
    have hbody' : Added p ms b origin body :=
      .made hbody (by simpa [Shape.slots] using fun _ _ => hleave')
    refine .made htest fun d hd h0 _ => ?_
    simp only [Shape.slots, List.mem_cons, List.not_mem_nil, or_false] at hd
    rcases hd with rfl | rfl | rfl
    · exact .negation hnegated horigin
    · exact hbody'
    · exact absurd rfl h0

theorem Continued.added {x : Place} {c y : NodeId}
    (h : Continued b (Comes ms b origin) (declaredAt p ms x) c y) (h0 : y ≠ 0) :
    Added p ms b origin y := by
  cases h with
  | none => exact absurd rfl h0
  | block _ hlast hy =>
    refine .made hy fun d hd hd0 hz => ?_
    simp only [Shape.slots, List.mem_append, List.mem_singleton] at hd
    rcases hd with hd | rfl
    · exact added_of_mem_declaredAt hd
    · exact absurd hz (hlast.origin_ne_zero hd0)

theorem Looped.added {l : Header} (h : Looped b (Comes ms b origin) (pending p ms i) l k)
    (hcondition : l.condition ≠ 0 → IsCondition p l.condition) {x : StmtShape NodeId}
    (hx : b.shape? k = some (.stmt x)) {c : NodeId} (hc : c ∈ (Shape.stmt (ν := Symbol) x).slots)
    (h0 : c ≠ 0) : Added p ms b origin c := by
  cases h with
  | loop htests hinner hwhole hcont hk =>
    cases hx.symm.trans hk
    simp only [Shape.slots, List.mem_cons, List.not_mem_nil, or_false] at hc
    rcases hc with rfl | rfl
    · refine .made hwhole fun d hd hd0 hz => ?_
      simp only [Shape.slots, List.mem_append, List.mem_singleton] at hd
      rcases hd with (hd | hd) | rfl
      · exact added_of_mem_declaredAt hd
      · exact htests.added hcondition hd
      · exact absurd hz (hinner.origin_ne_zero hd0)
    · exact hcont.added h0

/-- What a node that comes from the source holds comes from the source, or was added. -/
theorem Recast.added (h : Recast p ms b origin i k) (hi : p.inTree i = true)
    {x : Shape Symbol NodeId} (hx : b.shape? k = some x) {c : NodeId} (hc : c ∈ x.slots)
    (h0 : c ≠ 0) : origin c ≠ 0 ∨ Added p ms b origin c := by
  cases h with
  | parts _ _ hn hm _ hrel =>
    cases hx.symm.trans (Arena.shape?_of_node? hm)
    have hlists : ∀ xs ys, Woven (before p ms) (Comes ms b origin) xs ys → ∀ y ∈ ys, ∃ x ∈ xs,
        Comes ms b origin x y ∨ Added p ms b origin y :=
          fun xs ys hw y hy => (hw.cases_of_mem hy).elim
      (fun ⟨x, hx, hout⟩ => ⟨x, hx, .inl hout⟩) fun ⟨x, hx, hbefore⟩ =>
        ⟨x, hx, .inr (added_of_mem_declaredAt hbefore)⟩
    obtain ⟨d, -, hd⟩ :=
      (hrel.mono (fun _ _ h => h)
        (fun d c (h : Comes ms b origin d c) => (.inl h : _ ∨ Added p ms b origin c))
      fun _ _ h => h).mem_slots hlists c hc
    exact hd.imp_left fun hd => hd.origin_ne_zero h0
  | reference _ hj =>
    cases hx.symm.trans hj
    cases hc
  | @loop _ _ l _ _ hshape hheader hlow =>
    have hcondition : l.condition ≠ 0 → IsCondition p l.condition :=
      fun h0 => ⟨h0, i, _, l, hi, hshape, hheader, rfl⟩
    cases hlow with
    | bare _ hl =>
      obtain ⟨y, hy⟩ : ∃ y, x = .stmt y := by
        cases hl with
        | loop _ _ _ _ hk => exact ⟨_, Option.some.inj (hx.symm.trans hk)⟩
      subst hy
      exact .inr (hl.added hcondition hx hc h0)
    | after _ hfirst hl hk =>
      cases hx.symm.trans hk
      simp only [Shape.slots, List.mem_cons, List.not_mem_nil, or_false] at hc
      rcases hc with rfl | rfl
      · exact .inl (hfirst.origin_ne_zero h0)
      · refine .inr ?_
        have hl' := hl
        cases hl' with
        | loop _ _ _ _ hj => exact .made hj fun d hd hd0 _ => hl.added hcondition hj hd hd0
  | otherwise _ _ hlow =>
    cases hlow with
    | block hc' hd' he' hinner hk =>
      cases hx.symm.trans hk
      simp only [Shape.slots, List.mem_append, List.mem_singleton] at hc
      rcases hc with hc | rfl
      · exact .inr (added_of_mem_declaredAt hc)
      · refine .inr (.made hinner fun d hd hd0 hz => ?_)
        simp only [Shape.slots, List.mem_cons, List.not_mem_nil, or_false] at hd
        rcases hd with rfl | rfl | rfl
        · exact absurd hz (hc'.origin_ne_zero hd0)
        · exact absurd hz (hd'.origin_ne_zero hd0)
        · exact absurd hz (he'.origin_ne_zero hd0)

/-- Every node of the program that is made comes from the source, or was added. -/
theorem Hoisted.accounted {b : Builder} (h : Hoisted p ms b origin) (hk : b.build.inTree k = true)
    (hr : k ≠ b.build.root) : origin k ≠ 0 ∨ Added p ms b.toArena origin k := by
  have hfit := h.fit.build
  refine (hfit.tree_induct (P := fun k => k = b.build.root ∨ origin k ≠ 0 ∨
    Added p ms b.toArena origin k) (.inl rfl)
    (fun i n c hi hP hn hc h0 => .inr ?_) hk).resolve_left hr
  have hs := Arena.shape?_of_node? hn
  obtain ⟨x, hx⟩ : ∃ x, n.shape = x := ⟨_, rfl⟩
  rw [hx] at hs hc
  rcases hP with rfl | horigin | hadded
  · cases hs.symm.trans hfit.module
    obtain ⟨g, -, hg⟩ := Document.exists_of_forall₂ h.globals c (Builder.globals_build b ▸ hc)
    exact .inl (Comes.origin_ne_zero hg h0)
  · obtain ⟨hin, ⟨hpos, hle⟩, hrecast⟩ := h.traced i horigin
    refine hrecast.added hin (x := x) ?_ hc h0
    rw [Builder.node?_build, if_neg (Nat.ne_of_lt (Nat.lt_succ_of_le hle))] at hn
    exact hx ▸ Arena.shape?_of_node? hn
  · cases hadded with
    | @decl m hm =>
      cases hs.symm.trans (Builder.shape?_build_of (h.made m hm).decl)
      obtain rfl : c = m.value := by simpa [Shape.slots, h0] using hc
      exact .inl ((h.made m hm).comes ▸ h.expr_ne_zero hm)
    | @stmt m hm =>
      cases hs.symm.trans (Builder.shape?_build_of (h.made m hm).stmt)
      obtain rfl : c = m.decl := by simpa [Shape.slots] using hc
      exact .inr (.decl hm)
    | @negation _ d hi hd =>
      cases hs.symm.trans (Builder.shape?_build_of hi)
      obtain rfl : c = d := by simpa [Shape.slots] using hc
      exact .inl hd.1
    | made hi hparts =>
      cases hs.symm.trans (Builder.shape?_build_of hi)
      exact or_iff_not_imp_left.2 fun hz => hparts c hc h0 (not_not.1 hz)

end Added

section Present

variable {b : Builder} {out : NodeId → NodeId → Prop} (hout : ∀ c c', out c c' → c ≠ 0 → c' ≠ 0)

theorem below_of_shape {k c : NodeId} {x : Shape Symbol NodeId} (hk : b.shape? k = some x)
    (hc : c ∈ x.slots) (h0 : c ≠ 0) : b.build.Below k c :=
  .child .self (Program.mem_children_of_slot (Builder.shape?_build_of hk) hc h0)

theorem Tests.below {c : NodeId} {ts : List NodeId} (h : Tests b.toArena out c ts) (h0 : c ≠ 0) :
    ∃ t ∈ ts, t ≠ 0 ∧ ∃ c', out c c' ∧ (c' ≠ 0 → b.build.Below t c') := by
  cases h with
  | none hz => exact absurd hz h0
  | test _ hc hnegated _ _ htest =>
    refine ⟨_, List.mem_singleton_self _, Arena.ne_zero_of_shape htest, _, hc, fun h0 => ?_⟩
    exact (below_of_shape htest (by simp [Shape.slots]) (Arena.ne_zero_of_shape hnegated)).trans
      (below_of_shape hnegated (by simp [Shape.slots]) h0)

include hout

theorem Looped.below {l : PendingLoop} {h : Header} {j : NodeId} (hl : Looped b.toArena out l h j) :
    (∀ y ∈ l.condition, y ≠ 0 → b.build.Below j y) ∧
    (h.continuing ≠ 0 → ∀ y ∈ l.continuing, y ≠ 0 → b.build.Below j y) ∧
      ∀ c ∈ [h.condition, h.continuing, h.body], c ≠ 0 → ∃ c', out c c' ∧ b.build.Below j c' := by
  cases hl with
  | loop htests hinner hwhole hcont hj =>
    have hbody := below_of_shape hj (List.mem_cons_self ..) (Arena.ne_zero_of_shape hwhole)
    have helement : ∀ y ∈ l.condition ++ _ ++ [_], y ≠ 0 → b.build.Below j y := fun y hy h0 =>
      hbody.trans (below_of_shape hwhole (by simpa [Shape.slots] using hy) h0)
    refine ⟨fun y hy => helement y (by simp [hy]), fun h0 y hy hy0 => ?_, fun c hc h0 => ?_⟩
    · cases hcont with
      | none hz => exact absurd hz h0
      | block _ _ hk =>
        exact (below_of_shape hj (by simp [Shape.slots]) (Arena.ne_zero_of_shape hk)).trans
          (below_of_shape hk (by simp [Shape.slots, hy]) hy0)
    · simp only [List.mem_cons, List.not_mem_nil, or_false] at hc
      rcases hc with rfl | rfl | rfl
      · obtain ⟨t, ht, ht0, c', hc', hbelow⟩ := htests.below h0
        exact ⟨c', hc', (helement t (by simp [ht]) ht0).trans (hbelow (hout _ _ hc' h0))⟩
      · cases hcont with
        | none hz => exact absurd hz h0
        | block _ hlast hk =>
          refine ⟨_, hlast,
            (below_of_shape hj (by simp [Shape.slots]) (Arena.ne_zero_of_shape hk)).trans
            (below_of_shape hk (by simp [Shape.slots]) (hout _ _ hlast h0))⟩
      · exact ⟨_, hinner, helement _ (by simp) (hout _ _ hinner h0)⟩

theorem LoweredLoop.below {l : PendingLoop} {h : Header} {j : NodeId}
    (hl : LoweredLoop b.toArena out l h j) :
    (∀ y ∈ l.condition, y ≠ 0 → b.build.Below j y) ∧
    (h.continuing ≠ 0 → ∀ y ∈ l.continuing, y ≠ 0 → b.build.Below j y) ∧
      ∀ c ∈ [h.init, h.condition, h.continuing, h.body],
        c ≠ 0 → ∃ c', out c c' ∧ b.build.Below j c' := by
  cases hl with
  | bare hz hl =>
    obtain ⟨hcondition, hcontinuing, hparts⟩ := hl.below hout
    refine ⟨hcondition, hcontinuing, fun c hc h0 => ?_⟩
    rcases List.mem_cons.1 hc with rfl | hc
    · exact absurd hz h0
    · exact hparts c hc h0
  | @after first loop _ _ hfirst hl hj =>
    obtain ⟨hcondition, hcontinuing, hparts⟩ := hl.below hout
    have hloop : b.build.Below j loop := by
      cases hl with
      | loop _ _ _ _ hk =>
        exact below_of_shape hj (by simp [Shape.slots]) (Arena.ne_zero_of_shape hk)
    refine ⟨fun y hy h0 => hloop.trans (hcondition y hy h0), fun h0 y hy hy0 =>
      hloop.trans (hcontinuing h0 y hy hy0), fun c hc h0 => ?_⟩
    rcases List.mem_cons.1 hc with rfl | hc
    · exact ⟨_, hfirst, below_of_shape hj (by simp [Shape.slots]) (hout _ _ hfirst h0)⟩
    · obtain ⟨c', hc', hbelow⟩ := hparts c hc h0
      exact ⟨c', hc', hloop.trans hbelow⟩

theorem LoweredElse.below {ws : List NodeId} {c d e j : NodeId}
    (hl : LoweredElse b.toArena out ws c d e j) :
    (∀ y ∈ ws, y ≠ 0 → b.build.Below j y) ∧ ∀ i ∈ [c, d, e],
      i ≠ 0 → ∃ i', out i i' ∧ b.build.Below j i' := by
  cases hl with
  | block hc hd he hinner hj =>
    refine ⟨fun y hy h0 => below_of_shape hj (by simp [Shape.slots, hy]) h0, fun i hi h0 => ?_⟩
    have hin := below_of_shape hj (List.mem_append_right _ (List.mem_singleton_self _))
      (Arena.ne_zero_of_shape hinner)
    simp only [List.mem_cons, List.not_mem_nil, or_false] at hi
    rcases hi with rfl | rfl | rfl
    · exact ⟨_, hc, hin.trans (below_of_shape hinner (by simp [Shape.slots]) (hout _ _ hc h0))⟩
    · exact ⟨_, hd, hin.trans (below_of_shape hinner (by simp [Shape.slots]) (hout _ _ hd h0))⟩
    · exact ⟨_, he, hin.trans (below_of_shape hinner (by simp [Shape.slots]) (hout _ _ he h0))⟩

omit hout in
theorem Comes.ne_zero {p : Program} {ms : List Moved} {origin : NodeId → NodeId}
    (h : Hoisted p ms b origin) (c c' : NodeId) (hc : Comes ms b.toArena origin c c') (h0 : c ≠ 0) :
    c' ≠ 0 :=
  h.ne_zero_of_origin (hc.resolve_left fun hz => h0 hz.1).2.1 h0

end Present

namespace Hoisted

variable {p : Program} {ms : List Moved} {b : Builder} {origin : NodeId → NodeId}
    (h : Hoisted p ms b origin)
include h

/-- What a node holds is found below what it has become. -/
theorem below_child {i j c : NodeId} (h0 : i ≠ 0) (hij : origin j = i)
    (hself : (∀ m ∈ ms, m.expr ≠ i) ∨ ∃ m ∈ ms, m.expr = i ∧ m.value = j) {x : Shape Symbol NodeId}
    (hx : p.shape? i = some x) (hc : c ∈ x.slots) (hc0 : c ≠ 0) :
    ∃ c', Comes ms b.toArena origin c c' ∧ b.build.Below j c' := by
  have hout := Comes.ne_zero h
  have hslot : ∀ {L : List NodeId → List NodeId → Prop} {n m : Node}, p.node? i = some n →
      b.node? j = some m →
      Shape.Rel (SameName p b.toArena) (Comes ms b.toArena origin) L n.shape m.shape →
      (∀ xs ys, L xs ys → ∀ x ∈ xs, ∃ y ∈ ys, Comes ms b.toArena origin x y) →
      ∃ c', Comes ms b.toArena origin c c' ∧ b.build.Below j c' := by
    intro L n m hn hm hrel hL
    cases hx.symm.trans (Arena.shape?_of_node? hn)
    obtain ⟨c', hc', hcc⟩ := hrel.flip.mem_slots (fun xs ys => hL ys xs) c hc
    exact ⟨c', hcc, below_of_shape (Arena.shape?_of_node? hm) hc' (hout _ _ hcc hc0)⟩
  rcases hself with hnot | ⟨m, hm, rfl, rfl⟩
  · have hrecast := (h.traced j (hij ▸ h0)).2.2
    rw [hij] at hrecast
    cases hrecast with
    | parts _ _ hn hm _ hrel => exact hslot hn hm hrel fun xs ys hw x hx => hw.exists_of_mem hx
    | reference hm _ => exact absurd rfl (hnot _ hm)
    | @loop _ y hd _ _ hy hheader hl =>
      cases hx.symm.trans hy
      refine (hl.below hout).2.2 c ?_ hc0
      cases y <;> cases hheader <;> simp_all [Shape.slots]
    | otherwise _ hy hl =>
      cases hx.symm.trans hy
      exact (hl.below hout).2 c hc hc0
  · obtain ⟨n, n', hn, hn', -, hrel⟩ := (h.made m hm).value
    exact hslot hn hn' hrel fun xs ys hw x hx => Document.exists_of_forall₂ hw.flip x hx

/-- What was put before an element of a block stands in what the block has become. -/
theorem below_before {k j i y : NodeId} {ss : List NodeId}
    (hk : p.shape? k = some (.stmt (.block ss))) (hi : i ∈ ss) (hjk : origin j = k)
    (hnot : ∀ m ∈ ms, m.expr ≠ k) (hy : y ∈ before p ms i) (h0 : y ≠ 0) : b.build.Below j y := by
  have hrecast := (h.traced j (hjk ▸ Arena.ne_zero_of_shape hk)).2.2
  rw [hjk] at hrecast
  cases hrecast with
  | @parts _ _ n n' _ _ hn hn' _ hrel =>
    have hn := Arena.shape?_of_node? hn
    have hn' := Arena.shape?_of_node? hn'
    generalize n.shape = x at hn hrel
    generalize n'.shape = x' at hn' hrel
    cases hk.symm.trans hn
    cases hrel with
    | block hw => exact below_of_shape hn' (hw.mem_of_before hi hy) h0
  | reference hm _ => exact absurd rfl (hnot _ hm)
  | loop _ hs hheader _ =>
    cases hk.symm.trans hs
    cases hheader
  | otherwise _ hs _ => cases hk.symm.trans hs

/-- What was put into a loop stands in what the loop has become. -/
theorem below_loop {k j y : NodeId} (hloop : LoopWith p ms k) (hjk : origin j = k) (h0 : k ≠ 0)
    (hnot : ∀ m ∈ ms, m.expr ≠ k) (hy0 : y ≠ 0) :
    (y ∈ declaredAt p ms (.condition k) → b.build.Below j y) ∧
      ∀ {init c t d}, p.shape? k = some (.stmt (.forLoop init c t d)) → t ≠ 0 →
        y ∈ declaredAt p ms (.continuing k) →
        b.build.Below j y := by
  have hrecast := (h.traced j (hjk ▸ h0)).2.2
  rw [hjk] at hrecast
  cases hrecast with
  | parts hno => exact absurd hloop hno
  | reference hm _ => exact absurd rfl (hnot _ hm)
  | loop _ hs hheader hl =>
    obtain ⟨hcondition, hcontinuing, -⟩ := hl.below (Comes.ne_zero h)
    refine ⟨fun hy => hcondition y hy hy0, fun hk ht hy => ?_⟩
    cases hs.symm.trans hk
    cases hheader
    exact hcontinuing ht y hy hy0
  | otherwise _ hs _ =>
    have hheader := hloop.isLoopHeader
    rw [isLoopHeader_eq_false hs rfl] at hheader
    cases hheader

/-- What was put before the condition of an `else if` stands in what that has become. -/
theorem below_otherwise {k j y : NodeId} (helse : ElseWith p ms k) (hjk : origin j = k) (h0 : k ≠ 0)
    (hnot : ∀ m ∈ ms, m.expr ≠ k) (hy : y ∈ declaredAt p ms (.otherwise k)) (hy0 : y ≠ 0) :
    b.build.Below j y := by
  have hrecast := (h.traced j (hjk ▸ h0)).2.2
  rw [hjk] at hrecast
  cases hrecast with
  | parts _ hno => exact absurd helse hno
  | reference hm _ => exact absurd rfl (hnot _ hm)
  | loop _ hs hheader _ =>
    obtain ⟨c, d, e, hk⟩ := helse.isIf
    cases hs.symm.trans hk
    cases hheader
  | otherwise _ _ hl => exact (hl.below (Comes.ne_zero h)).1 y hy hy0

variable (hp : p.Fit) (hc : p.Counted) (hroot : p.Rooted p.scene.module) (hw : p.Walked)
    (htidy : p.Tidy)
  (hms : FromBodies p ms)
include hp hc hroot hw htidy hms

/-- The declaration of an expression is found below what a statement around the expression has
become. -/
theorem below_stmt {m : Moved} (hm : m ∈ ms) :
    ∃ k x, m.expr < k ∧ p.inTree k = true ∧ p.shape? k = some (.stmt x) ∧
    ∀ j, origin j = k → b.build.Below j m.stmt := by
  have ht := hp.treeShaped hc
  obtain ⟨x, hx⟩ := h.placed m hm
  have hs0 : p.statementOf m.expr ≠ 0 := fun hz => by
    cases (place_eq_none hz).symm.trans hx
  obtain ⟨hin, r, hr, hcomp⟩ := hroot.reading hw (hms m hm).2 (h.expr_ne_zero hm) hs0
  have hbelow :=
    (hr.below (hcomp.ne_zero (h.expr_ne_zero hm))).trans (hcomp.below (h.expr_ne_zero hm))
  obtain ⟨s, hs⟩ := Program.shape?_statementOf hs0
  have hlt : m.expr < p.statementOf m.expr := by
    refine Nat.lt_of_le_of_ne (hp.le_of_below hbelow) fun heq => ?_
    obtain ⟨y, hy⟩ := (hms m hm).1
    rw [heq, hs] at hy
    cases hy
  have hnot : ∀ {k y}, p.shape? k = some (.stmt y) → ∀ m ∈ ms, m.expr ≠ k := by
    intro k y hk m hm he
    obtain ⟨z, hz⟩ := (hms m hm).1
    cases hk.symm.trans (he ▸ hz)
  have hfrom := from_of_place ht htidy hx
  have hstmt0 : m.stmt ≠ 0 := Arena.ne_zero_of_shape (h.made m hm).stmt
  have hmem := mem_declaredAt.2 ⟨m, hm, hx, rfl⟩
  cases x with
  | before i =>
    -- the declaration stands in the block that holds the statement
    obtain ⟨-, ss, hparent⟩ := suits_of_place hx
    obtain ⟨hchild, hpin⟩ := ht.parent_holds (Arena.ne_zero_of_shape hparent)
    have hle : p.statementOf m.expr ≤ i := by
      rcases hfrom with ⟨rfl, -⟩ | ⟨c, t, d, hi⟩
      · exact Nat.le_refl _
      · exact Nat.le_of_lt
          (hp.lt_of_mem_children (Program.mem_children_of_slot hi (by simp [Shape.slots]) hs0))
    have hi : i ∈ ss := by
      obtain ⟨n, hn, hslot, -⟩ := Arena.mem_children.1 hchild
      rw [Option.some.inj ((Arena.shape?_of_node? hn).symm.trans hparent)] at hslot
      exact hslot
    exact ⟨_, _, Nat.lt_of_lt_of_le hlt
      (Nat.le_trans hle (Nat.le_of_lt (hp.lt_of_mem_children hchild))), hpin, hparent,
      fun j hj => h.below_before hparent hi hj (hnot hparent) hmem hstmt0⟩
  | condition i =>
    obtain ⟨rfl, -⟩ := hfrom
    exact ⟨_, _, hlt, hin, hs,
      fun j hj => (h.below_loop ⟨m, hm, .inl hx⟩ hj hs0 (hnot hs) hstmt0).1 hmem⟩
  | continuing i =>
    obtain ⟨init, c, d, hi⟩ := hfrom
    obtain ⟨_, _, _, _, hi', -, hparent⟩ := suits_of_place hx
    cases hi.symm.trans hi'
    have hi0 := Arena.ne_zero_of_shape hi
    obtain ⟨hchild, hpin⟩ := ht.parent_holds (hparent ▸ hi0)
    rw [hparent] at hchild hpin
    exact ⟨i, _, Nat.lt_trans hlt (hp.lt_of_mem_children hchild), hpin, hi, fun j hj =>
      (h.below_loop ⟨m, hm, .inr hx⟩ hj hi0 (hnot hi) hstmt0).2 hi hs0 hmem⟩
  | otherwise i =>
    obtain ⟨rfl, -⟩ := hfrom
    exact ⟨_, _, hlt, hin, hs,
      fun j hj => h.below_otherwise ⟨m, hm, hx⟩ hj hs0 (hnot hs) hmem hstmt0⟩

/-- All of the source is in the program that is made: something comes from every node at its place,
and there is a copy of every node. -/
theorem present {i : NodeId} (hi : p.inTree i = true) (hr : i ≠ p.root) :
    (∃ j, b.build.inTree j = true ∧ Comes ms b.toArena origin i j) ∧
      ∃ j, b.build.inTree j = true ∧ origin j = i ∧
        ((∀ m ∈ ms, m.expr ≠ i) ∨ ∃ m ∈ ms, m.expr = i ∧ m.value = j) := by
  have ht := hp.treeShaped hc
  have ht' := h.fit.build.treeShaped h.counted
  -- what holds a node comes after it
  induction hn : p.root - i using Nat.strongRecOn generalizing i with
  | ind n ih =>
  subst hn
  have hi0 : i ≠ 0 := fun hz => by
    have := hp.node_of_inTree hi
    simp [hz] at this
  have hle := (hp.lt_root hi hr).2
  have hcopy : ∀ k, i < k → p.inTree k = true → k ≠ p.root →
      ∃ j, b.build.inTree j = true ∧ origin j = k ∧
      ((∀ m ∈ ms, m.expr ≠ k) ∨ ∃ m ∈ ms, m.expr = k ∧ m.value = j) := fun k hik hk hkr =>
    (ih (p.root - k) (Nat.sub_lt_sub_left hle hik) hk hkr rfl).2
  have hplace : ∃ j, b.build.inTree j = true ∧ Comes ms b.toArena origin i j := by
    obtain ⟨hchild, hk⟩ := ht.parent_holds ((Program.inTree_iff.1 hi).resolve_left hr)
    by_cases hkr : p.parent i = p.root
    · have hg : i ∈ p.globals := by
        obtain ⟨n, hn, hslot, -⟩ := Arena.mem_children.1 hchild
        rw [hkr] at hn
        rw [Option.some.inj ((Arena.shape?_of_node? hn).symm.trans hp.module)] at hslot
        exact hslot
      obtain ⟨j, hj, hcomes⟩ := Document.exists_of_forall₂ h.globals.flip i hg
      refine ⟨j, ht'.inTree_child b.build.inTree_root
        (Program.mem_children_of_slot h.fit.build.module ?_ (Comes.ne_zero h _ _ hcomes hi0)),
        hcomes⟩
      rw [Builder.globals_build]
      exact hj
    · obtain ⟨j, hj, horigin, hself⟩ := hcopy _ (hp.lt_of_mem_children hchild) hk hkr
      obtain ⟨n, hn, hslot, -⟩ := Arena.mem_children.1 hchild
      obtain ⟨c, hcomes, hbelow⟩ :=
        h.below_child (Arena.ne_zero_of_shape (Arena.shape?_of_node? hn)) horigin hself
        (Arena.shape?_of_node? hn) hslot hi0
      exact ⟨c, ht'.inTree_below hj hbelow, hcomes⟩
  refine ⟨hplace, ?_⟩
  by_cases hmoved : ∃ m ∈ ms, m.expr = i
  · -- the copy of an expression that was moved is in its declaration
    obtain ⟨m, hm, rfl⟩ := hmoved
    obtain ⟨k, x, hlt, hk, hx, hbelow⟩ := h.below_stmt hp hc hroot hw htidy hms hm
    obtain ⟨j, hj, horigin, -⟩ := hcopy k hlt hk fun hkr => by cases hp.module.symm.trans (hkr ▸ hx)
    have hmade := h.made m hm
    refine ⟨m.value,
      ht'.inTree_below hj ((hbelow j horigin).trans ((below_of_shape hmade.stmt ?_ ?_).trans
      (below_of_shape hmade.decl ?_ ?_))), hmade.comes, .inr ⟨m, hm, rfl, rfl⟩⟩
    · simp [Shape.slots]
    · exact Arena.ne_zero_of_shape hmade.decl
    · simp [Shape.slots]
    · exact h.ne_zero_of_origin hmade.comes hi0
  · obtain ⟨j, hj, hcomes⟩ := hplace
    exact ⟨j, hj, (hcomes.resolve_left fun hz => hi0 hz.1).2.1, .inl fun m hm he =>
      hmoved ⟨m, hm, he⟩⟩

/-- So are the declarations. -/
theorem inTree_decl {m : Moved} (hm : m ∈ ms) : b.build.inTree m.decl = true := by
  obtain ⟨k, x, -, hk, hx, hbelow⟩ := h.below_stmt hp hc hroot hw htidy hms hm
  obtain ⟨-, j, hj, horigin, -⟩ := h.present hp hc hroot hw htidy hms hk fun hkr => by
    cases hp.module.symm.trans (hkr ▸ hx)
  have hmade := h.made m hm
  refine (h.fit.build.treeShaped h.counted).inTree_below hj
    ((hbelow j horigin).trans (below_of_shape hmade.stmt ?_ ?_))
  · simp [Shape.slots]
  · exact Arena.ne_zero_of_shape hmade.decl

end Hoisted

end Hoist
end ShaderLoom
