import ShaderLoom.Proofs.Meaning.Respelling
import ShaderLoom.Proofs.Meaning.Sites
import ShaderLoom.Proofs.Pass.Hoisted

/-! What hoisting keeps of a program. Declarations, types and expressions of the source stand in the
program that is made, each at the place of the node that it comes from; an expression that was moved
stands in its declaration, and a reference stands where it stood. -/
namespace ShaderLoom

theorem Arena.shape?_of_node? {a : Arena} {i : NodeId} {n : Node} (h : a.node? i = some n) :
    a.shape? i = some n.shape := by
  simp [shape?, h]

/-- A child whose value is read is at no place for a type, a parameter or a member. -/
theorem Shape.not_mem_fixed {ν : Type} {x : Shape ν NodeId} {i : NodeId}
    (hx : (x.slots.filter (· != 0)).Nodup) (h0 : i ≠ 0) (hi : i ∈ x.valued ∨ x.isStatement = true) :
    i ∉ x.fixed := by
  rcases x with t | e | s | d | ⟨s, t, as⟩ | a | gs
  · simp [valued, isStatement] at hi
  · simp [fixed]
  · simp [fixed]
  · cases d with
    | value v =>
      obtain ⟨k, s, t, j, as⟩ := v
      simp only [valued, isStatement, List.mem_singleton, Bool.false_eq_true, or_false] at hi
      subst hi
      simp only [fixed, List.mem_singleton]
      rintro rfl
      simp [slots, h0, List.nodup_append] at hx
    | _ => simp [valued, isStatement] at hi
  · simp [valued, isStatement] at hi
  · simp [fixed]
  · simp [fixed]

namespace Program

variable {p : Program}

theorem TreeShaped.nodup_slots (ht : p.TreeShaped) {i : NodeId} (hi : p.inTree i = true)
    {x : Shape Symbol NodeId} (hx : p.shape? i = some x) : (x.slots.filter (· != 0)).Nodup := by
  obtain ⟨n, hn, rfl⟩ := Option.map_eq_some_iff.1 hx
  simpa [Arena.children, hn, Node.children] using ht.once hi

/-- What holds an expression that is read is an expression, a variable or a statement. -/
theorem Sited.holder (hc : p.Counted) {i k : NodeId} (h : p.Sited i) (hk : i ∈ p.children k) :
    ∃ x, p.shape? k = some x ∧ (i ∈ x.valued ∨ x.isStatement = true) := by
  have h0 := Arena.ne_zero_of_mem_children hk
  have hvalue : ∀ {d v}, p.asVariable? d = some v → v.initializer = i →
      ∃ x, p.shape? k = some x ∧ (i ∈ x.valued ∨ x.isStatement = true) := by
    rintro d v hv rfl
    have hs := Arena.shape?_of_asVariable? hv
    rw [hc.holder hk (mem_children_of_slot hs (by simp [Shape.slots]) h0)]
    exact ⟨_, hs, .inl (by simp [Shape.valued])⟩
  have hcomprised : ∀ {r}, p.Comprises r i → r = i ∨ ∃ x, p.shape? k = some x ∧
      (i ∈ x.valued ∨ x.isStatement = true) := by
    intro r hr
    rcases Relation.ReflTransGen.cases_tail hr with heq | ⟨e, _, x, hx, hi⟩
    · exact .inl heq.symm
    · rw [hc.holder hk (mem_children_of_slot hx (x.operands_slots.subset hi) h0)]
      exact .inr ⟨_, hx, .inl hi⟩
  rcases h with ⟨g, _, v, hv, hr⟩ | ⟨_, r, hr, hcr⟩
  · exact (hcomprised hr).elim (hvalue hv) id
  · refine (hcomprised hcr).elim ?_ id
    rintro rfl
    cases hr with
    | parameter _ _ _ hv => exact hvalue hv rfl
    | statement _ _ _ hread =>
      have hstmt : ∀ {s x}, p.shape? s = some (.stmt x) → r ∈ (Shape.stmt (ν := Symbol) x).slots →
          ∃ x, p.shape? k = some x ∧ (r ∈ x.valued ∨ x.isStatement = true) := fun hs hr => by
        rw [hc.holder hk (mem_children_of_slot hs hr h0)]
        exact ⟨_, hs, .inr rfl⟩
      cases hread with
      | simple hs hes he => exact hstmt hs ((StmtShape.reads_slots hes).subset he)
      | initializer _ hv => exact hvalue hv rfl
      | ifElse hs | forLoop hs | whileLoop hs => exact hstmt hs (by simp [Shape.slots])

end Program

/-- In lists related one by one, each element of the first once, one element of the second stands
for one of the first. -/
theorem forall₂_once {α β : Type} {R : α → β → Prop} {xs : List α} {ys : List β}
    (h : List.Forall₂ R xs ys) (hxs : xs.Nodup) (hR : Relator.LeftUnique R) {x : α} {y y' : β}
    (hy : y ∈ ys) (hy' : y' ∈ ys) (hxy : R x y) (hxy' : R x y') : y = y' := by
  have hmem : ∀ {xs ys} {y : β}, List.Forall₂ R xs ys → y ∈ ys → R x y → x ∈ xs := by
    intro xs ys y h
    induction h with
    | nil => exact nofun
    | cons h _ ih =>
      intro hy hxy
      rcases List.mem_cons.1 hy with rfl | hy
      · exact List.mem_cons.2 (.inl (hR hxy h))
      · exact List.mem_cons_of_mem _ (ih hy hxy)
  induction h with
  | nil => cases hy
  | cons h hrest ih =>
    obtain ⟨hnot, hxs⟩ := List.nodup_cons.1 hxs
    rcases List.mem_cons.1 hy with rfl | hrest₁
    · rcases List.mem_cons.1 hy' with rfl | hrest₂
      · rfl
      · exact absurd (hR hxy h ▸ hmem hrest hrest₂ hxy') hnot
    · rcases List.mem_cons.1 hy' with rfl | hrest₂
      · exact absurd (hR hxy' h ▸ hmem hrest hrest₁ hxy) hnot
      · exact ih hxs hrest₁ hrest₂

namespace Hoist

theorem SameName.nameOf {p : Program} {b : Arena} {x y : Symbol} (h : SameName p b x y) :
    p.nameOf x = b.nameOf y := by
  obtain ⟨_, t, hx, hy⟩ := h
  exact hx.nameFor.trans hy.nameFor.symm

/-- What was moved are expressions that are read in functions. -/
def FromBodies (p : Program) (ms : List Moved) : Prop :=
  ∀ m ∈ ms, (∃ x, p.shape? m.expr = some (.expr x)) ∧ ∃ r, p.Held r ∧ p.Comprises r m.expr

section Kept

variable (p : Program) (ms : List Moved) (q : Program) (origin : NodeId → NodeId)

/-- A node at a place like that of the node that it comes from. -/
structure Kept (i j : NodeId) : Prop where
  present : i ≠ 0
  root : i ≠ p.root
  origin : origin j = i
  global : i ∈ p.globals → j ∈ q.globals
  holder : ∀ d, (p.asVariable? d).isSome → i ∈ p.children d → ∃ d', (q.asVariable? d').isSome ∧
    j ∈ q.children d'
  value : p.OfValue i → q.InValue j

/-- What stands at the place of a node. -/
def Situated (i j : NodeId) : Prop :=
  (i = 0 ∧ j = 0) ∨
    (Kept p q origin i j ∧ ∀ m ∈ ms, m.expr = i → q.shape? j = some (.expr (.ident m.name)))

/-- What a node has become, itself. -/
def Stands (i j : NodeId) : Prop :=
  (i = 0 ∧ j = 0) ∨
    (Kept p q origin i j ∧ ((∀ m ∈ ms, m.expr ≠ i) ∨ ∃ m ∈ ms, m.expr = i ∧ m.value = j))

/-- A reference at the place of an expression that was moved. -/
def Referred (i j : NodeId) : Prop :=
  ∃ m ∈ ms, m.expr = i ∧ q.shape? j = some (.expr (.ident m.name))

variable {p ms q origin}

theorem Situated.cases {i j : NodeId} (h : Situated p ms q origin i j) :
    Stands p ms q origin i j ∨ Referred ms q i j := by
  rcases h with h0 | ⟨hk, href⟩
  · exact .inl (.inl h0)
  · by_cases hm : ∃ m ∈ ms, m.expr = i
    · obtain ⟨m, hm, he⟩ := hm
      exact .inr ⟨m, hm, he, href m hm he⟩
    · exact .inl (.inr ⟨hk, .inl fun m hm' he => hm ⟨m, hm', he⟩⟩)

end Kept

section Woven

variable {p : Program} {ms : List Moved}

/-- Only elements of blocks have something put before them. -/
theorem before_eq_nil_of_slot (ht : p.TreeShaped) {i c : NodeId} (hi : p.inTree i = true)
    {x : Shape Symbol NodeId} (hx : p.shape? i = some x) (hs : x.isStatement = false)
    (hc : c ∈ x.slots) : before p ms c = [] := by
  refine List.eq_nil_iff_forall_not_mem.2 fun y hy => ?_
  obtain ⟨m, _, hplace, _⟩ := mem_declaredAt.1 hy
  obtain ⟨hsome, ss, hparent⟩ := suits_of_place hplace
  have hc0 : c ≠ 0 := by
    rintro rfl
    cases hsome
  rw [ht.parent hi (Program.mem_children_of_slot hx hc hc0)] at hparent
  cases hx.symm.trans hparent
  cases hs

theorem forall₂_of_woven {out : NodeId → NodeId → Prop} {xs ys : List NodeId}
    (hw : Woven (before p ms) out xs ys) (hb : ∀ x ∈ xs, before p ms x = []) :
    List.Forall₂ out xs ys := by
  induction hw with
  | nil => exact .nil
  | cons ho _ ih =>
    obtain ⟨hx, hxs⟩ := List.forall_mem_cons.1 hb
    rw [hx]
    exact .cons ho (ih hxs)

end Woven

namespace Hoisted

variable {p : Program} {ms : List Moved} {b : Builder} {origin : NodeId → NodeId}
    (h : Hoisted p ms b origin)
include h

theorem expr_ne_zero {m : Moved} (hm : m ∈ ms) : m.expr ≠ 0 := by
  obtain ⟨_, _, hn, _⟩ := (h.made m hm).value
  exact Nat.ne_of_gt (Arena.range_of_node? hn).1

theorem inTree_origin {i j : NodeId} (hij : origin j = i) (h0 : i ≠ 0) : p.inTree i = true := by
  subst hij
  exact (h.traced j h0).1

theorem inTree_expr {m : Moved} (hm : m ∈ ms) : p.inTree m.expr = true :=
  h.inTree_origin (h.made m hm).comes (h.expr_ne_zero hm)

/-- What comes from a node that is no statement is made of what its parts have become, or is a
reference to its declaration. -/
theorem echoes_or_reference (ht : p.TreeShaped) {i j : NodeId} (h0 : i ≠ 0) (hij : origin j = i)
    (hs : p.NoStatement i) :
    Echoes p ms b.toArena origin i j ∨ ∃ m ∈ ms,
      m.expr = i ∧ b.shape? j = some (.expr (.ident m.name)) := by
  subst hij
  obtain ⟨hin, _, hrecast⟩ := h.traced j h0
  generalize hi : origin j = i at *
  have hstmt : ∀ x : StmtShape NodeId, p.shape? i ≠ some (.stmt x) := fun x hx => by
    simp [Arena.NoStatement, hx, Shape.isStatement] at hs
  cases hrecast with
  | parts _ _ hn hm hspan hrel =>
    have hn' := Arena.shape?_of_node? hn
    refine .inl ⟨_, _, hn, hm, hspan, hrel.within.mono (fun _ _ h => h) (fun _ _ h => h.2)
      fun xs ys hl => ?_⟩
    exact forall₂_of_woven hl.2 fun x hx' =>
      before_eq_nil_of_slot ht hin hn' (by simpa [Arena.NoStatement, hn'] using hs)
      (hl.1 x hx')
  | reference hm hj => exact .inr ⟨_, hm, rfl, hj⟩
  | loop _ hi => exact absurd hi (hstmt _)
  | otherwise _ hi => exact absurd hi (hstmt _)

/-- A node that is no statement is made of what its parts have become. -/
theorem echoes (ht : p.TreeShaped) {i j : NodeId} (h0 : i ≠ 0) (hij : origin j = i)
    (hself : (∀ m ∈ ms, m.expr ≠ i) ∨ ∃ m ∈ ms, m.expr = i ∧ m.value = j) (hs : p.NoStatement i) :
    Echoes p ms b.toArena origin i j := by
  rcases hself with hnot | ⟨m, hm, rfl, rfl⟩
  · exact (h.echoes_or_reference ht h0 hij hs).resolve_right fun ⟨m, hm, he, _⟩ => hnot m hm he
  · exact (h.made m hm).value

theorem rel (ht : p.TreeShaped) {i j : NodeId} (h0 : i ≠ 0) (hij : origin j = i)
    (hself : (∀ m ∈ ms, m.expr ≠ i) ∨ ∃ m ∈ ms, m.expr = i ∧ m.value = j) {x : Shape Symbol NodeId}
    (hx : p.shape? i = some x) (hs : x.isStatement = false) : ∃ y, b.build.shape? j = some y ∧
      Shape.Rel (SameName p b.toArena) (Comes ms b.toArena origin)
      (List.Forall₂ (Comes ms b.toArena origin)) x y := by
  obtain ⟨n, k, hn, hk, -, hrel⟩ := h.echoes ht h0 hij hself (by simp [Arena.NoStatement, hx, hs])
  cases hx.symm.trans (Arena.shape?_of_node? hn)
  exact ⟨_, Builder.shape?_build_of (Arena.shape?_of_node? hk), hrel⟩

/-- Whatever comes from a node is there. -/
theorem ne_zero_of_origin {i j : NodeId} (hij : origin j = i) (h0 : i ≠ 0) : j ≠ 0 := by
  subst hij
  exact Nat.ne_of_gt (h.traced j h0).2.1.1

omit h in
theorem shape?_of_comes {i j : NodeId} (hij : Comes ms b.toArena origin i j) (h0 : i ≠ 0) :
    ∀ m ∈ ms, m.expr = i → b.build.shape? j = some (.expr (.ident m.name)) := fun m hm he =>
  Builder.shape?_build_of ((hij.resolve_left fun hz => h0 hz.1).2.2 m hm he)

variable (hp : p.Fit) (hc : p.Counted)
include hp hc

/-- What the parts of a kept node have become is at their places. -/
theorem situated_child {i j : NodeId} (hij : Kept p b.build origin i j) {x y : Shape Symbol NodeId}
    (hx : p.shape? i = some x) (hy : b.build.shape? j = some y)
    (hvalue : (p.asVariable? i).isSome → (b.build.asVariable? j).isSome) {c c' : NodeId}
    (hcx : c ∈ x.slots) (hcy : c' ∈ y.slots) (hcc : Comes ms b.toArena origin c c') :
    Situated p ms b.build origin c c' := by
  rcases eq_or_ne c 0 with rfl | h0
  · exact .inl ⟨rfl, (hcc.resolve_right fun hr => hr.1 rfl).2⟩
  obtain ⟨_, horigin, _⟩ := hcc.resolve_left fun hz => h0 hz.1
  have ht := hp.treeShaped hc
  have hi := h.inTree_origin hij.origin hij.present
  have hchild := Program.mem_children_of_slot hx hcx h0
  have hchild' := Program.mem_children_of_slot hy hcy (h.ne_zero_of_origin horigin h0)
  refine .inr ⟨⟨h0, ht.ne_root hi hchild, horigin, fun hg => ?_, fun d hd hcd => ?_,
    fun hval => ?_⟩, shape?_of_comes hcc h0⟩
  · exact absurd (hc.holder hchild (Program.TreeShaped.mem_children_root hg h0)) hij.root
  · rw [hc.holder hcd hchild] at hd
    exact ⟨j, hvalue hd, hchild'⟩
  · obtain ⟨g, hg, v, hv, hcomprises⟩ := hval
    rcases Relation.ReflTransGen.cases_tail hcomprises with heq | ⟨e, he, z, hz, hcz⟩
    · subst heq
      have hgi := hc.holder (Program.mem_children_of_slot (Arena.shape?_of_asVariable? hv)
        (by simp [Shape.slots]) h0) hchild
      subst hgi
      exact ⟨j, hij.global hg, hvalue (by simp [hv]), .of_child hchild' .self⟩
    · have hei := hc.holder (Program.mem_children_of_slot hz (z.operands_slots.subset hcz) h0)
        hchild
      subst hei
      obtain ⟨g', hg', hv', hb⟩ := hij.value ⟨g, hg, v, hv, he⟩
      exact ⟨g', hg', hv', hb.child hchild'⟩

omit h in
/-- What comes from a node that neither an expression nor a variable holds has nothing to keep to
but its origin. -/
theorem kept_of_holder {i c c' : NodeId} {x : Shape Symbol NodeId} (hi : p.inTree i = true)
    (hx : p.shape? i = some x) (hchild : c ∈ p.children i) (hexpr : ∀ e, x ≠ .expr e)
    (hvar : x.asVariable? = none) (horigin : origin c' = c)
    (hglobal : c ∈ p.globals → c' ∈ b.build.globals) : Kept p b.build origin c c' := by
  have h0 := Arena.ne_zero_of_mem_children hchild
  have hheld : ∀ {k y}, p.shape? k = some y → c ∈ p.children k → y = x := fun hy hck => by
    rw [hc.holder hck hchild] at hy
    exact Option.some.inj (hy.symm.trans hx)
  have hnovalue : ∀ {d v}, p.asVariable? d = some v → c ∉ p.children d := fun hv hcd => by
    rw [← hheld (Arena.shape?_of_asVariable? hv) hcd] at hvar
    cases hvar
  refine ⟨h0, (hp.treeShaped hc).ne_root hi hchild, horigin, hglobal, fun d hd hcd => ?_,
    fun ⟨g, hg, v, hv, hcomprises⟩ => ?_⟩
  · obtain ⟨v, hv⟩ := Option.isSome_iff_exists.1 hd
    exact absurd hcd (hnovalue hv)
  · rcases Relation.ReflTransGen.cases_tail hcomprises with rfl | ⟨e, _, z, hz, hcz⟩
    · exact absurd (Program.mem_children_of_slot (Arena.shape?_of_asVariable? hv)
        (by simp [Shape.slots]) h0) (hnovalue hv)
    · exact absurd
        (hheld hz (Program.mem_children_of_slot hz (z.operands_slots.subset hcz) h0)).symm (hexpr z)

omit h in
/-- What the parts of a statement have become is at their places, wherever that is. -/
theorem situated_of_statement {i : NodeId} (hi : p.inTree i = true) {x : StmtShape NodeId}
    (hx : p.shape? i = some (.stmt x)) {c c' : NodeId}
    (hcx : c ∈ (Shape.stmt (ν := Symbol) x).slots) (hcc : Comes ms b.toArena origin c c') :
    Situated p ms b.build origin c c' := by
  rcases eq_or_ne c 0 with rfl | h0
  · exact .inl ⟨rfl, (hcc.resolve_right fun hr => hr.1 rfl).2⟩
  obtain ⟨_, horigin, _⟩ := hcc.resolve_left fun hz => h0 hz.1
  have hchild := Program.mem_children_of_slot hx hcx h0
  refine .inr ⟨kept_of_holder hp hc hi hx hchild (fun _ => nofun) rfl horigin fun hg => ?_,
    shape?_of_comes hcc h0⟩
  have hroot := hc.holder hchild (Program.TreeShaped.mem_children_root hg h0)
  subst hroot
  cases hp.module.symm.trans hx

omit hp hc in
theorem sited (hms : FromBodies p ms) {m : Moved} (hm : m ∈ ms) : p.Sited m.expr := by
  obtain ⟨_, r, hr, hcomprises⟩ := hms m hm
  exact .inr ⟨fun j hj => h.plain j ⟨m, hm, hj⟩, r, hr, hcomprises⟩

/-- An expression that was moved is held for its value, or by a statement. -/
theorem not_fixed (hms : FromBodies p ms) {m : Moved} (hm : m ∈ ms) {k : NodeId}
    {x : Shape Symbol NodeId} (hk : p.inTree k = true) (hx : p.shape? k = some x) :
    m.expr ∉ x.fixed := by
  intro hfixed
  have h0 := h.expr_ne_zero hm
  have hchild := Program.mem_children_of_slot hx (x.fixed_subset hfixed) h0
  obtain ⟨y, hy, hvalued⟩ := (h.sited hms hm).holder hc hchild
  cases hx.symm.trans hy
  exact Shape.not_mem_fixed ((hp.treeShaped hc).nodup_slots hk hx) h0 hvalued hfixed

/-- An expression that was moved is not called. -/
theorem not_target (hms : FromBodies p ms) {m : Moved} (hm : m ∈ ms) {k : NodeId}
    {args : List NodeId} (hk : p.inTree k = true) :
    p.shape? k ≠ some (.expr (.call m.expr args)) := by
  intro hx
  have h0 := h.expr_ne_zero hm
  obtain ⟨y, hy, hvalued⟩ :=
    (h.sited hms hm).holder hc (Program.mem_children_of_slot hx (by simp [Shape.slots]) h0)
  cases hx.symm.trans hy
  have honce := (hp.treeShaped hc).nodup_slots hk hx
  simp only [Shape.valued, ExprShape.operands, Shape.isStatement, Bool.false_eq_true, or_false]
    at hvalued
  simp [Shape.slots, h0, hvalued] at honce

variable {M : Frame} (hroot : p.Rooted M) (hms : FromBodies p ms)
include hroot hms

omit hp hc hroot in
theorem inFunction {m : Moved} (hm : m ∈ ms) : p.InFunction m.expr := by
  have h0 := h.expr_ne_zero hm
  obtain ⟨_, r, hr, hcomprises⟩ := hms m hm
  obtain ⟨g, hg, hf, hb⟩ := hr.inFunction (hcomprises.ne_zero h0)
  exact ⟨g, hg, hf, hb.trans (hcomprises.below h0)⟩

/-- The copy of an expression that was moved stands in its declaration. -/
theorem kept_value {m : Moved} (hm : m ∈ ms) : Kept p b.build origin m.expr m.value := by
  have hmade := h.made m hm
  have h0 := h.expr_ne_zero hm
  have hdecl : b.build.shape? m.decl = _ := Builder.shape?_build_of hmade.decl
  have hvalue0 := h.ne_zero_of_origin hmade.comes h0
  have hin := h.inFunction hms hm
  refine ⟨h0, fun hr => ?_, hmade.comes, fun hg => ?_, fun d hd hchild => ?_,
    fun ⟨g, hg, v, hv, hcomprises⟩ => ?_⟩
  · obtain ⟨g, hg, _, hb⟩ := hin
    exact hroot.tree.not_below_child p.inTree_root (hroot.globals g hg) (hr ▸ hb)
  · obtain ⟨x, hx, hvalued⟩ :=
      (h.sited hms hm).holder hc (Program.TreeShaped.mem_children_root hg h0)
    cases hp.module.symm.trans hx
    simp [Shape.valued, Shape.isStatement] at hvalued
  · exact ⟨m.decl, by simp [Arena.asVariable?, hdecl, Shape.asVariable?],
      Program.mem_children_of_slot hdecl (by simp [Shape.slots]) hvalue0⟩
  · have hinit := Program.mem_children_of_slot (Arena.shape?_of_asVariable? hv)
      (by simp [Shape.slots]) (hcomprises.ne_zero h0)
    exact absurd hin
      (hroot.not_inFunction ⟨g, hg, by simp [hv], .of_child hinit (hcomprises.below h0)⟩)

omit hms hroot hp hc in
/-- A statement becomes a statement. -/
theorem isStatement_of_origin {i j : NodeId} (h0 : i ≠ 0) (hij : origin j = i)
    {x : Shape Symbol NodeId} (hx : p.shape? i = some x) (hs : x.isStatement = true) :
    ∃ y, b.build.shape? j = some y ∧ y.isStatement = true := by
  subst hij
  obtain ⟨_, _, hrecast⟩ := h.traced j h0
  generalize hi : origin j = i at *
  cases hrecast with
  | parts _ _ hn hm _ hrel =>
    cases hx.symm.trans (Arena.shape?_of_node? hn)
    refine ⟨_, Builder.shape?_build_of (Arena.shape?_of_node? hm), ?_⟩
    generalize Node.shape _ = x at hrel hs
    generalize Node.shape _ = y at hrel
    cases hrel <;> first | rfl | cases hs
  | reference hm =>
    have hplain := h.plain _ ⟨_, hm, .self⟩
    simp [Arena.NoStatement, hx, hs] at hplain
  | loop _ _ _ hl =>
    cases hl with
    | bare _ hl =>
      obtain ⟨_, _, _, _, hj⟩ := hl
      exact ⟨_, Builder.shape?_build_of hj, rfl⟩
    | after _ _ _ hj => exact ⟨_, Builder.shape?_build_of hj, rfl⟩
  | otherwise _ _ hl =>
    obtain ⟨_, _, _, _, hj⟩ := hl
    exact ⟨_, Builder.shape?_build_of hj, rfl⟩

/-- The nodes of the source and what they have become. -/
def standing : Standing p.toArena b.build.toArena where
  node := Stands p ms b.build origin
  place := Situated p ms b.build origin
  moved := Referred ms b.build
  name := SameName p b.toArena
  spelled _ := SameName p b.toArena
  top i := i ∈ p.globals
  unique i j k hij hij' := by
    rcases hij with ⟨rfl, rfl⟩ | ⟨hk, _⟩ <;> rcases hij' with ⟨rfl, hz⟩ | ⟨hk', _⟩
    · rfl
    · exact absurd rfl (h.ne_zero_of_origin hk'.origin hk'.present)
    · exact absurd hz (h.ne_zero_of_origin hk.origin hk.present)
    · exact hk.origin.symm.trans hk'.origin
  once {d e e'} hd hde hde' := by
    have h0 : d ≠ 0 := Nat.ne_of_gt (hp.globals d hd).1
    obtain ⟨hk, _⟩ := hde.resolve_left fun hz => h0 hz.1
    obtain ⟨hk', _⟩ := hde'.resolve_left fun hz => h0 hz.1
    have hnodup := (hp.treeShaped hc).globals_nodup fun g hg => Nat.ne_of_gt (hp.globals g hg).1
    have he := hk.global hd
    have he' := hk'.global hd
    rw [Builder.globals_build] at he he'
    refine forall₂_once (R := fun i j => origin j = i) ?_ hnodup (fun _ _ _ h h' => h.symm.trans h')
      he he' hk.origin hk'.origin
    exact forall₂_imp_mem h.globals fun g hg _ _ hcomes =>
      (hcomes.resolve_left fun hz => Nat.ne_of_gt (hp.globals g hg).1 hz.1).2.1
  uniqueName := ⟨fun _ _ _ h h' => h.1.trans h'.1.symm, fun _ _ _ h h' => h.1.symm.trans h'.1⟩
  absent {i j} hij := by
    rcases hij with ⟨rfl, rfl⟩ | ⟨hk, _⟩
    · exact Iff.rfl
    · exact iff_of_false hk.present (h.ne_zero_of_origin hk.origin hk.present)
  movedPresent := by
    rintro _ j ⟨m, hm, rfl, hj⟩
    exact ⟨h.expr_ne_zero hm, Arena.ne_zero_of_shape hj⟩
  zero := .inl ⟨rfl, rfl⟩
  present {i j} hij h0 := by
    obtain ⟨hk, _⟩ := hij.resolve_left fun hz => h0 hz.1
    obtain ⟨n, hn⟩ := Option.isSome_iff_exists.1 (hp.node_of_inTree (h.inTree_origin hk.origin h0))
    simp [Arena.shape?, hn]
  text hs hr := by rw [hs.nameOf, hr.nameOf]; rfl
  shape {i j x} hij hx := by
    obtain ⟨hk, hself⟩ := hij.resolve_left fun hz => Arena.ne_zero_of_shape hx hz.1
    cases hs : x.isStatement with
    | true =>
      obtain ⟨y, hy, hs'⟩ := h.isStatement_of_origin hk.present hk.origin hx hs
      exact ⟨y, hy, .inl ⟨rfl, hs'⟩⟩
    | false =>
      obtain ⟨y, hy, hrel⟩ := h.rel (hp.treeShaped hc) hk.present hk.origin hself hx hs
      have hvalue : (p.asVariable? i).isSome → (b.build.asVariable? j).isSome := by
        intro hv
        obtain ⟨v, hv⟩ := Option.isSome_iff_exists.1 hv
        cases hx.symm.trans (Arena.shape?_of_asVariable? hv)
        cases hrel
        simp [Arena.asVariable?, hy, Shape.asVariable?]
      have hchild : ∀ c c', c ∈ x.slots ∧ c' ∈ y.slots ∧ Comes ms b.toArena origin c c' →
          Situated p ms b.build origin c c' :=
        fun _ _ ⟨hcx, hcy, hcc⟩ => h.situated_child hp hc hk hx hy hvalue hcx hcy hcc
      refine ⟨y, hy,
        .inr (hrel.within_both.mono (fun _ _ h => h) hchild fun xs ys ⟨hxs, hys, hall⟩ => ?_)⟩
      exact forall₂_imp_mem hall fun c hcx c' hcy hcc => hchild c c' ⟨hxs c hcx, hys c' hcy, hcc⟩
  names _ _ _ _ hs := hs
  fixed {i j x c c'} hij hx hcx hcc := by
    obtain ⟨hk, _⟩ := hij.resolve_left fun hz => Arena.ne_zero_of_shape hx hz.1
    refine hcc.imp id fun ⟨hkc, _⟩ => ⟨hkc, .inl ?_⟩
    rintro m hm rfl
    exact h.not_fixed hp hc hms hm (h.inTree_origin hk.origin hk.present) hx hcx
  valued _ _ _ hcc := hcc.cases

omit hroot in
/-- The declarations of the module are what they have become. -/
theorem globals_stand : List.Forall₂ (Stands p ms b.build origin) p.globals b.build.globals := by
  rw [Builder.globals_build]
  refine forall₂_imp_mem h.globals fun g hg g' hg' hcomes => ?_
  have h0 : g ≠ 0 := Nat.ne_of_gt (hp.globals g hg).1
  have hchild := Program.TreeShaped.mem_children_root hg h0
  obtain ⟨_, horigin, _⟩ := hcomes.resolve_left fun hz => h0 hz.1
  refine .inr ⟨kept_of_holder hp hc p.inTree_root hp.module hchild (fun _ => nofun) rfl horigin
    fun _ => ?_, .inl ?_⟩
  · rwa [Builder.globals_build]
  · rintro m hm rfl
    obtain ⟨x, hx, hvalued⟩ := (h.sited hms hm).holder hc hchild
    cases hp.module.symm.trans hx
    simp [Shape.valued, Shape.isStatement] at hvalued

omit hroot in
/-- The names of the module are found in the program that is made, and stand for the same
declarations. -/
theorem scopes (hnames : p.globals.foldl (Resolve.collect p.toArena) ([], []) = (M, [])) :
    ∃ M', b.build.globals.foldl (Resolve.collect b.build.toArena) ([], []) = (M', []) ∧
      List.Forall₂ (fun x y => SameName p b.toArena x.1 y.1 ∧ Stands p ms b.build origin x.2 y.2) M
      M' :=
  Resolve.collect_follows (h.standing hp hc hms).uniqueName (h.globals_stand hp hc hms)
    (h.standing hp hc hms).declName .nil hnames

/-- The program that is made follows the source. -/
def kinship {M' : Frame} (F : NodeId → ExprFacts → Prop)
    (hM : List.Forall₂ (fun x y => SameName p b.toArena x.1 y.1 ∧
      Stands p ms b.build origin x.2 y.2) M M') : Kinship p.toArena b.build.toArena M M' F :=
  (h.standing hp hc hms).kinshipOfSame (fun _ _ => True) trivial (fun _ => trivial)
    (fun hs => Frame.find?_rel (h.standing hp hc hms).uniqueName hM hs)
    (fun hd => hroot.names _ _ hd)
    (fun hs => ⟨hs, hs.nameOf⟩) fun {i j g args g'} hij hx hgg => by
      obtain ⟨hk, _⟩ := hij.resolve_left fun hz => Arena.ne_zero_of_shape hx hz.1
      refine hgg.imp id fun ⟨hkg, _⟩ => ⟨hkg, .inl ?_⟩
      rintro m hm rfl
      exact h.not_target hp hc hms hm (h.inTree_origin hk.origin hk.present) hx

end Hoisted
end Hoist
end ShaderLoom
