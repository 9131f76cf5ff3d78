import ShaderLoom.Proofs.Meaning.Parallel
import ShaderLoom.Proofs.Meaning.Recorded

/-! Programs that differ in the spelling of their names. Each name of the one has a name of the
other for it, except in component selections and calls of builtin functions, where names are kept.
Resolution then finds the same out of either. -/
namespace ShaderLoom

/-- What holds of related elements of lists, given that they are elements. -/
theorem forall₂_imp_mem {α β : Type} {R S : α → β → Prop} {xs : List α} {ys : List β}
    (h : List.Forall₂ R xs ys) (hRS : ∀ x ∈ xs, ∀ y ∈ ys, R x y → S x y) :
    List.Forall₂ S xs ys := by
  induction h with
  | nil => exact .nil
  | cons hxy _ ih =>
    exact .cons (hRS _ List.mem_cons_self _ List.mem_cons_self hxy) (ih fun x hx y hy =>
      hRS x (List.mem_cons_of_mem _ hx) y (List.mem_cons_of_mem _ hy))

theorem rel_imp {α β : Type} {R S : α → β → Prop} {o : Option α} {o' : Option β}
    (h : Option.Rel R o o') (hRS : ∀ x y, R x y → S x y) : Option.Rel S o o' := by
  cases h with
  | none => exact .none
  | some h => exact .some (hRS _ _ h)

/-- Names and nodes of two programs that stand for each other. -/
structure Respelling (p q : Program) where
  place : NodeId → NodeId → Prop
  name : Symbol → Symbol → Prop
  /-- Nodes that keep their names. -/
  kept : NodeId → NodeId → Prop
  fit : p.Fit
  fit' : q.Fit
  tree : p.TreeShaped
  tree' : q.TreeShaped
  unique : Relator.BiUnique place
  uniqueName : Relator.BiUnique name
  zero : place 0 0
  inTree : ∀ {i j}, place i j → i = 0 ∧ j = 0 ∨ p.inTree i = true ∧ q.inTree j = true
  globals : List.Forall₂ place p.globals q.globals
  shape : ∀ {i j x}, place i j → p.shape? i = some x → ∃ y, q.shape? j = some y ∧
    Shape.Rel (fun s t => (kept i j → p.nameOf s = q.nameOf t) ∧ (¬ kept i j → name s t)) place
    (List.Forall₂ place) x y
  text : ∀ {s s' r r'}, name s s' → name r r' →
    (p.nameOf s = p.nameOf r ↔ q.nameOf s' = q.nameOf r')
  keeps : ∀ {i j}, place i j → kept i j → (∃ o s, p.shape? i = some (.expr (.member o s))) ∨
    (∃ s, p.shape? i = some (.expr (.ident s))) ∧ ∃ k k' args args', place k k' ∧
      p.shape? k = some (.expr (.call i args)) ∧ q.shape? k' = some (.expr (.call j args'))

namespace Respelling

variable {p q : Program} (R : Respelling p q)

theorem absent {i j : NodeId} (hij : R.place i j) : i = 0 ↔ j = 0 := by
  constructor
  · rintro rfl
    exact R.unique.2 hij R.zero
  · rintro rfl
    exact R.unique.1 hij R.zero

theorem inTree_of {i j : NodeId} (hij : R.place i j) (hi : i ≠ 0) :
    p.inTree i = true ∧ q.inTree j = true :=
  (R.inTree hij).resolve_left fun h => hi h.1

/-- The same, seen from the other program. -/
def flip : Respelling q p where
  place := Function.swap R.place
  name := Function.swap R.name
  kept := Function.swap R.kept
  fit := R.fit'
  fit' := R.fit
  tree := R.tree'
  tree' := R.tree
  unique := ⟨fun _ _ _ h h' => R.unique.2 h h', fun _ _ _ h h' => R.unique.1 h h'⟩
  uniqueName := ⟨fun _ _ _ h h' => R.uniqueName.2 h h', fun _ _ _ h h' => R.uniqueName.1 h h'⟩
  zero := R.zero
  inTree hij := (R.inTree hij).imp And.symm And.symm
  globals := R.globals.flip
  shape {i j y} hij hy := by
    have hi : j ≠ 0 := fun h0 => Arena.ne_zero_of_shape hy ((R.absent hij).1 h0)
    obtain ⟨n, hn⟩ := Option.isSome_iff_exists.1 (R.fit.node_of_inTree (R.inTree_of hij hi).1)
    have hx : p.shape? j = some n.shape := by simp [Arena.shape?, hn]
    obtain ⟨_, hy', hrel⟩ := R.shape hij hx
    cases hy.symm.trans hy'
    exact ⟨_, hx, hrel.flip.mono (fun _ _ h => ⟨fun hk => (h.1 hk).symm, h.2⟩) (fun _ _ h => h)
      fun _ _ h => h.flip⟩
  text h h' := (R.text h h').symm
  keeps {i j} hij hk := by
    rcases R.keeps hij hk with ⟨o, s, hx⟩ | ⟨⟨s, hx⟩, k, k', args, args', hkk, hcall, hcall'⟩
    · obtain ⟨y, hy, hrel⟩ := R.shape hij hx
      cases hrel
      exact .inl ⟨_, _, hy⟩
    · obtain ⟨y, hy, hrel⟩ := R.shape hij hx
      cases hrel
      exact .inr ⟨⟨_, hy⟩, k', k, args', args, hkk, hcall', hcall⟩

/-- Targets of calls that keep their names. -/
def Spared (i j : NodeId) : Prop := R.kept i j ∧ ∃ s, p.shape? i = some (.expr (.ident s))

/-- Children other than the targets of calls are not spared. -/
theorem not_spared {i c c' : NodeId} {x : Shape Symbol NodeId} (hi : p.inTree i = true)
    (hx : p.shape? i = some x) (hc : c ∈ x.slots)
    (hcall : ∀ g args, x = .expr (.call g args) → c ∈ args) (hcc : R.place c c') :
    ¬ R.Spared c c' := by
  rintro ⟨hk, s, hs⟩
  rcases R.keeps hcc hk with ⟨o, r, hm⟩ | ⟨_, k, k', args, args', hkk, hkcall, _⟩
  · cases hs.symm.trans hm
  have h0 := Arena.ne_zero_of_shape hs
  have hkt := (R.inTree_of hkk (Arena.ne_zero_of_shape hkcall)).1
  have hparent := R.tree.parent hkt (Program.mem_children_of_slot hkcall (by simp [Shape.slots]) h0)
  rw [R.tree.parent hi (Program.mem_children_of_slot hx hc h0)] at hparent
  subst hparent
  cases hx.symm.trans hkcall
  obtain ⟨n, hn, hnx⟩ := Option.map_eq_some_iff.1 hx
  have honce := R.tree.once hi
  simp [Arena.children, hn, Node.children, hnx, Shape.slots, h0] at honce
  exact honce.1 (hcall c args rfl)

/-- Nodes of either program that stand for each other. -/
def standing : Standing p.toArena q.toArena where
  node i j := R.place i j ∧ ¬ R.Spared i j
  place := R.place
  moved _ _ := False
  name := R.name
  spelled i s t := ∃ j, R.place i j ∧ (R.kept i j → p.nameOf s = q.nameOf t) ∧
    (¬ R.kept i j → R.name s t)
  top _ := True
  unique _ _ _ h h' := R.unique.1 h.1 h'.1
  once _ h h' := R.unique.2 h.1 h'.1
  uniqueName := R.uniqueName
  absent hij := R.absent hij.1
  movedPresent h := h.elim
  zero := ⟨R.zero, fun h => by obtain ⟨s, hs⟩ := h.2; cases hs⟩
  present {i j} hij h0 := by
    obtain ⟨n, hn⟩ := Option.isSome_iff_exists.1 (R.fit.node_of_inTree (R.inTree_of hij.1 h0).1)
    simp [Arena.shape?, hn]
  text := R.text
  shape hij hx := by
    obtain ⟨y, hy, hrel⟩ := R.shape hij.1 hx
    exact ⟨y, hy, .inr (hrel.mono (fun _ _ h => ⟨_, hij.1, h⟩) (fun _ _ h => h) fun _ _ h => h)⟩
  names {i j x s s'} hij hx hm _ hs := by
    obtain ⟨j', hij', _, hname⟩ := hs
    cases R.unique.2 hij.1 hij'
    refine hname fun hk => ?_
    rcases R.keeps hij.1 hk with ⟨o, r, hmember⟩ | ⟨hident, _⟩
    · cases hx.symm.trans hmember
      cases hm
    · exact hij.2 ⟨hk, hident⟩
  fixed {i j x c c'} hij hx hc hcc := by
    refine ⟨hcc, R.not_spared (R.inTree_of hij.1 (Arena.ne_zero_of_shape hx)).1 hx
      (x.fixed_subset hc) ?_ hcc⟩
    rintro g args rfl
    cases hc
  valued {i j x c c'} hij hx hc hcc := by
    refine .inl ⟨hcc, R.not_spared (R.inTree_of hij.1 (Arena.ne_zero_of_shape hx)).1 hx
      (x.valued_subset hc) ?_ hcc⟩
    rintro g args rfl
    exact hc

theorem globals_node : List.Forall₂ R.standing.node p.globals q.globals :=
  forall₂_imp_mem R.globals fun _ hg _ _ hgg =>
    ⟨hgg, R.not_spared p.inTree_root R.fit.module hg (by simp) hgg⟩

/-- What is kept in either program is what resolution found to be no name of the program. -/
structure Sensible : Prop where
  member : ∀ {i j o s e}, R.place i j → p.shape? i = some (.expr (.member o s)) →
    p.facts.table.Recorded i e →
    (R.kept i j ↔ e.swizzle.isSome = true)
  target : ∀ {i j g g' args s e}, R.place i j → p.shape? i = some (.expr (.call g args)) →
    R.place g g' →
    p.shape? g = some (.expr (.ident s)) → p.facts.table.Recorded i e →
    (R.kept g g' ↔ e.builtin ≠ "")
  callable : ∀ {i j g g' args s s' e}, R.place i j → p.shape? i = some (.expr (.call g args)) →
    R.place g g' →
    p.shape? g = some (.expr (.ident s)) → q.shape? g' = some (.expr (.ident s')) →
    p.facts.table.Recorded i e →
    e.builtin ≠ "" →
    (∀ d, p.scene.module.find? s = some d → (p.shape? d).any Shape.isTypeDecl = false ∧
      p.function? d = none) →
    ∀ d, q.scene.module.find? s' = some d → (q.shape? d).any Shape.isTypeDecl = false ∧
      q.function? d = none

/-- Declarations of the module under names that stand for each other. -/
abbrev Scopes : Prop :=
  List.Forall₂ (fun x y => R.name x.1 y.1 ∧ R.standing.node x.2 y.2) p.scene.module q.scene.module

variable {R}

theorem scopes (hp : (p.globals.foldl (Resolve.collect p.toArena) ([], [])).2 = []) :
    (q.globals.foldl (Resolve.collect q.toArena) ([], [])).2 = [] ∧ R.Scopes := by
  obtain ⟨M', hM', hall⟩ :=
    Resolve.collect_follows R.uniqueName R.globals_node R.standing.declName .nil
    (M := p.scene.module) (Prod.ext rfl hp)
  have hmodule : q.scene.module = M' := congrArg Prod.fst hM'
  exact ⟨congrArg Prod.snd hM', by rwa [Scopes, hmodule]⟩

/-- The second program follows the first one. -/
def kinship (hR : R.Sensible) (hM : R.Scopes) :
    Kinship p.toArena q.toArena p.scene.module q.scene.module p.facts.table.Recorded :=
  R.standing.kinship Eq rfl (fun h => congrArg (· + 1) h)
    (fun hs => Frame.find?_rel R.uniqueName hM hs) (fun _ => trivial)
    (fun {i j o s o' s'} hij hx _ hs => by
      obtain ⟨j', hij', hkept, hname⟩ := hs
      cases R.unique.2 hij.1 hij'
      refine ⟨fun e he hsome => hkept ((hR.member hij.1 hx he).2 hsome),
        fun e he hnone => hname fun hk => ?_⟩
      have hsome := (hR.member hij.1 hx he).1 hk
      rw [hnone] at hsome
      cases hsome)
    (fun {i j g args g' args'} hij hx _ hg => by
      refine ⟨fun ⟨x, hgx⟩ => ⟨⟨hg, fun hs => ?_⟩, ?_⟩, fun s hgs => ?_⟩
      · obtain ⟨_, s, hs⟩ := hs
        cases hgx.symm.trans hs
      · obtain ⟨y, hy, hrel⟩ := R.shape hg hgx
        cases hrel <;> exact ⟨_, hy⟩
      · obtain ⟨y, hy, hrel⟩ := R.shape hg hgs
        cases hrel with
        | @ident _ s' hs =>
          refine ⟨s', hy, fun e he hb => hs.2 fun hk => ?_, fun e he hb => ?_⟩
          · exact (hR.target hij.1 hx hg hgs he).1 hk hb
          · exact ⟨hs.1 ((hR.target hij.1 hx hg hgs he).2 hb),
              hR.callable hij.1 hx hg hgs hy he hb⟩)

variable (hR : R.Sensible) (hM : R.Scopes)

theorem parallel : (kinship hR hM).Parallel where
  read h := h
  unmoved h := h
  stmt {i j s} hij hx := by
    obtain ⟨y, hy, hrel⟩ := R.shape hij.1 hx
    have hi := (R.inTree_of hij.1 (Arena.ne_zero_of_shape hx)).1
    have hchild : ∀ {c c'}, c ∈ (Shape.stmt s : Shape Symbol NodeId).slots → R.place c c' →
        R.standing.node c c' :=
      fun hc hcc => ⟨hcc, R.not_spared hi hx hc (by simp) hcc⟩
    have hrel : Shape.Rel (fun _ _ => True) R.standing.node (List.Forall₂ R.standing.node)
        (.stmt s) y :=
      hrel.within.mono (fun _ _ _ => trivial) (fun _ _ h => hchild h.1 h.2) fun _ _ h =>
        forall₂_imp_mem h.2 fun x hx _ _ => hchild (h.1 x hx)
    obtain ⟨t, rfl⟩ : ∃ t, y = .stmt t := by cases hrel <;> exact ⟨_, rfl⟩
    exact ⟨t, hy, hrel⟩
  noBlock {i j} hij hnone := by
    cases hx : p.shape? i with
    | none =>
      have h0 : i = 0 := by
        by_contra h0
        have := R.standing.present hij h0
        rw [hx] at this
        cases this
      cases (R.absent hij.1).1 h0
      rfl
    | some x =>
      obtain ⟨y, hy, hrel⟩ := R.shape hij.1 hx
      simp only [Arena.block?, hx, hy, Option.bind_some] at hnone ⊢
      cases hrel <;> first | rfl | cases hnone
  body {d d' f f'} hdd hf hf' := by
    have hx := Arena.shape?_of_function? hf
    obtain ⟨y, hy, hrel⟩ := R.shape hdd.1 hx
    cases hy.symm.trans (Arena.shape?_of_function? hf')
    have hi := (R.inTree_of hdd.1 (Arena.ne_zero_of_shape hx)).1
    cases hrel with
    | function _ _ _ _ _ hbody =>
      exact ⟨‹_›, R.not_spared hi hx (by simp [Shape.slots]) (by simp) ‹_›⟩

/-- What is found out about expressions that stand for each other. -/
structure Alike (R : Respelling p q) (e f : ExprFacts) : Prop where
  type : Kin R.standing.node e.type f.type
  variableId : e.variableId = f.variableId
  target : Option.Rel R.place e.target f.target
  builtin : e.builtin = f.builtin
  member : Option.Rel (fun m n => R.place m.decl n.decl) e.member f.member
  swizzle : e.swizzle = f.swizzle

end Respelling

namespace Respelling

variable {b b' : Builder} {R : Respelling b.build b'.build}

/-- What is found out of the second program was found out of the first, whose variables it has. -/
theorem follows (hR : R.Sensible) (hv : b.build.valid = true) (hb : b.Fit) (hb' : b'.Fit)
    (herrors : b'.diagnostics.hasErrors = false) :
    b'.build.valid = true ∧
      (∀ {j e'}, b'.build.facts.table.Recorded j e' →
        ∃ i e, R.standing.node i j ∧ b.build.facts.table.Recorded i e ∧ R.Alike e e') ∧
      ∀ n, Option.Rel (fun x y => R.place x.decl y.decl) (b.build.facts.table.vars n)
        (b'.build.facts.table.vars n) := by
  obtain ⟨hroot, htyped⟩ := Program.recorded_build hv hb R.tree
  obtain ⟨hclean, hM⟩ := R.scopes (congrArg Prod.snd htyped.names)
  let K := kinship hR hM
  have hF : K.Allows fun j e' => ∃ i e, K.node i j ∧ b.build.facts.table.Recorded i e ∧
      K.Senses e e' :=
    fun hij he hs => ⟨_, _, hij, he, hs⟩
  obtain ⟨E, V, hstatic, hreflects⟩ := hroot.static hb.build.typesPresent htyped
  obtain ⟨E', V', hstatic', hE, hV⟩ :=
    (parallel hR hM).static hF (fun _ _ => trivial) R.globals_node (Prod.ext rfl hclean) hstatic
  obtain ⟨T, htyped', hreflects'⟩ :=
    (Program.rooted_build hb' R.tree').wellTyped hb'.build.typesPresent hstatic'
  obtain ⟨hvalid, htable⟩ := Program.valid_of_wellTyped herrors R.tree'
    (fun g hg => Nat.ne_of_gt (hb'.globals g hg).1) htyped'
  refine ⟨hvalid, fun {j e'} he' => ?_, fun n => ?_⟩
  · rw [htable] at he'
    obtain ⟨i, e, hij, he, hs⟩ := htyped'.allowed he'
    refine ⟨i, e, hij, he, hs.type, eq_of_rel hs.variableId, ?_, hs.builtin, ?_, hs.swizzle⟩
    · exact rel_imp hs.target fun _ _ h => h.1
    · exact rel_imp hs.member fun _ _ h => h.decl.1
  · rw [htable, hreflects.vars, hreflects'.vars]
    cases hx : V[n]? with
    | none =>
      have hlength : V.length = V'.length := hV.length
      rw [List.getElem?_eq_none (hlength ▸ List.getElem?_eq_none_iff.1 hx)]
      exact .none
    | some x =>
      obtain ⟨n', y, rfl, hy, hxy⟩ := hV.made hx
      rw [hy]
      exact .some hxy.decl.1

/-- What is kept is sensible from the other side too. -/
theorem Sensible.flip (hR : R.Sensible) (hv : b.build.valid = true) (hb : b.Fit) (hb' : b'.Fit)
    (herrors : b'.diagnostics.hasErrors = false) : R.flip.Sensible := by
  obtain ⟨_, hfound, _⟩ := follows hR hv hb hb' herrors
  have hback : ∀ {i j e'}, R.place i j → b'.build.facts.table.Recorded j e' →
      ∃ e, b.build.facts.table.Recorded i e ∧ R.Alike e e' := by
    intro i j e' hij he'
    obtain ⟨i', e, hij', he, halike⟩ := hfound he'
    cases R.unique.1 hij hij'.1
    exact ⟨e, he, halike⟩
  constructor
  · intro j i o s e' hij hy he'
    obtain ⟨e, he, halike⟩ := hback hij he'
    obtain ⟨x, hx, hrel⟩ := R.flip.shape hij hy
    cases hrel
    rw [← halike.swizzle]
    exact hR.member hij hx he
  · intro j i g' g args s e' hij hy hgg hs he'
    obtain ⟨e, he, halike⟩ := hback hij he'
    obtain ⟨x, hx, hrel⟩ := R.flip.shape hij hy
    obtain ⟨z, hz, hrel'⟩ := R.flip.shape hgg hs
    cases hrel with
    | call hg _ =>
      cases R.flip.unique.2 hgg hg
      cases hrel'
      rw [← halike.builtin]
      exact hR.target hij hx hgg hz he
  · intro j i g' g args s s' e' hij hy hgg hs hs' he' hb' _ d hd
    obtain ⟨e, he, halike⟩ := hback hij he'
    obtain ⟨x, hx, hrel⟩ := R.flip.shape hij hy
    cases hrel with
    | call hg _ =>
      cases R.flip.unique.2 hgg hg
      rw [← halike.builtin] at hb'
      exact ((Program.recorded_build hv hb R.tree).2.follows.2 he).1 _ _ _ _ hx hs' hb' hd

/-- Resolution finds the same out of either program. -/
theorem resolves (hR : R.Sensible) (hv : b.build.valid = true) (hb : b.Fit) (hb' : b'.Fit)
    (herrors : b'.diagnostics.hasErrors = false) {i j : NodeId} (hij : R.place i j) :
    Option.Rel R.Alike (b.build.facts.table.senses i) (b'.build.facts.table.senses j) := by
  obtain ⟨hvalid, hfound, _⟩ := follows hR hv hb hb' herrors
  cases he' : b'.build.facts.table.senses j with
  | some e' =>
    obtain ⟨i', e, hij', he, halike⟩ := hfound he'
    cases R.unique.1 hij hij'.1
    rw [show b.build.facts.table.senses i = some e from he]
    exact .some halike
  | none =>
    cases he : b.build.facts.table.senses i with
    | none => exact .none
    | some e =>
      obtain ⟨_, hfound', _⟩ :=
        follows (hR.flip hv hb hb' herrors) hvalid hb' hb (Program.noErrors_of_valid hv).1
      obtain ⟨j', e', hij', hsome, _⟩ := hfound' he
      cases R.unique.2 hij hij'.1
      cases he'.symm.trans hsome

end Respelling
end ShaderLoom
