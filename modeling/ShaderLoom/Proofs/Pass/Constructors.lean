import ShaderLoom.Proofs.Meaning.Recursion
import ShaderLoom.Proofs.Pass.Rereading

/-! Constructors of structures where the number of workgroups is read from a buffer. Calls keep all
their arguments, and structures keep all their members but those that go away. A constructor that
passed as many arguments as its structure has members still does so if no member of the structure
goes away, and only then. -/
namespace ShaderLoom

/-- A list to which nothing is added has as many elements as are left of the other one. -/
theorem Copy.Listed.length_eq {ds : List NodeId} {out : NodeId → NodeId → Prop}
    {xs ys : List NodeId} (h : Listed (fun _ => False) (· ∈ ds) out xs ys) :
    ys.length = (xs.filter (· ∉ ds)).length := by
  induction h with
  | nil => rfl
  | insert hy _ _ => exact hy.elim
  | keep hx _ _ ih => simp [hx, ih]
  | drop hx _ ih => simp [hx, ih]

/-- A name of the module stands for the first declaration of that name. -/
theorem Resolve.find?_collect (a : Arena) (gs : List NodeId) (found : Frame × Diagnostics)
    (s : Symbol) :
    Frame.find? (gs.foldl (collect a) found).1 s =
      (found.1.find? s).or (gs.find? fun g => (a.shape? g).bind Shape.declName? == some s) := by
  induction gs generalizing found with
  | nil => simp
  | cons g gs ih =>
    rw [List.foldl_cons, ih, List.find?_cons]
    cases hname : (a.shape? g).bind Shape.declName? with
    | none => simp [collect, hname]
    | some t =>
      have hname' : (some t == some s) = (t == s) := rfl
      cases hfound : found.1.find? t with
      | some d =>
        by_cases hts : t = s
        · simp [collect, hname, hfound, ← hts]
        · simp [collect, hname, hfound, hname', beq_eq_false_iff_ne.2 hts]
      | none =>
        have hstep : (collect a found g).1 = found.1 ++ [(t, g)] := by simp [collect, hname, hfound]
        rw [hstep, Frame.find?, List.find?_append, Option.map_or, ← Frame.find?, Option.or_assoc]
        by_cases hts : t = s
        · simp [hts]
        · simp [hname', beq_eq_false_iff_ne.2 hts]

theorem Copy.Listed.exists_of_mem {extra gone : NodeId → Prop} {out : NodeId → NodeId → Prop}
    {xs ys : List NodeId} (h : Listed extra gone out xs ys) {x : NodeId} (hx : x ∈ xs)
    (hkept : ¬ gone x) : ∃ y ∈ ys, out x y := by
  induction h with
  | nil => cases hx
  | insert _ _ ih => exact (ih hx).imp fun _ hy => hy.imp_left (List.mem_cons_of_mem _)
  | keep _ hxy _ ih =>
    rcases List.mem_cons.1 hx with rfl | hx
    · exact ⟨_, List.mem_cons_self, hxy⟩
    · exact (ih hx).imp fun _ hy => hy.imp_left (List.mem_cons_of_mem _)
  | drop hz _ ih =>
    rcases List.mem_cons.1 hx with rfl | hx
    · exact absurd hz hkept
    · exact ih hx

/-- What is found first in a list to which nothing is added and from which nothing is gone comes
from what is found first in the other one. -/
theorem Copy.Listed.find? {gone : NodeId → Prop} {out : NodeId → NodeId → Prop}
    {xs ys : List NodeId} {f g : NodeId → Bool} (h : Listed (fun _ => False) gone out xs ys)
    (hgone : ∀ x ∈ xs, ¬ gone x) (hfg : ∀ x ∈ xs, ∀ y, out x y → f x = g y) {y : NodeId}
    (hy : ys.find? g = some y) : ∃ x, xs.find? f = some x ∧ out x y := by
  induction h with
  | nil => cases hy
  | insert hz _ _ => exact hz.elim
  | @keep x z xs ys _ hxz _ ih =>
    rw [List.find?_cons, ← hfg x List.mem_cons_self z hxz] at hy
    rw [List.find?_cons]
    cases hx : f x with
    | true =>
      rw [hx] at hy
      cases hy
      exact ⟨x, rfl, hxz⟩
    | false =>
      rw [hx] at hy
      exact ih (fun x hx => hgone x (List.mem_cons_of_mem _ hx))
        (fun x hx => hfg x (List.mem_cons_of_mem _ hx)) hy
  | drop hx _ _ => exact absurd hx (hgone _ List.mem_cons_self)

namespace Workgroups

open Copy Resolve

variable {p q : Program} {plan : Plan} {buffer : Symbol} {origin : NodeId → NodeId}

/-- At and below a node there are no calls, and no structures but one. -/
inductive Inert (a : Arena) (d : NodeId) : NodeId → Prop
  | node {k : NodeId} {x : Shape Symbol NodeId} : a.shape? k = some x →
    (∀ t args, x ≠ .expr (.call t args)) →
    (∀ s ms as, x = .decl (.struct s ms as) → k = d) → (∀ c ∈ x.slots, c ≠ 0 → Inert a d c) →
    Inert a d k

section Inert

variable {a : Arena} {d k : NodeId}

theorem Inert.ident {s : Symbol} (h : a.shape? k = some (.expr (.ident s))) : Inert a d k :=
  .node h (by simp) (by simp) fun _ hc => absurd hc (by simp [Shape.slots])

theorem Inert.type {t : TypeShape Symbol NodeId} (h : a.shape? k = some (.type t))
    (hslots : ∀ c ∈ (Shape.type (ν := Symbol) t).slots, c ≠ 0 → Inert a d c) : Inert a d k :=
  .node h (by simp) (by simp) hslots

theorem Inert.isRead (h : IsRead a buffer k) : Inert a d k := by
  obtain ⟨o, s, hk, ho, _⟩ := h
  refine .node hk (by simp) (by simp) fun c hc _ => ?_
  obtain rfl : c = o := by simpa [Shape.slots] using hc
  exact .ident ho

/-- What stands below a node that a use becomes. -/
theorem Use.Made.below {use : Use} (h : use.Made a k) {x : Shape Symbol NodeId}
    (hx : a.shape? k = some x) : ∀ c ∈ x.slots, Inert a d c := by
  cases use with
  | read buffer =>
    obtain ⟨o, s, hk, ho, _⟩ := h
    cases hx.symm.trans hk
    intro c hc
    obtain rfl : c = o := by simpa [Shape.slots] using hc
    exact .ident ho
  | construct struct buffer =>
    obtain ⟨t, r, hk, ht, hr⟩ := h
    cases hx.symm.trans hk
    have htype : Inert a d t := .type ht (by simp [Shape.slots])
    intro c hc
    rcases List.mem_pair.1 (show c ∈ [t, r] by simpa [Shape.slots] using hc) with rfl | rfl
    · exact htype
    · exact .isRead hr

/-- The declarations of the buffer have one structure. -/
theorem Buffer.Declared.inert {x : Buffer} {point : BindingPoint} {names : List String}
    (h : x.Declared point names a) : ∀ g ∈ [x.decl, x.var], Inert a x.decl g := by
  have helem : Inert a x.decl x.elem := .type h.elem (by simp [Shape.slots])
  have hvector : Inert a x.decl x.vector := .type h.vector (by simp [Shape.slots, helem])
  have hmember : Inert a x.decl x.member :=
    .node h.member (by simp) (by simp) (by simp [Shape.slots, hvector])
  have htype : Inert a x.decl x.type := .type h.type (by simp [Shape.slots])
  have hgroup : Inert a x.decl x.group := .node h.group (by simp) (by simp) (by simp [Shape.slots])
  have hbinding : Inert a x.decl x.binding :=
    .node h.binding (by simp) (by simp) (by simp [Shape.slots])
  have hdecl : Inert a x.decl x.decl :=
    .node h.decl (by simp) (fun _ _ _ _ => rfl) (by simp [Shape.slots, hmember])
  have hvar : Inert a x.decl x.var :=
    .node h.var (by simp) (by simp) (by simp [Shape.slots, htype, hgroup, hbinding])
  simp [hdecl, hvar]

/-- They have new names. -/
theorem Buffer.Declared.new {x : Buffer} {point : BindingPoint} {names : List String}
    (h : x.Declared point names a) :
    ∀ g ∈ [x.decl, x.var], ∀ s, (a.shape? g).bind Shape.declName? = some s →
      ∃ name, a.symbols.Names s name ∧ name ∉ names := by
  intro g hg s hs
  rcases List.mem_pair.1 hg with rfl | rfl
  · rw [h.decl] at hs
    cases hs
    exact h.struct
  · rw [h.var] at hs
    cases hs
    exact h.symbol

end Inert

section Replaces

variable {gs ds : List NodeId} {rs : List (NodeId × Use)} {d : NodeId}

/-- Where the nodes of a program come from that replaces uses. -/
theorem Replaces.cases (h : Replaces gs ds rs origin p q) (hgs : ∀ g ∈ gs, Inert q.toArena d g)
    {k : NodeId} (hk : q.inTree k = true) : k = q.root ∨ origin k ≠ 0 ∨ Inert q.toArena d k := by
  have hcome : ∀ {x y}, Program.Comes origin x y → y ≠ 0 → origin y ≠ 0 := by
    rintro x y (⟨_, rfl⟩ | ⟨hx, rfl⟩) h0
    · exact absurd rfl h0
    · exact hx
  refine h.fit.tree_induct (P := fun k => k = q.root ∨ origin k ≠ 0 ∨ Inert q.toArena d k)
    (.inl rfl) ?_ hk
  intro k n c _ ih hn hc h0
  have hs : q.shape? k = some n.shape := by simp [Arena.shape?, hn]
  right
  rcases ih with rfl | hk | hk
  · obtain ⟨ys, hys, hlist⟩ := h.globals
    have hc : c ∈ gs ++ ys := by
      rw [h.fit.module] at hs
      rw [← Option.some.inj hs, hys] at hc
      simpa [Shape.slots] using hc
    rcases List.mem_append.1 hc with hc | hc
    · exact .inr (hgs c hc)
    · obtain ⟨x, _, _, hx⟩ := (hlist.mem hc).resolve_left fun h => h
      exact .inl (hcome hx h0)
  · obtain ⟨_, hnode⟩ := h.node k hk
    split at hnode
    · exact .inr (hnode.below hs c hc)
    · obtain ⟨_, m, _, hm, _, hrel⟩ := hnode
      cases hn.symm.trans hm
      obtain ⟨x, _, hx⟩ := hrel.mem_slots (fun xs ys hl y hy => by
        obtain ⟨x, hx, _, hxy⟩ := (Listed.mem hl hy).resolve_left fun h => h
        exact ⟨x, hx, hxy⟩) c hc
      exact .inl (hcome hx h0)
  · obtain ⟨hx, _, _, hslots⟩ := hk
    cases hs.symm.trans hx
    exact .inr (hslots c hc h0)

/-- A node that is not replaced looks like the one it comes from. -/
theorem Replaces.shape (h : Replaces gs ds rs origin p q) {k : NodeId} (hk : origin k ≠ 0)
    (hnone : rs.lookup (origin k) = none) :
    ∃ x y, p.shape? (origin k) = some x ∧ q.shape? k = some y ∧ Shape.Rel
      (fun s t => s = t ∧ p.symbols.nameFor s = q.symbols.nameFor t) (Program.Comes origin)
      (Program.ComeLists (· ∈ ds) origin) x y := by
  obtain ⟨_, hnode⟩ := h.node k hk
  rw [hnone] at hnode
  obtain ⟨n, m, hn, hm, _, hrel⟩ := hnode
  exact ⟨n.shape, m.shape, by simp [Arena.shape?, hn], by simp [Arena.shape?, hm], hrel⟩

/-- A call of a program that replaces uses is a call of the other one with as many arguments, or was
made for a use. -/
theorem Replaces.call (h : Replaces gs ds rs origin p q) {k t' : NodeId} {args' : List NodeId}
    (hk : origin k ≠ 0) (hcall : q.shape? k = some (.expr (.call t' args')))
    (hds : ∀ t args, p.shape? (origin k) = some (.expr (.call t args)) → ∀ i ∈ args, i ∉ ds) :
    (∃ t args, p.shape? (origin k) = some (.expr (.call t args)) ∧ Program.Comes origin t t' ∧
      args'.length = args.length) ∨
      ∃ struct buffer, rs.lookup (origin k) = some (.construct struct buffer) ∧
        q.shape? t' = some (.type (.named struct)) ∧ args'.length = 1 := by
  cases hlookup : rs.lookup (origin k) with
  | some use =>
    have hmade := (h.node k hk).2
    simp only [hlookup] at hmade
    cases use with
    | read buffer =>
      obtain ⟨o, s, hread, _⟩ := hmade
      cases hcall.symm.trans hread
    | construct struct buffer =>
      obtain ⟨t, r, hmade, ht, _⟩ := hmade
      cases hcall.symm.trans hmade
      exact .inr ⟨struct, buffer, rfl, ht, rfl⟩
  | none =>
    obtain ⟨x, y, hx, hy, hrel⟩ := h.shape hk hlookup
    cases hcall.symm.trans hy
    cases hrel with
    | call ht hargs =>
      refine .inl ⟨_, _, hx, ht, ?_⟩
      rw [Listed.length_eq hargs, List.filter_eq_self.2 fun i hi => by simpa using hds _ _ hx i hi]

/-- A structure of a program that replaces uses is one of the other program without the members that
are left out. -/
theorem Replaces.struct (h : Replaces gs ds rs origin p q) {k : NodeId} {s : Symbol}
    {ms' as' : List NodeId} (hk : origin k ≠ 0)
    (hstruct : q.shape? k = some (.decl (.struct s ms' as'))) :
    ∃ ms as, p.shape? (origin k) = some (.decl (.struct s ms as)) ∧
      ms'.length = (ms.filter (· ∉ ds)).length := by
  cases hlookup : rs.lookup (origin k) with
  | some use =>
    have hmade := (h.node k hk).2
    simp only [hlookup] at hmade
    cases use with
    | read buffer =>
      obtain ⟨o, s, hread, _⟩ := hmade
      cases hstruct.symm.trans hread
    | construct struct buffer =>
      obtain ⟨t, r, hmade, _⟩ := hmade
      cases hstruct.symm.trans hmade
  | none =>
    obtain ⟨x, y, hx, hy, hrel⟩ := h.shape hk hlookup
    cases hstruct.symm.trans hy
    cases hrel with
    | struct hname hms _ =>
      obtain ⟨rfl, _⟩ := hname
      exact ⟨_, _, hx, Listed.length_eq hms⟩

end Replaces

section Plans

variable (he : p.Explained) (hplan : plan.Sensible p)
include he hplan

/-- Arguments of calls stay. -/
theorem not_left_of_call {i : NodeId} (hi : p.inTree i = true) {t : NodeId} {args : List NodeId}
    (hcall : p.shape? i = some (.expr (.call t args))) : ∀ j ∈ args, j ∉ plan.left := by
  intro j hj hleft
  have hparent :=
    (isElement_of_list he.fit he.tree hi hcall (l := args) (by simp [Shape.lists]) hj).2
  obtain ⟨_, x, hx, hplace⟩ := element_of_left he hplan hleft
  rw [hparent, hcall] at hx
  cases hx
  exact hplace

/-- Declarations stay: they are in no list that something is left out of. -/
theorem not_left_of_global {g : NodeId} (hg : g ∈ p.globals) : g ∉ plan.left := by
  intro hleft
  obtain ⟨_, x, hx, hplace⟩ := element_of_left he hplan hleft
  have h0 : g ≠ 0 := Nat.ne_of_gt (he.fit.globals g hg).1
  rw [he.tree.parent p.inTree_root (Program.TreeShaped.mem_children_root hg h0), he.fit.module]
    at hx
  cases hx
  exact hplace

/-- Of the members of a structure, those go away that the plan says. -/
theorem mem_left_of_struct {i : NodeId} (hi : p.inTree i = true) {s : Symbol} {ms as : List NodeId}
    (hstruct : p.shape? i = some (.decl (.struct s ms as))) {j : NodeId} (hj : j ∈ ms) :
    p.parent j = i ∧ (j ∈ plan.left ↔ j ∈ plan.members) := by
  have hparent :=
    (isElement_of_list he.fit he.tree hi hstruct (l := ms) (by simp [Shape.lists]) hj).2
  refine ⟨hparent, fun hleft => ?_,
    fun hmem => List.mem_append_right _ (List.mem_append_left _ hmem)⟩
  obtain ⟨_, x, hx, hplace⟩ := element_of_left he hplan hleft
  rw [hparent, hstruct] at hx
  cases hx
  exact hplace

/-- What goes away as a member is one of its structure. -/
theorem struct_of_mem_members {j : NodeId} (hj : j ∈ plan.members) {s : Symbol}
    {ms as : List NodeId} (hstruct : p.shape? (p.parent j) = some (.decl (.struct s ms as))) :
    j ∈ ms := by
  obtain ⟨d, st, m, hst, _, hm, rfl⟩ := hplan.members j hj
  obtain ⟨_, s', ms', as', hs, hmem, _⟩ := he.hasMember hst hm
  rw [(he.element_of_member (he.hasMember hst hm)).2, hs] at hstruct
  cases hstruct
  exact hmem

omit hplan in
/-- Identifiers and accesses alone are replaced. -/
theorem shape_of_change {x : NodeId × Use} (hx : x ∈ plan.changes p buffer) :
    (∃ s, p.shape? x.1 = some (.expr (.ident s))) ∨ ∃ o s,
      p.shape? x.1 = some (.expr (.member o s)) := by
  rcases List.mem_append.1 hx with hx | hx
  · obtain ⟨param, _, hx⟩ := List.mem_flatMap.1 hx
    obtain ⟨user, huser, rfl⟩ := List.mem_map.1 hx
    obtain ⟨n, v, hv, _, hu⟩ := mem_users he huser
    obtain ⟨_, hident⟩ := he.user hv hu
    unfold DroppedParam.change
    split
    · exact .inl hident
    · next access _ haccess => exact .inr ⟨user, (of_accessAround? haccess).2⟩
    · exact .inl hident
  · obtain ⟨i, hi, rfl⟩ := List.mem_map.1 hx
    obtain ⟨m, hm, _⟩ := (Option.any_eq_true _ _).1 (List.mem_filter.1 hi).2
    obtain ⟨o, s, _, _, _, hs, _⟩ := he.member hm
    exact .inr ⟨o, s, hs⟩

omit he hplan in
theorem mem_changes_of_lookup {i : NodeId} {use : Use}
    (h : (plan.changes p buffer).lookup i = some use) : (i, use) ∈ plan.changes p buffer := by
  obtain ⟨before, after, heq, _⟩ := List.lookup_eq_some_iff.1 h
  exact heq ▸ by simp

omit hplan in
theorem lookup_changes_eq_none {i : NodeId} {x : Shape Symbol NodeId} (hx : p.shape? i = some x)
    (hident : ∀ s, x ≠ .expr (.ident s)) (hmember : ∀ o s, x ≠ .expr (.member o s)) :
    (plan.changes p buffer).lookup i = none := by
  cases hlookup : (plan.changes p buffer).lookup i with
  | none => rfl
  | some use =>
    rcases shape_of_change he (mem_changes_of_lookup hlookup) with ⟨s, hs⟩ | ⟨o, s, hs⟩
    · exact absurd (Option.some.inj (hx.symm.trans hs)) (hident s)
    · exact absurd (Option.some.inj (hx.symm.trans hs)) (hmember o s)

omit he hplan in
/-- Constructors are made for parameters with structures of one member. -/
theorem construct_of_lookup {i : NodeId} {struct buffer' : Symbol}
    (h : (plan.changes p buffer).lookup i = some (.construct struct buffer')) :
    ∃ param ∈ plan.params, ∃ st, param.rebuilt = some st ∧ struct = structName p st := by
  rcases List.mem_append.1 (mem_changes_of_lookup h) with hmem | hmem
  · obtain ⟨param, hparam, hmem⟩ := List.mem_flatMap.1 hmem
    obtain ⟨user, _, hchange⟩ := List.mem_map.1 hmem
    unfold DroppedParam.change at hchange
    split at hchange
    · cases hchange
    · cases hchange
    · next st hst _ =>
      cases hchange
      exact ⟨param, hparam, st, hst, rfl⟩
  · obtain ⟨_, _, hread⟩ := List.mem_map.1 hmem
    cases hread

end Plans

/-- The target of a call stands for the structure: a type or a name does, itself or through
aliases. -/
inductive Denotes (p : Program) (d t : NodeId) : Prop
  | type {x : TypeShape Symbol NodeId} : p.shape? t = some (.type x) →
    StandsFor p.scene d t → Denotes p d t
  | name {s : Symbol} {e : NodeId} : p.shape? t = some (.expr (.ident s)) →
    p.scene.module.find? s = some e →
    StandsFor p.scene d e → Denotes p d t

/-- The call constructs the structure, of some values. -/
def Builds (p : Program) (k d : NodeId) : Prop :=
  IsStruct p.scene d ∧ ∃ t args, p.shape? k = some (.expr (.call t args)) ∧
    args ≠ [] ∧ Denotes p d t

section Names

variable {gs : List NodeId} (hknown : p.Known) (he : p.Explained) (hplan : plan.Sensible p)
  (h : Replaces gs plan.left (plan.changes p buffer) origin p q)
  (hnew : ∀ g ∈ gs, ∀ s, (q.shape? g).bind Shape.declName? = some s →
    ∃ name, q.symbols.Names s name ∧ name ∉ p.symbols.names.toList)

include h in
/-- What no use becomes was not put in the place of one. -/
theorem Replaces.lookup_eq_none {k : NodeId} {y : Shape Symbol NodeId} (hk : origin k ≠ 0)
    (hy : q.shape? k = some y) (hmember : ∀ o s, y ≠ .expr (.member o s))
    (hcall : ∀ t args, y ≠ .expr (.call t args)) :
    (plan.changes p buffer).lookup (origin k) = none := by
  cases hlookup : (plan.changes p buffer).lookup (origin k) with
  | none => rfl
  | some use =>
    have hmade := (h.node k hk).2
    simp only [hlookup] at hmade
    cases use with
    | read buffer =>
      obtain ⟨o, s, hread, _⟩ := hmade
      exact absurd (Option.some.inj (hy.symm.trans hread)) (hmember o s)
    | construct struct buffer =>
      obtain ⟨t, r, hmade, _⟩ := hmade
      exact absurd (Option.some.inj (hy.symm.trans hmade)) (hcall t [r])

include hknown in
/-- A name of the program is none of those that the result has beside them. -/
theorem not_new_of_mem_names {i : NodeId} {x : Shape Symbol NodeId} {s : Symbol}
    (hi : p.inTree i = true) (hx : p.shape? i = some x) (hs : s ∈ x.names)
    (hname : p.symbols.nameFor s = q.symbols.nameFor s) :
    ¬ ∃ name, q.symbols.Names s name ∧ name ∉ p.symbols.names.toList := by
  rintro ⟨name, hq, hnot⟩
  obtain ⟨n, hn, rfl⟩ := Option.map_eq_some_iff.1 hx
  obtain ⟨old, hold⟩ := hknown i n hi hn s hs
  rw [hold.nameFor, hq.nameFor] at hname
  exact hnot (hname ▸ hold.mem)

include he h in
/-- Declarations keep their names. -/
theorem declName?_origin {k : NodeId} (hk : origin k ≠ 0) :
    (p.shape? (origin k)).bind Shape.declName? = (q.shape? k).bind Shape.declName? := by
  cases hlookup : (plan.changes p buffer).lookup (origin k) with
  | none =>
    obtain ⟨x, y, hx, hy, hrel⟩ := h.shape hk hlookup
    rw [hx, hy, Option.bind_some, Option.bind_some]
    cases hrel with
    | value hs | function hs | struct hs | typeAlias hs => exact congrArg some hs.1
    | _ => rfl
  | some use =>
    have hold : (p.shape? (origin k)).bind Shape.declName? = none := by
      rcases shape_of_change he (mem_changes_of_lookup hlookup) with ⟨s, hs⟩ | ⟨o, s, hs⟩ <;>
        rw [show p.shape? (origin k) = _ from hs] <;> rfl
    have hmade := (h.node k hk).2
    simp only [hlookup] at hmade
    rw [hold]
    cases use with
    | read buffer =>
      obtain ⟨o, s, hread, _⟩ := hmade
      rw [hread]
      rfl
    | construct struct buffer =>
      obtain ⟨t, r, hmade, _⟩ := hmade
      rw [hmade]
      rfl

include he hplan h hnew in
/-- A name that is not new stands for what comes from the declaration that it stood for. -/
theorem find?_origin {s : Symbol} {b : NodeId}
    (hs : ¬ ∃ name, q.symbols.Names s name ∧ name ∉ p.symbols.names.toList)
    (hb : q.scene.module.find? s = some b) :
    origin b ≠ 0 ∧ p.scene.module.find? s = some (origin b) := by
  obtain ⟨ys, hys, hlist⟩ := h.globals
  have hpos : ∀ g ∈ p.globals, g ≠ 0 := fun g hg => Nat.ne_of_gt (he.fit.globals g hg).1
  have hfind : ∀ r : Program, r.scene.module.find? s =
      r.globals.find? fun g => (r.shape? g).bind Shape.declName? == some s := by
    intro r
    rw [show r.scene.module = (r.globals.foldl (collect r.toArena) ([], [])).1 from rfl,
      find?_collect]
    rfl
  have hfirst : (gs.find? fun g => (q.shape? g).bind Shape.declName? == some s) = none :=
    List.find?_eq_none.2 fun g hg hname => hs (hnew g hg s (by simpa using hname))
  have hsame : ∀ g ∈ p.globals, ∀ y, Program.Comes origin g y →
      ((p.shape? g).bind Shape.declName? == some s) =
      ((q.shape? y).bind Shape.declName? == some s) := by
    intro g hg y hy
    obtain ⟨h0, rfl⟩ := hy.resolve_left fun hz => hpos g hg hz.1
    rw [declName?_origin he h h0]
  rw [hfind q, hys, List.find?_append, hfirst, Option.none_or] at hb
  obtain ⟨g, hg, hcomes⟩ := hlist.find? (fun g => not_left_of_global he hplan) hsame hb
  obtain ⟨h0, rfl⟩ := hcomes.resolve_left fun hz => hpos g (List.mem_of_find?_eq_some hg) hz.1
  exact ⟨h0, (hfind p).trans hg⟩

include hknown he hplan h hnew in
/-- What a name in a node stands for comes from what it stood for in the node that this one comes
from. -/
theorem find?_named {k b : NodeId} {x : Shape Symbol NodeId} {s : Symbol} (hk : origin k ≠ 0)
    (hx : p.shape? (origin k) = some x) (hs : s ∈ x.names)
    (hname : p.symbols.nameFor s = q.symbols.nameFor s) (hb : q.scene.module.find? s = some b) :
    origin b ≠ 0 ∧ p.scene.module.find? s = some (origin b) :=
  find?_origin he hplan h hnew (not_new_of_mem_names hknown (h.node k hk).1 hx hs hname) hb

include hknown he hplan h hnew in
/-- What stands for a structure comes from what stood for the structure that this one comes from. -/
theorem standsFor_origin {d k : NodeId} (hd : IsStruct q.scene d) (hk : origin k ≠ 0)
    (hstands : StandsFor q.scene d k) : origin d ≠ 0 ∧ StandsFor p.scene (origin d) (origin k) := by
  induction hstands with
  | itself => exact ⟨hk, .itself⟩
  | @name k s b hy hb _ ih =>
    have hy : q.shape? k = _ := hy
    obtain ⟨x, y, hx, hy', hrel⟩ := h.shape hk (h.lookup_eq_none hk hy (by simp) (by simp))
    cases hy.symm.trans hy'
    cases hrel with
    | named hs =>
      obtain ⟨rfl, hname⟩ := hs
      obtain ⟨h0, hfind⟩ :=
        find?_named hknown he hplan h hnew hk hx (by simp [Shape.names]) hname hb
      exact (ih h0).imp_right (.name hx hfind)
  | @typeAlias k s ty hy hty ih =>
    have hy : q.shape? k = _ := hy
    obtain ⟨x, y, hx, hy', hrel⟩ := h.shape hk (h.lookup_eq_none hk hy (by simp) (by simp))
    cases hy.symm.trans hy'
    cases hrel with
    | typeAlias _ hcomes =>
      rcases hcomes with ⟨rfl, rfl⟩ | ⟨h0, rfl⟩
      · -- nothing stands for a structure where there is no node
        obtain ⟨s, ms, as, hd⟩ := hd
        cases hty <;> contradiction
      · exact (ih h0).imp_right (.typeAlias hx)

include hknown he hplan h hnew in
/-- The same for targets of calls. -/
theorem denotes_origin {d t : NodeId} (hd : IsStruct q.scene d) (ht : origin t ≠ 0)
    (hdenotes : Denotes q d t) : origin d ≠ 0 ∧ Denotes p (origin d) (origin t) := by
  cases hdenotes with
  | type hy hstands =>
    obtain ⟨x, y, hx, hy', hrel⟩ := h.shape ht (h.lookup_eq_none ht hy (by simp) (by simp))
    cases hy.symm.trans hy'
    obtain ⟨x, rfl⟩ : ∃ x', x = .type x' := by cases hrel <;> exact ⟨_, rfl⟩
    exact (standsFor_origin hknown he hplan h hnew hd ht hstands).imp_right (.type hx)
  | name hy hfind hstands =>
    obtain ⟨x, y, hx, hy', hrel⟩ := h.shape ht (h.lookup_eq_none ht hy (by simp) (by simp))
    cases hy.symm.trans hy'
    cases hrel with
    | ident hs =>
      obtain ⟨rfl, hname⟩ := hs
      obtain ⟨h0, hfound⟩ :=
        find?_named hknown he hplan h hnew ht hx (by simp [Shape.names]) hname hfind
      exact (standsFor_origin hknown he hplan h hnew hd h0 hstands).imp_right (.name hx hfound)

omit he hplan in
include h in
theorem isStruct_origin {d : NodeId} (h0 : origin d ≠ 0) (hd : IsStruct q.scene d) :
    IsStruct p.scene (origin d) := by
  obtain ⟨s, ms, as, hs⟩ := hd
  obtain ⟨_, _, hs, _⟩ := h.struct h0 hs
  exact ⟨_, _, _, hs⟩

include hknown he hplan h hnew in
/-- What a type of the name of a structure of the program stands for comes from that structure. -/
theorem origin_of_structName
    (hnames : p.globals.foldl (collect p.toArena) ([], []) = (p.scene.module, [])) {g d t : NodeId}
    {s : Symbol} {ms as : List NodeId} (hg : g ∈ p.globals)
    (hs : p.shape? g = some (.decl (.struct s ms as))) (ht : q.shape? t = some (.type (.named s)))
    (hd : IsStruct q.scene d) (hdenotes : Denotes q d t) : origin d = g := by
  obtain ⟨b, hb, hstands⟩ : ∃ b, q.scene.module.find? s = some b ∧ StandsFor q.scene d b := by
    cases hdenotes with
    | name hy => cases ht.symm.trans hy
    | type _ hstands =>
      cases hstands with
      | itself =>
        obtain ⟨_, _, _, hd⟩ := hd
        cases ht.symm.trans hd
      | name hy hb hstands =>
        cases ht.symm.trans hy
        exact ⟨_, hb, hstands⟩
      | typeAlias hy => cases ht.symm.trans hy
  -- the structure is in the result, under the name that it had
  obtain ⟨ys, _, hlist⟩ := h.globals
  obtain ⟨y, _, hcomes⟩ := hlist.exists_of_mem hg (not_left_of_global he hplan hg)
  obtain ⟨h0, rfl⟩ := hcomes.resolve_left fun hz => Nat.ne_of_gt (he.fit.globals g hg).1 hz.1
  obtain ⟨x, z, hx, hz, hrel⟩ := h.shape h0 (lookup_changes_eq_none he hs (by simp) (by simp))
  cases hs.symm.trans hx
  cases hrel with
  | struct hname _ _ =>
    obtain ⟨rfl, hname⟩ := hname
    obtain ⟨hb0, hfind⟩ := find?_named hknown he hplan h hnew h0 hs (by simp [Shape.names]) hname hb
    obtain ⟨s', hs', hfound⟩ := (find?_of_collect hnames).2 _ hg
    obtain rfl : s = s' := by
      simpa [show p.toArena.shape? (origin y) = _ from hs, Shape.declName?] using hs'
    obtain hby : origin b = origin y := Option.some.inj (hfind.symm.trans hfound)
    -- what the name stands for is a structure itself
    obtain ⟨x, z, hx, hz, hrel⟩ :=
      h.shape hb0 (lookup_changes_eq_none he (hby ▸ hs) (by simp) (by simp))
    rw [hby] at hx
    cases hs.symm.trans hx
    cases hrel with
    | struct _ _ _ =>
      cases hstands with
      | itself => exact hby
      | name hy => cases hz.symm.trans hy
      | typeAlias hy => cases hz.symm.trans hy

include hknown he hplan h hnew in
/-- A call of the result constructs what the call that it comes from constructed, or was made for a
use of a parameter and constructs the structure of the parameter, no member of which goes away. -/
theorem builds_origin (hnames : p.globals.foldl (collect p.toArena) ([], []) = (p.scene.module, []))
    {k d : NodeId} (hk : origin k ≠ 0) (hbuilds : Builds q k d) : Builds p (origin k) (origin d) ∨
      ∃ param ∈ plan.params, ∃ st, param.rebuilt = some st ∧ st.decl = origin d ∧
        ∀ i ∈ plan.members, p.parent i ≠ origin d := by
  obtain ⟨hd, t', args', hcall, hargs, hdenotes⟩ := hbuilds
  have hkept : ∀ t args, p.shape? (origin k) = some (.expr (.call t args)) →
      ∀ i ∈ args, i ∉ plan.left :=
    fun t args hs => not_left_of_call he hplan (h.node k hk).1 hs
  rcases h.call hk hcall hkept with ⟨t, args, hs, hcomes, hlength⟩
    | ⟨struct, buffer', hlookup, ht', _⟩
  · left
    have ht0 : t' ≠ 0 := by cases hdenotes with | type hy | name hy =>
      exact Arena.ne_zero_of_shape hy
    obtain ⟨h0, rfl⟩ := hcomes.resolve_left fun hz => ht0 hz.2
    obtain ⟨hd0, hdenotes'⟩ := denotes_origin hknown he hplan h hnew hd h0 hdenotes
    have hargs' : args ≠ [] := by
      rw [← List.length_pos_iff, ← hlength]
      exact List.length_pos_iff.2 hargs
    exact ⟨isStruct_origin h hd0 hd, _, args, hs, hargs', hdenotes'⟩
  · right
    obtain ⟨param, hparam, st, hst, rfl⟩ := construct_of_lookup hlookup
    obtain ⟨v, _, _, hrebuilt⟩ := hplan.params param hparam
    obtain ⟨g, _, _, hstruct, hone⟩ := hrebuilt st hst
    obtain ⟨m, hm⟩ := List.exists_mem_of_length_pos (show 0 < st.members.length by omega)
    obtain ⟨hdecl, s, ms, as, hs⟩ := he.sound.struct hstruct
    obtain ⟨hg, _⟩ := he.hasMember hstruct hm
    have hname : structName p st = s := by
      rw [structName, hdecl, show p.shape? g = _ from hs]
      rfl
    have horigin :=
      origin_of_structName hknown he hplan h hnew hnames hg hs (hname ▸ ht') hd hdenotes
    refine ⟨param, hparam, st, hst, hdecl.trans horigin.symm, fun i hi hparent => ?_⟩
    -- members that go away are of structures with other members
    obtain ⟨g', st', m', hstruct', hmore, hm', rfl⟩ := hplan.members i hi
    rw [(he.element_of_member (he.hasMember hstruct' hm')).2, horigin] at hparent
    subst hparent
    cases hstruct.symm.trans hstruct'
    exact hmore hone

end Names

/-- The call passes as many arguments as the structure has members. -/
def PassesAll (a : Arena) (call struct : NodeId) : Prop :=
  ∃ t args s ms as, a.shape? call = some (.expr (.call t args)) ∧
  a.shape? struct = some (.decl (.struct s ms as)) ∧ args.length = ms.length

/-- Every constructor passes as many values as its structure has members. -/
def Agree (p : Program) : Prop := ∀ k d, p.inTree k = true → Builds p k d → PassesAll p.toArena k d

/-- How calls and structures of the second program come from those of the first one. -/
structure Constructs (p : Program) (origin : NodeId → NodeId) (q : Program) : Prop where
  /-- Calls keep their arguments, and all others construct a structure with one member of one
  value. -/
  call : ∀ k t' args', q.inTree k = true → q.shape? k = some (.expr (.call t' args')) →
    (∃ t args, p.shape? (origin k) = some (.expr (.call t args)) ∧ Program.Comes origin t t' ∧
      args'.length = args.length) ∨
      ∃ param ∈ (planned p).params, ∃ st, param.rebuilt = some st ∧ st.members.length = 1 ∧
        q.shape? t' = some (.type (.named (structName p st))) ∧ args'.length = 1
  /-- Structures keep the members that do not go away, and the only other one has a new name and one
  member. -/
  struct : ∀ k s ms' as', q.inTree k = true → q.shape? k = some (.decl (.struct s ms' as')) →
    (∃ ms as, p.shape? (origin k) = some (.decl (.struct s ms as)) ∧
      ms'.length = (ms.filter (· ∉ (planned p).members)).length) ∨
      (∃ name, q.symbols.Names s name ∧ name ∉ p.symbols.names.toList) ∧ ms'.length = 1
  /-- What a call constructs comes from what the call that it comes from constructed. The others
  construct the structure of a parameter, which no member goes away from. -/
  builds : ∀ k d, q.inTree k = true → Builds q k d → Builds p (origin k) (origin d) ∨
    ∃ param ∈ (planned p).params, ∃ st, param.rebuilt = some st ∧ st.decl = origin d ∧
      ∀ i ∈ (planned p).members, p.parent i ≠ origin d
  /-- A call and a structure that agreed still do if no member of the structure goes away, and only
  then. -/
  agree : ∀ k l, origin k ≠ 0 → origin l ≠ 0 → PassesAll p.toArena (origin k) (origin l) →
    (PassesAll q.toArena k l ↔ ∀ i ∈ (planned p).members, p.parent i ≠ origin l)

theorem constructs_of_replaces {gs : List NodeId} {d : NodeId} (hknown : p.Known) (he : p.Explained)
    (hnames : p.globals.foldl (collect p.toArena) ([], []) = (p.scene.module, []))
    (h : Replaces gs (planned p).left ((planned p).changes p buffer) origin p q)
    (hgs : ∀ g ∈ gs, Inert q.toArena d g)
    (hnew : ∀ g ∈ gs, ∀ s, (q.shape? g).bind Shape.declName? = some s →
      ∃ name, q.symbols.Names s name ∧ name ∉ p.symbols.names.toList)
    (hd : ∀ s ms as, q.shape? d = some (.decl (.struct s ms as)) →
      (∃ name, q.symbols.Names s name ∧ name ∉ p.symbols.names.toList) ∧ ms.length = 1) :
    Constructs p origin q := by
  have hplan := sensible_planned p
  have hcalls : ∀ k t' args', origin k ≠ 0 → q.shape? k = some (.expr (.call t' args')) →
      (∃ t args, p.shape? (origin k) = some (.expr (.call t args)) ∧ Program.Comes origin t t' ∧
        args'.length = args.length) ∨
        ∃ struct buffer', ((planned p).changes p buffer).lookup (origin k) =
          some (.construct struct buffer') ∧
          q.shape? t' = some (.type (.named struct)) ∧
          args'.length = 1 := fun k t' args' hk hcall =>
    h.call hk hcall fun t args hs => not_left_of_call he hplan (h.node k hk).1 hs
  have hstructs : ∀ k s ms' as', origin k ≠ 0 → q.shape? k = some (.decl (.struct s ms' as')) →
      ∃ ms as, p.shape? (origin k) = some (.decl (.struct s ms as)) ∧
        ms'.length = (ms.filter (· ∉ (planned p).members)).length := by
    intro k s ms' as' hk hstruct
    obtain ⟨ms, as, hs, hlength⟩ := h.struct hk hstruct
    refine ⟨ms, as, hs, hlength.trans (congrArg List.length (List.filter_congr fun i hi => ?_))⟩
    simp [(mem_left_of_struct he hplan (h.node k hk).1 hs hi).2]
  refine ⟨fun k t' args' hk hcall => ?_, fun k s ms' as' hk hstruct => ?_, fun k e hk hbuilds => ?_,
    fun k l hk hl hpasses => ?_⟩
  · rcases h.cases hgs hk with rfl | hk | hk
    · rw [h.fit.module] at hcall
      cases hcall
    · refine (hcalls k t' args' hk hcall).imp_right ?_
      rintro ⟨struct, buffer', hlookup, htype, hlength⟩
      obtain ⟨param, hparam, st, hst, rfl⟩ := construct_of_lookup hlookup
      obtain ⟨v, _, _, hrebuilt⟩ := hplan.params param hparam
      obtain ⟨_, _, _, _, hone⟩ := hrebuilt st hst
      exact ⟨param, hparam, st, hst, hone, htype, hlength⟩
    · obtain ⟨hx, hnot, _, _⟩ := hk
      cases hcall.symm.trans hx
      exact absurd rfl (hnot t' args')
  · rcases h.cases hgs hk with rfl | hk | hk
    · rw [h.fit.module] at hstruct
      cases hstruct
    · exact .inl (hstructs k s ms' as' hk hstruct)
    · obtain ⟨hx, _, hone, _⟩ := hk
      cases hstruct.symm.trans hx
      exact .inr (hd s ms' as' (hone s ms' as' rfl ▸ hstruct))
  · rcases h.cases hgs hk with rfl | hk | hk
    · obtain ⟨_, _, _, hcall, _⟩ := hbuilds
      rw [h.fit.module] at hcall
      cases hcall
    · exact builds_origin hknown he hplan h hnew hnames hk hbuilds
    · obtain ⟨_, _, _, hcall, _⟩ := hbuilds
      obtain ⟨hx, hnot, _, _⟩ := hk
      cases hcall.symm.trans hx
      exact absurd rfl (hnot _ _)
  · obtain ⟨t, args, s, ms, as, hcall, hstruct, hlength⟩ := hpasses
    obtain ⟨x, y, hx, hy, hrel⟩ := h.shape hk (lookup_changes_eq_none he hcall (by simp) (by simp))
    cases hcall.symm.trans hx
    cases hrel with
    | @call _ t' _ args' _ hargs =>
    obtain ⟨u, z, hu, hz, hrel⟩ :=
      h.shape hl (lookup_changes_eq_none he hstruct (by simp) (by simp))
    cases hstruct.symm.trans hu
    cases hrel with
    | @struct _ s' _ ms' _ as' _ _ _ =>
    have hcount : args'.length = ms.length := by
      rw [Listed.length_eq hargs, ← hlength,
        List.filter_eq_self.2 fun i hi => by
          simpa using not_left_of_call he hplan (h.node k hk).1 hcall i hi]
    obtain ⟨_, _, hstruct', hcount'⟩ := hstructs l s' ms' as' hl hz
    cases hstruct.symm.trans hstruct'
    have hlt := (h.node l hl).1
    have hparents : (∀ i ∈ ms, i ∉ (planned p).members) ↔ ∀ i ∈ (planned p).members,
        p.parent i ≠ origin l := by
      constructor
      · intro hnone i hi hparent
        exact hnone i (struct_of_mem_members he hplan hi (hparent ▸ hstruct)) hi
      · intro hnone i hi hmem
        exact hnone i hmem (mem_left_of_struct he hplan hlt hstruct hi).1
    rw [← hparents]
    constructor
    · rintro ⟨_, args'', _, ms'', _, hcall'', hstruct'', hpasses⟩
      cases hy.symm.trans hcall''
      cases hz.symm.trans hstruct''
      have hall :=
        List.length_filter_eq_length_iff.1 (hcount'.symm.trans (hpasses.symm.trans hcount))
      exact fun i hi => by simpa using hall i hi
    · intro hnone
      refine ⟨t', args', s, ms', as', hy, hz, ?_⟩
      rw [hcount', hcount, List.filter_eq_self.2 fun i hi => by simpa using hnone i hi]

/-- A call of the result that constructs what was constructed before agrees with its structure just
if that loses no member, if all constructors agreed with theirs. -/
theorem Constructs.passesAll_iff {gs ds : List NodeId} {rs : List (NodeId × Use)}
    (hc : Constructs p origin q) (h : Replaces gs ds rs origin p q) (hagree : Agree p)
    {k d : NodeId} (hbuilds : Builds p (origin k) (origin d)) :
    PassesAll q.toArena k d ↔ ∀ i ∈ (planned p).members, p.parent i ≠ origin d := by
  have hd : origin d ≠ 0 := by
    obtain ⟨⟨_, _, _, hd⟩, _⟩ := hbuilds
    exact Arena.ne_zero_of_shape hd
  have hk : origin k ≠ 0 := by
    obtain ⟨_, _, _, hk, _⟩ := hbuilds
    exact Arena.ne_zero_of_shape hk
  exact hc.agree k d hk hd (hagree _ _ (h.node k hk).1 hbuilds)

theorem apply_constructs {m : Document.Module} (h : m.decode = .ok p) (hv : p.valid = true)
    {inputs : Data} {point : BindingPoint} (hpoint : inputs.get? .numWorkgroups = some point) :
    ∃ q origin gs buffer, pass.apply p inputs = .ok ⟨q, {}⟩ ∧
      Replaces gs (planned p).left ((planned p).changes p buffer) origin p q ∧
      Constructs p origin q := by
  obtain ⟨b, hgood, hknown, _, _, rfl⟩ := Document.decode_good h
  have hp := hgood.toFit.build
  have he := Program.explained_build hv hgood.toFit (hp.treeShaped (hgood.counted_build trivial))
  have hnames := (Program.wellTyped_build hv).names
  by_cases hsome : ∃ v ∈ computeParams b.build, takesNumber b.build v = true
  · obtain ⟨s, x, origin, hwork, hcopied, hrereads⟩ := work_rereads hp hknown.build he hpoint hsome
    refine ⟨_, origin, _, _, perform_ok hv hwork hcopied, hrereads.toReplaces,
      constructs_of_replaces hknown.build he hnames hrereads.toReplaces hrereads.declared.inert
      hrereads.declared.new ?_⟩
    intro s ms as hs
    cases hrereads.declared.decl.symm.trans hs
    exact ⟨hrereads.declared.struct, rfl⟩
  · obtain ⟨s, origin, hwork, hcopied, hreplaces⟩ :=
      work_plain hp hknown.build hpoint (by simpa using hsome)
    have hnil : planned b.build = {} := planned_eq_nil (by simpa using hsome)
    have hchanges : (planned b.build).changes b.build 0 = [] := by
      simp [hnil, Plan.changes, Plan.selects]
    have hleft : (planned b.build).left = [] := by simp [hnil, Plan.left]
    have hreplaces : Replaces [] (planned b.build).left ((planned b.build).changes b.build 0) origin
        b.build s.target.build := by
      rw [hleft, hchanges]
      exact hreplaces
    exact ⟨_, origin, _, _, perform_ok hv hwork hcopied, hreplaces,
      constructs_of_replaces (d := 0) hknown.build he hnames hreplaces
      (fun _ hg => absurd hg List.not_mem_nil)
        (fun _ hg => absurd hg List.not_mem_nil) (by simp [Arena.shape?])⟩

/-- The result replaces uses in the program, and its calls and structures come from those of the
program: a call constructs what the one that it comes from constructed, by its own name or an alias,
or was made for a use of a parameter. If all constructors agreed with their structures, one of them
agrees with it afterwards if, and only if, the structure loses no member. -/
theorem constructors_follow {m : Document.Module} (h : m.decode = .ok p) (hv : p.valid = true)
    {inputs : Data} {point : BindingPoint} (hpoint : inputs.get? .numWorkgroups = some point) :
    ∃ q origin, pass.apply p inputs = .ok ⟨q, {}⟩ ∧
      (∃ gs buffer, Replaces gs (planned p).left ((planned p).changes p buffer) origin p q) ∧
      Constructs p origin q ∧
      (Agree p → ∀ k d, Builds p (origin k) (origin d) →
        (PassesAll q.toArena k d ↔ ∀ i ∈ (planned p).members, p.parent i ≠ origin d)) := by
  obtain ⟨q, origin, gs, buffer, happly, hreplaces, hconstructs⟩ := apply_constructs h hv hpoint
  exact ⟨q, origin, happly, ⟨gs, buffer, hreplaces⟩, hconstructs,
    fun hagree k d hbuilds => hconstructs.passesAll_iff hreplaces hagree hbuilds⟩

theorem constructors_follow_copying :
    ∃ p q origin, copying.decode = .ok p ∧ p.valid = true ∧ (planned p).members.length = 1 ∧
    pass.apply p (Exchange.put {} .numWorkgroups ⟨0, 1⟩) = .ok ⟨q, {}⟩ ∧ Constructs p origin q := by
  have hok : (copying.decode.toOption.any fun p => p.valid && (planned p).members.length == 1) =
      true := by decide +kernel
  cases hp : copying.decode with
  | error e => simp [hp, Except.toOption] at hok
  | ok p =>
    simp only [hp, Except.toOption, Option.any_some, Bool.and_eq_true, beq_iff_eq] at hok
    have hpoint : (Exchange.put {} .numWorkgroups ⟨0, 1⟩ : Data).get? .numWorkgroups =
        some ⟨0, 1⟩ := rfl
    obtain ⟨q, origin, happly, _, hconstructs, _⟩ := constructors_follow hp hok.1 hpoint
    exact ⟨p, q, origin, rfl, hok.1, hok.2, happly, hconstructs⟩

end Workgroups
end ShaderLoom
