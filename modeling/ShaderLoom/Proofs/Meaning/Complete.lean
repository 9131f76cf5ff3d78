import Mathlib.Data.List.Nodup
import Mathlib.Data.List.Perm.Subperm
import ShaderLoom.Proofs.Meaning.Tables
import ShaderLoom.Proofs.TreeShape

/-! Resolution finds no problem in a well typed module, and it leaves the tables that the rules end
with. What has to be shown beyond the rules themselves is that it never goes as deep as its bound:
types pass through pending declarations, which are all different, and expressions through
initializers, which do not lead back to themselves. -/
namespace ShaderLoom.Resolve

variable {α β ι : Type}

/-- Where the nodes of a module lie: parts deeper than what they are part of, and nothing deeper
than there are nodes. -/
structure Charted (c : Scene) (tree : NodeId → Prop) (rank : NodeId → Nat) (gs : List NodeId)
    (L : Nat) : Prop where
  child : ∀ {i k}, tree i → k ∈ c.arena.children i → tree k ∧ rank i < rank k
  le : ∀ i, rank i ≤ L
  module : ∀ {s d}, c.module.find? s = some d → d ∈ gs
  globals : ∀ d ∈ gs, tree d
  few : gs.length ≤ L
  nodes : ∀ S : List NodeId, S.Nodup → (∀ i ∈ S, tree i) → S.length ≤ L
  fuel : c.fuel = (L + 2) * (L + 2)

section

variable {c : Scene} {tree : NodeId → Prop} {rank : NodeId → Nat} {gs : List NodeId} {L : Nat}
  {F : NodeId → ExprFacts → Prop}

/-- A child that is not absent. -/
theorem Charted.slot (hc : Charted c tree rank gs L) {i k : NodeId} {s : Shape Symbol NodeId}
    (hi : tree i) (hs : c.arena.shape? i = some s) (hk : k ∈ s.slots) :
    k = 0 ∨ (tree k ∧ rank i < rank k) := by
  by_cases h0 : k = 0
  · exact .inl h0
  · obtain ⟨n, hn, rfl⟩ := Option.map_eq_some_iff.1 hs
    exact .inr (hc.child hi (Arena.mem_children.2 ⟨n, hn, hk, h0⟩))

/-- How deep types may still go while some declarations are pending. -/
def room (gs : List NodeId) (L : Nat) (P : List NodeId) : Nat := (gs.length - P.length) * (L + 2)

theorem room_cons {P : List NodeId} {d : NodeId} (hP : ∀ x ∈ P, x ∈ gs) (hnodup : P.Nodup)
    (hd : d ∈ gs) (hnot : d ∉ P) : room gs L P = room gs L (d :: P) + (L + 2) := by
  have hsub : (d :: P) ⊆ gs := by
    intro x hx
    rcases List.mem_cons.1 hx with rfl | hx
    · exact hd
    · exact hP x hx
  have hlen := ((List.nodup_cons.2 ⟨hnot, hnodup⟩).subperm hsub).length_le
  rw [List.length_cons] at hlen
  obtain ⟨k, hk⟩ : ∃ k, gs.length - P.length = k + 1 := ⟨gs.length - P.length - 1, by omega⟩
  have hk' : gs.length - (d :: P).length = k := by
    rw [List.length_cons]
    omega
  rw [room, room, hk, hk', Nat.succ_mul]

/-- The bound is large enough for a type node. -/
def Shallow (tree : NodeId → Prop) (rank : NodeId → Nat) (gs : List NodeId) (L : Nat)
    (P : List NodeId) (i : NodeId) (n : Nat) : Prop :=
  (i = 0 ∧ 1 ≤ n) ∨ (tree i ∧ room gs L P + (L - rank i) + 2 ≤ n)

theorem Charted.shallow_slot (hc : Charted c tree rank gs L) {P : List NodeId} {i k n : NodeId}
    {s : Shape Symbol NodeId} (hi : Shallow tree rank gs L P i (n + 1))
    (hs : c.arena.shape? i = some s) (hk : k ∈ s.slots) : Shallow tree rank gs L P k n := by
  have h0 : i ≠ 0 := by
    rintro rfl
    cases hs
  obtain ⟨htree, hn⟩ := hi.resolve_left fun h => h0 h.1
  rcases hc.slot htree hs hk with rfl | ⟨hk, hlt⟩
  · exact .inl ⟨rfl, by omega⟩
  · have := hc.le k
    exact .inr ⟨hk, by omega⟩

/-- What is to be found about types, and the bound that is large enough for it. -/
def TypeFound (c : Scene) (tree : NodeId → Prop) (rank : NodeId → Nat) (gs : List NodeId) (L : Nat)
    (P : List NodeId) (r : Resolver) (T' : Table) : TypeFinding → Prop
  | .node i t => ∀ n, Shallow tree rank gs L P i n →
    Finds (type c n i) r fun u r' => u = t ∧ Steady r r' ∧ r'.facts.table = T'
  | .decl d t => d ∈ gs → ∀ n, room gs L P + 1 ≤ n →
    Finds (typeDecl c n d) r fun u r' => u = t ∧ Steady r r' ∧ r'.facts.table = T'
  | .members ms found => (∀ m ∈ ms, m.1 = 0 ∨ tree m.1) → ∀ n, room gs L P + (L + 2) ≤ n →
    Finds (ms.filterMapM fun (m, k) => memberFacts c (type c n) m k) r fun fs r' =>
      fs = found ∧ Steady r r' ∧ r'.facts.table = T'

/-- A declaration that is met for the first time is pending until its type is found. -/
theorem finds_typeDecl {n : Nat} {d : NodeId} {r : Resolver} {t : Option Ty} {T' : Table}
    (hnone : r.facts.table.types d = none) (hnot : d ∉ r.pending)
    (h : Finds (declared c (type c n) d) { r with pending := d :: r.pending } fun u r' =>
      u = t ∧ Steady { r with pending := d :: r.pending } r' ∧ r'.facts.table = T') :
    Finds (typeDecl c (n + 1) d) r fun u r' => u = t ∧ Steady r r' ∧ r'.facts.table = T' := by
  have hnone : r.facts.types[d]? = none := hnone
  have hpending : r.pending.contains d = false := by simpa using hnot
  unfold typeDecl
  refine .get ?_
  simp only [hnone, hpending, Bool.false_eq_true, if_false]
  refine (finds_pend d).bind fun _ r₁ h₁ => ?_
  subst h₁
  refine h.bind fun u r₂ h₂ => (finds_settle d).bind fun _ r₃ h₃ => .pure ⟨h₂.1, ?_, ?_⟩
  · subst h₃
    exact ⟨by simp [h₂.2.1.pending], h₂.2.1.frames⟩
  · rw [h₃, ← h₂.2.2]

theorem finds_types (hc : Charted c tree rank gs L) {P : List NodeId} {T T' : Table}
    {f : TypeFinding} (h : Typing c.arena c.module P T f T') (hP : ∀ x ∈ P, x ∈ gs)
    (hnodup : P.Nodup) (r : Resolver) (hp : r.pending = P) (ht : r.facts.table = T) :
    TypeFound c tree rank gs L P r T' f := by
  have hpos : ∀ {P i n}, Shallow tree rank gs L P i n → ∃ k, n = k + 1 := by
    rintro P i n (⟨_, h⟩ | ⟨_, h⟩)
    · exact ⟨n - 1, by omega⟩
    · exact ⟨n - 1, by omega⟩
  have hne : ∀ {i x}, c.arena.shape? i = some x → i ≠ 0 := by
    rintro i x hx rfl
    cases hx
  induction h generalizing r with
  | absent =>
    intro n hn
    obtain ⟨n, rfl⟩ := hpos hn
    unfold type
    rw [if_pos rfl]
    exact .pure ⟨rfl, .refl r, ht⟩
  | @plain P T i x t hx hplain =>
    intro n hn
    obtain ⟨n, rfl⟩ := hpos hn
    unfold type
    rw [if_neg (hne hx), hx, ← ht]
    cases x <;> cases hplain <;> exact finds_keepType i _
  | @around P T T' i x e f t hx haround _ ih =>
    intro n hn
    obtain ⟨n, rfl⟩ := hpos hn
    have hslot : e ∈ (Shape.type x : Shape Symbol NodeId).slots := by
      cases x <;> simp_all [TypeShape.around?, Shape.slots]
    have hfind : Finds (do keepType i ((← type c n e).map f)) r fun u r' =>
        u = t.map f ∧ Steady r r' ∧ r'.facts.table = T'.keepType i (t.map f) := by
      refine Finds.bind (ih hP hnodup r hp ht n (hc.shallow_slot hn hx hslot)) fun u r₁ h₁ => ?_
      rw [h₁.1, ← h₁.2.2]
      exact (finds_keepType i (t.map f)).mono fun v r₂ h₂ => ⟨h₂.1, h₁.2.1.trans h₂.2.1, h₂.2.2⟩
    unfold type
    rw [if_neg (hne hx), hx]
    cases x <;> cases haround <;> exact hfind
  | @named P T T' i s d t hs hfind hd _ ih =>
    intro n hn
    obtain ⟨n, rfl⟩ := hpos hn
    have hroom : room gs L P + 1 ≤ n := by
      have := hn.resolve_left fun h => hne hs h.1
      omega
    unfold type
    rw [if_neg (hne hs), hs]
    simp only [hfind, hd, if_true]
    refine (finds_setName i d).bind fun _ r₁ h₁ => ?_
    refine Finds.bind (ih hP hnodup r₁ (h₁.1.pending.trans hp) (by rw [h₁.2, ht]) (hc.module hfind)
      n hroom) fun u r₂ h₂ => ?_
    rw [h₂.1, ← h₂.2.2]
    exact (finds_keepType i t).mono fun v r₃ h₃ => ⟨h₃.1, h₁.1.trans (h₂.2.1.trans h₃.2.1), h₃.2.2⟩
  | @known P T d t hknown =>
    intro _ n hn
    obtain ⟨n, rfl⟩ : ∃ k, n = k + 1 := ⟨n - 1, by omega⟩
    have hknown : r.facts.types[d]? = some t := by rwa [← ht] at hknown
    unfold typeDecl
    refine .get ?_
    simp only [hknown]
    exact .pure ⟨rfl, .refl r, ht⟩
  | @struct P T T' d s ms as found hs hnone hnot _ ih =>
    intro hd n hn
    obtain ⟨n, rfl⟩ : ∃ k, n = k + 1 := ⟨n - 1, by omega⟩
    have hroom := room_cons (L := L) hP hnodup hd hnot
    refine finds_typeDecl (by rw [ht, hnone]) (hp ▸ hnot) ?_
    unfold declared
    rw [hs]
    refine (finds_openStruct d _).bind fun _ r₂ h₂ => ?_
    refine Finds.bind
      (ih (by simpa using ⟨hd, hP⟩) (List.nodup_cons.2 ⟨hnot, hnodup⟩) r₂ ?_ ?_ ?_ n (by omega))
      fun fs r₃ h₃ => ?_
    · rw [h₂.1.pending, hp]
    · rw [h₂.2, ← ht]
    · rintro ⟨m, k⟩ hm
      have hmem : m ∈ (Shape.decl (.struct s ms as) : Shape Symbol NodeId).slots :=
        List.mem_append.2 (.inr (List.mem_of_getElem? (List.mem_zipIdx_iff_getElem?.1 hm)))
      exact (hc.slot (hc.globals d hd) hs hmem).imp_right And.left
    rw [h₃.1]
    refine (finds_setStruct d _).bind fun _ r₄ h₄ => .pure ⟨rfl, h₂.1.trans (h₃.2.1.trans h₄.1), ?_⟩
    rw [h₄.2, h₃.2.2]
  | @typeAlias P T T' d s ty t hs hnone hnot _ ih =>
    intro hd n hn
    obtain ⟨n, rfl⟩ : ∃ k, n = k + 1 := ⟨n - 1, by omega⟩
    have hroom := room_cons (L := L) hP hnodup hd hnot
    have hshallow : Shallow tree rank gs L (d :: P) ty n := by
      rcases hc.slot (hc.globals d hd) hs (List.mem_singleton.2 rfl : ty ∈ [ty]) with h | h
      · exact .inl ⟨h, by omega⟩
      · exact .inr ⟨h.1, by omega⟩
    refine finds_typeDecl (by rw [ht, hnone]) (hp ▸ hnot) ?_
    unfold declared
    rw [hs]
    refine Finds.bind (ih (by simpa using ⟨hd, hP⟩) (List.nodup_cons.2 ⟨hnot, hnodup⟩)
      { r with pending := d :: r.pending } (congrArg (d :: ·) hp) ht n hshallow) fun u r₂ h₂ => ?_
    rw [h₂.1, ← h₂.2.2]
    exact (finds_keepType d t).mono fun v r₃ h₃ => ⟨h₃.1, h₂.2.1.trans h₃.2.1, h₃.2.2⟩
  | nil =>
    intro _ n _
    exact .pure ⟨rfl, .refl r, ht⟩
  | @member P T T₁ T₂ m k s ty as t ms found hs _ _ ih₁ ih₂ =>
    intro hms n hn
    have hm := (hms (m, k) List.mem_cons_self).resolve_left (hne hs)
    have hshallow : Shallow tree rank gs L P ty n := by
      rcases hc.slot hm hs (List.mem_append.2 (.inr (List.mem_singleton.2 rfl)) : ty ∈ as ++ [ty])
        with h | h
      · exact .inl ⟨h, by omega⟩
      · exact .inr ⟨h.1, by omega⟩
    rw [List.filterMapM_cons]
    refine Finds.bind
      (P := fun o r₁ =>
        o = some { decl := m, name := c.arena.nameOf s, type := t, index := k,
                   builtin := c.arena.builtinOf as } ∧
      Steady r r₁ ∧ r₁.facts.table = T₁) ?_ fun o r₁ h₁ => ?_
    · dsimp only
      unfold memberFacts
      rw [hs]
      refine Finds.bind (ih₁ hP hnodup r hp ht n hshallow) fun u r₁ h₁ => .pure ⟨?_, h₁.2⟩
      rw [h₁.1]
    · rw [h₁.1]
      refine Finds.bind (ih₂ hP hnodup r₁ (h₁.2.1.pending.trans hp) h₁.2.2
        (fun x hx => hms x (List.mem_cons_of_mem _ hx)) n hn)
        fun fs r₂ h₂ => .pure ⟨?_, h₁.2.1.trans h₂.2.1, h₂.2.2⟩
      rw [h₂.1]
  | @stray P T T' m k ms found hm _ ih =>
    intro hms n hn
    rw [List.filterMapM_cons]
    refine Finds.bind (P := fun o r₁ => o = none ∧ r₁ = r) ?_ fun o r₁ h₁ => ?_
    · dsimp only
      unfold memberFacts
      split
      · next hs => simp [hs, Shape.isStructMember] at hm
      · exact .pure ⟨rfl, rfl⟩
    · obtain ⟨rfl, rfl⟩ := h₁
      exact ih hP hnodup r₁ hp ht (fun x hx => hms x (List.mem_cons_of_mem _ hx)) n hn

theorem Finds.single {f : ι → Resolve β} {x : ι} {r : Resolver} {P : List β → Resolver → Prop}
    {Q : α → Resolver → Prop} {k : β → Resolve α} (h : Finds ([x].mapM f) r P)
    (hk : ∀ y r₁, P [y] r₁ → Finds (k y) r₁ Q) : Finds (f x >>= k) r Q := by
  refine Finds.bind (P := fun y r₁ => P [y] r₁) ?_ hk
  unfold Finds Ends at h ⊢
  exact h

theorem Finds.pair {f : ι → Resolve β} {x y : ι} {r : Resolver} {P : List β → Resolver → Prop}
    {Q : α → Resolver → Prop} {k : β → β → Resolve α} (h : Finds ([x, y].mapM f) r P)
    (hk : ∀ u v r₁, P [u, v] r₁ → Finds (k u v) r₁ Q) :
    Finds (do let u ← f x; let v ← f y; k u v) r Q := by
  have hboth : Finds (do let u ← f x; let v ← f y; return (u, v)) r fun z r₁ =>
      P [z.1, z.2] r₁ := by
    unfold Finds Ends at h ⊢
    exact h
  have hsplit : (do let u ← f x; let v ← f y; k u v) =
      (do let u ← f x; let v ← f y; return (u, v)) >>= fun z => k z.1 z.2 := by
    simp
  rw [hsplit]
  exact hboth.bind fun z r₁ h₁ => hk z.1 z.2 r₁ h₁

/-- What is to be found about expressions at a bound. -/
def ExprFound (c : Scene) (n : Nat) (r : Resolver) (T' : Table) : ExprFinding → Prop
  | .one e t => Finds (expr c n e) r fun u r' => u = t ∧ Steady r r' ∧ r'.facts.table = T'
  | .all es ts =>
    Finds (es.mapM (expr c n)) r fun us r' => us = ts ∧ Steady r r' ∧ r'.facts.table = T'

/-- The bound is large enough for types wherever they are met outside of types. -/
theorem Charted.shallow (hc : Charted c tree rank gs L) {i : NodeId} (hi : i = 0 ∨ tree i) :
    Shallow tree rank gs L [] i c.fuel := by
  have hroom : room gs L [] + (L + 2) ≤ c.fuel := by
    rw [hc.fuel, room, List.length_nil, Nat.sub_zero, ← Nat.succ_mul]
    exact Nat.mul_le_mul_right _ (Nat.le_succ_of_le (Nat.succ_le_succ hc.few))
  rcases hi with h | h
  · exact .inl ⟨h, by omega⟩
  · exact .inr ⟨h, by omega⟩

theorem Charted.room_lt (hc : Charted c tree rank gs L) : room gs L [] + 1 ≤ c.fuel := by
  have : room gs L [] + (L + 2) ≤ c.fuel := by
    rw [hc.fuel, room, List.length_nil, Nat.sub_zero, ← Nat.succ_mul]
    exact Nat.mul_le_mul_right _ (Nat.le_succ_of_le (Nat.succ_le_succ hc.few))
  omega

theorem finds_variableType (hc : Charted c tree rank gs L) {d : NodeId}
    {v : VariableShape Symbol NodeId} {t₀ t : Option Ty} {T T' : Table}
    (h : Valued c.arena c.module v t₀ T t T') (hd : tree d) (hv : c.arena.asVariable? d = some v)
    (r : Resolver) (hp : r.pending = []) (ht : r.facts.table = T) :
    Finds (variableType c d v t₀) r fun u r' => u = t ∧ Steady r r' ∧ r'.facts.table = T' := by
  unfold variableType
  cases h with
  | named hne h =>
    rw [if_pos hne]
    have htype := (hc.slot hd (Arena.shape?_of_asVariable? hv) (k := v.type)
      (by simp [Shape.slots])).imp_right And.left
    exact finds_types hc h (by simp) .nil r hp ht c.fuel (hc.shallow htype)
  | inferred hzero hne =>
    rw [if_neg (by simpa using hzero), if_pos hne]
    exact .pure ⟨rfl, .refl r, ht⟩

theorem finds_makeVariable {d : NodeId} {v : VariableShape Symbol NodeId} {scope : VariableScope}
    {t : Option Ty} {Γ : List Frame} (r : Resolver)
    (h : declareAs scope r.frames v.name d = some Γ) :
    Finds (makeVariable c d v scope t) r fun made r' => made = some r.facts.table.size ∧
      r'.pending = r.pending ∧
      r'.frames = Γ ∧ r'.facts.table = r.facts.table.addValue d t := by
  unfold makeVariable
  unfold declareAs at h
  split
  · next hlocal =>
    rw [if_neg hlocal] at h
    refine (finds_declareLocal v.name d).bind fun new r₁ h₁ => ?_
    cases new with
    | true =>
      refine (finds_addVariable c.arena d v scope t).mono fun made r₂ h₂ =>
        ⟨?_, h₂.2.1.pending.trans h₁.1, ?_, ?_⟩
      · rw [h₂.1, h₁.2.1]
      · rcases h₁.2.2 with h' | h'
        · rw [h₂.2.1.frames, Option.some.inj (h.symm.trans h'.2)]
        · cases h'.1
      · rw [h₂.2.2, h₁.2.1]
    | false =>
      rcases h₁.2.2 with h' | h'
      · cases h'.1
      · rw [h] at h'
        cases h'.2
  · next hglobal =>
    rw [if_pos (by simpa using hglobal)] at h
    refine (finds_addVariable c.arena d v scope t).mono fun made r' h' =>
      ⟨h'.1, h'.2.1.pending, ?_, h'.2.2⟩
    rw [h'.2.1.frames, Option.some.inj h]

theorem mem_slots_of_operands {x : ExprShape Symbol NodeId} {e : NodeId} (h : e ∈ x.operands) :
    e ∈ (Shape.expr x : Shape Symbol NodeId).slots := by
  cases x <;> simp_all [ExprShape.operands, Shape.slots]

theorem Charted.initializer (hc : Charted c tree rank gs L) {d : NodeId}
    {v : VariableShape Symbol NodeId} (hv : c.arena.asVariable? d = some v) (hd : tree d) :
    v.initializer = 0 ∨ tree v.initializer :=
  (hc.slot hd (Arena.shape?_of_asVariable? hv) (by simp [Shape.slots])).imp_right And.left

theorem finds_callTarget (hc : Charted c tree rank gs L) {i g stmt : NodeId} {k : Callee}
    {ts : List (Option Ty)} {T T' : Table} (h : Calling c.arena c.module T g k T')
    (hg : g = 0 ∨ tree g) (r : Resolver) (hp : r.pending = []) (ht : r.facts.table = T) :
    Finds (callTarget c i { stmt } g ts) r fun u r' =>
      u = (k.sense ts).type ∧ Steady r r' ∧ r'.facts.table = T'.note i (k.sense ts) := by
  unfold callTarget
  cases h with
  | @typed _ _ x t hx h =>
    rw [hx]
    refine Finds.bind (finds_types hc h (by simp) .nil r hp ht c.fuel (hc.shallow hg))
      fun u r₁ h₁ => ?_
    rw [h₁.1, ← h₁.2.2]
    exact (finds_finish i { type := t, stmt }).mono fun u r₂ h₂ =>
      ⟨h₂.1, h₁.2.1.trans h₂.2.1, h₂.2.2⟩
  | @declared _ _ s d t hs hd hdecl h =>
    have hfind : Finds (do finish i { type := ← typeDecl c c.fuel d, stmt }) r fun u r' =>
        u = t ∧ Steady r r' ∧ r'.facts.table = T'.note i { type := t } := by
      refine Finds.bind (finds_types hc h (by simp) .nil r hp ht (hc.module hd) c.fuel hc.room_lt)
        fun u r₁ h₁ => ?_
      rw [h₁.1, ← h₁.2.2]
      exact (finds_finish i { type := t, stmt }).mono fun u r₂ h₂ =>
        ⟨h₂.1, h₁.2.1.trans h₂.2.1, h₂.2.2⟩
    rw [hs]
    simp only [hd]
    rcases Arena.shape?_of_isTypeDecl hdecl with ⟨_, _, _, hx⟩ | ⟨_, _, hx⟩
    · rw [hx]
      exact hfind
    · rw [hx]
      exact hfind
  | @function _ s d f t hs hd hf hres =>
    rw [hs]
    simp only [hd]
    rw [Arena.shape?_of_function? hf]
    dsimp only
    unfold callFunction
    refine .get ?_
    rw [← ht] at hres
    obtain ⟨y, hy, rfl⟩ := Option.map_eq_some_iff.1 hres
    rw [hy]
    refine (finds_finish i { target := some d, type := y.returnType, stmt }).bind fun u r₁ h₁ =>
      (finds_useCallee d).bind fun _ r₂ h₂ => .pure ⟨h₁.1, h₁.2.1.trans h₂.1, ?_⟩
    rw [h₂.2, h₁.2.2, ht]
    rfl
  | @builtin _ s rule hs hnot hrule =>
    have hfind : Finds (callBuiltin c i { stmt } (c.arena.nameOf s) ts) r fun u r' =>
        u = rule.result ts ∧ Steady r r' ∧
        r'.facts.table = T.note i { builtin := c.arena.nameOf s, type := rule.result ts } := by
      unfold callBuiltin
      rw [hrule, ← ht]
      exact finds_finish i { builtin := c.arena.nameOf s, type := rule.result ts, stmt }
    rw [hs]
    dsimp only
    split
    · exact hfind
    · next d hd =>
      obtain ⟨hdecl, hfun⟩ := hnot d hd
      split
      · next h => simp [Arena.function?, h, Shape.function?] at hfun
      · next h => simp [h, Shape.isTypeDecl] at hdecl
      · next h => simp [h, Shape.isTypeDecl] at hdecl
      · exact hfind

theorem finds_expressions (hc : Charted c tree rank gs L) {Γ : List Frame} {T T' : Table}
    {f : ExprFinding} (h : Sensing c.arena c.module F Γ T f T') (hlocal : LocalsKnown Γ T)
    (r : Resolver) (hp : r.pending = []) (hΓ : r.frames = Γ) (ht : r.facts.table = T)
    (S : List NodeId) (hnodup : S.Nodup) (hS : ∀ y ∈ S, tree y)
    (hlead : ∀ y ∈ S, ∀ e ∈ f.nodes, Relation.TransGen (Leads c.arena c.module) y e)
    (htree : ∀ e ∈ f.nodes, e = 0 ∨ tree e) (hg : ∀ e ∈ f.nodes, Grounded c.arena c.module e)
    (n : Nat) (hn : 2 * (L - S.length) + 2 ≤ n) : ExprFound c n r T' f := by
  have hne : ∀ {i x}, c.arena.shape? i = some x → i ≠ 0 := by
    rintro i x hx rfl
    cases hx
  -- a node is not among those that lead to it, so that it makes one more of them
  have hstep : ∀ {i x : NodeId} {S : List NodeId} {n : Nat} {s : Shape Symbol NodeId},
      S.Nodup → (∀ y ∈ S, tree y) →
      (∀ y ∈ S, ∀ e ∈ [i], Relation.TransGen (Leads c.arena c.module) y e) →
      (∀ e ∈ [i], e = 0 ∨ tree e) →
      (∀ e ∈ [i], Grounded c.arena c.module e) → 2 * (L - S.length) + 2 ≤ n →
      c.arena.shape? i = some s →
      ∃ k, n = k + 2 ∧ 2 * (L - (i :: S).length) + 2 ≤ k ∧ (i :: S).Nodup ∧
        (∀ y ∈ i :: S, tree y) := by
    intro i x S n s hnodup hS hlead htree hg hn hs
    have hi := (htree i (List.mem_singleton.2 rfl)).resolve_left (hne hs)
    have hnot : i ∉ S := fun h =>
      not_lead_back (hg i (List.mem_singleton.2 rfl)) (hlead i h i (List.mem_singleton.2 rfl))
    have hnodup' := List.nodup_cons.2 ⟨hnot, hnodup⟩
    have htree' : ∀ y ∈ i :: S, tree y := List.forall_mem_cons.2 ⟨hi, hS⟩
    have hlen := hc.nodes _ hnodup' htree'
    rw [List.length_cons] at hlen
    refine ⟨n - 2, by omega, ?_, hnodup', htree'⟩
    rw [List.length_cons]
    omega
  have hleads : ∀ {i x : NodeId} {S : List NodeId},
      (∀ y ∈ S, ∀ e ∈ [i], Relation.TransGen (Leads c.arena c.module) y e) →
      Leads c.arena c.module i x → ∀ y ∈ i :: S,
        Relation.TransGen (Leads c.arena c.module) y x := by
    intro i x S hlead hx y hy
    rcases List.mem_cons.1 hy with rfl | hy
    · exact .single hx
    · exact (hlead y hy i (List.mem_singleton.2 rfl)).tail hx
  induction h generalizing r S n with
  | absent =>
    obtain ⟨n, rfl⟩ : ∃ k, n = k + 1 := ⟨n - 1, by omega⟩
    rw [ExprFound, expr, if_pos rfl]
    exact .pure ⟨rfl, .refl r, ht⟩
  | @known T i s d m hs hd hm _ =>
    obtain ⟨n, rfl⟩ : ∃ k, n = k + 1 := ⟨n - 1, by omega⟩
    rw [ExprFound, expr, if_neg (hne hs), hs]
    refine .get ((finds_setExpr i { stmt := r.stmt }).bind fun _ r₁ h₁ => ?_)
    have hlook : Finds (lookup c s) r₁ fun o r₂ => o = some d ∧ r₂ = r₁ := by
      refine .get (.pure ⟨?_, rfl⟩)
      rw [← hd, ← hΓ, ← h₁.1.frames]
      rfl
    refine hlook.bind fun o r₂ h₂ => ?_
    obtain ⟨rfl, rfl⟩ := h₂
    refine .get ?_
    have hlatest : r₂.facts.latest[d]? = some m := by
      have : r₂.facts.table.latest d = some m := by rw [h₁.2, ht, Table.latest_note, hm]
      exact this
    simp only [hlatest]
    refine (finds_useVariable i r.stmt m).mono fun u r₃ h₃ => ⟨?_, h₁.1.trans h₃.2.1, ?_⟩
    · rw [h₃.1, h₁.2, ht]
      rfl
    · rw [h₃.2.2, h₁.2, ht]
  | @entered T T₁ T₂ i s d v t₀ t hs hd hnone hv hinit hval _ ih =>
    obtain ⟨n, rfl, hn', hnodup', hS'⟩ := hstep (x := i) hnodup hS hlead htree hg hn hs
    have hmodule := hlocal.find? hd hnone
    have hdtree := hc.globals d (hc.module hmodule)
    have hedge : Leads c.arena c.module i v.initializer := .inr ⟨s, d, v, hs, hmodule, hv, rfl⟩
    rw [ExprFound, expr, if_neg (hne hs), hs]
    refine .get ((finds_setExpr i { stmt := r.stmt }).bind fun _ r₁ h₁ => ?_)
    have hlook : Finds (lookup c s) r₁ fun o r₂ => o = some d ∧ r₂ = r₁ := by
      refine .get (.pure ⟨?_, rfl⟩)
      rw [← hd, ← hΓ, ← h₁.1.frames]
      rfl
    refine hlook.bind fun o r₂ h₂ => ?_
    obtain ⟨rfl, rfl⟩ := h₂
    refine .get ?_
    have hlatest : r₂.facts.latest[d]? = none := by
      have : r₂.facts.table.latest d = none := by rw [h₁.2, ht, Table.latest_note, hnone]
      exact this
    simp only [hlatest, hv]
    have hp₂ : r₂.pending = [] := h₁.1.pending.trans hp
    have hmake : Finds (resolveVariable c (n + 1) d v .global) r₂ fun made r' =>
        made = some T₂.size ∧ Steady r₂ r' ∧
        r'.facts.table = T₂.addValue d t := by
      unfold resolveVariable
      refine Finds.bind (ih hlocal r₂ hp₂ (h₁.1.frames.trans hΓ) (by rw [h₁.2, ht]) (i :: S) hnodup'
        hS' ?_ ?_ ?_ n hn')
        fun u r₃ h₃ => ?_
      · simpa [ExprFinding.nodes] using hleads hlead hedge
      · simpa [ExprFinding.nodes] using hc.initializer hv hdtree
      · have := (hg i (List.mem_singleton.2 rfl)).inv hedge
        simpa [ExprFinding.nodes] using this
      rw [h₃.1]
      refine Finds.bind (finds_variableType hc hval hdtree hv r₃ (h₃.2.1.pending.trans hp₂) h₃.2.2)
        fun u r₄ h₄ => ?_
      rw [h₄.1]
      refine (finds_makeVariable (Γ := r₄.frames) r₄ (by rw [declareAs, if_pos rfl])).mono
        fun made r₅ h₅ => ⟨?_, ?_, ?_⟩
      · rw [h₅.1, h₄.2.2]
      · exact h₃.2.1.trans (h₄.2.1.trans ⟨h₅.2.1, h₅.2.2.1⟩)
      · rw [h₅.2.2.2, h₄.2.2]
    refine hmake.bind fun made r₃ h₃ => ?_
    rw [h₃.1]
    refine (finds_useVariable i r.stmt T₂.size).mono fun u r₄ h₄ =>
      ⟨?_, h₁.1.trans (h₃.2.1.trans h₄.2.1), ?_⟩
    · rw [h₄.1, h₃.2.2]
      simp [Table.typeAt, Table.addValue]
    · rw [h₄.2.2, h₃.2.2]
  | @plain T T₁ i x ts o hx hall hcompose _ ih =>
    obtain ⟨n, rfl, hn', hnodup', hS'⟩ := hstep (x := i) hnodup hS hlead htree hg hn hx
    have hi := (htree i (List.mem_singleton.2 rfl)).resolve_left (hne hx)
    rw [ExprFound, expr, if_neg (hne hx), hx]
    refine .get ((finds_setExpr i { stmt := r.stmt }).bind fun _ r₁ h₁ => ?_)
    have hoperands : Finds (x.operands.mapM (expr c (n + 1))) r₁ fun us r' =>
        us = ts ∧ Steady r₁ r' ∧ r'.facts.table = T₁ := by
      refine ih hlocal r₁ (h₁.1.pending.trans hp) (h₁.1.frames.trans hΓ) (by rw [h₁.2, ht]) (i :: S)
        hnodup' hS' ?_ ?_ ?_
        (n + 1) (by omega)
      · exact fun y hy e he => hleads hlead (.inl ⟨x, hx, he⟩) y hy
      · exact fun e he => (hc.slot hi hx (mem_slots_of_operands he)).imp_right And.left
      · exact fun e he => (hg i (List.mem_singleton.2 rfl)).inv (.inl ⟨x, hx, he⟩)
    -- what is left to do is to note the sense
    have hfinish : ∀ {r₂ : Resolver} {s : ExprFacts}, o = some { s with stmt := 0 } → Steady r₁ r₂ →
        r₂.facts.table = T₁ → Finds (finish i { s with stmt := r.stmt }) r₂ fun u r' =>
          u = o.bind (·.type) ∧ Steady r r' ∧ r'.facts.table = T₁.keepSense i o := by
      intro r₂ s ho h₂ htable
      subst ho
      refine (finds_finish i { s with stmt := r.stmt }).mono fun u r₃ h₃ =>
        ⟨h₃.1, h₁.1.trans (h₂.trans h₃.2.1), ?_⟩
      rw [h₃.2.2, htable]
      rfl
    cases x with
    | ident s => cases hcompose
    | call g args => cases hcompose
    | int value suffix =>
      cases hcompose
      cases hall
      exact hfinish (s := { type := some (if suffix = .u then .u32 else .i32) }) rfl (.refl r₁)
        (by rw [h₁.2, ht])
    | float value =>
      cases hcompose
      cases hall
      exact hfinish (s := { type := some .f32 }) rfl (.refl r₁) (by rw [h₁.2, ht])
    | bool value =>
      cases hcompose
      cases hall
      exact hfinish (s := { type := some .bool }) rfl (.refl r₁) (by rw [h₁.2, ht])
    | binary op lhs rhs =>
      refine Finds.pair hoperands fun u v r₂ h₂ => ?_
      obtain ⟨rfl, hsteady, htable⟩ := h₂
      cases hcompose
      exact hfinish (s := { type := binaryType op u v }) rfl hsteady htable
    | unary op e =>
      refine Finds.single hoperands fun u r₂ h₂ => ?_
      obtain ⟨rfl, hsteady, htable⟩ := h₂
      cases hcompose
      exact hfinish (s := { type := u }) rfl hsteady htable
    | index object subscript =>
      refine Finds.pair hoperands fun u v r₂ h₂ => ?_
      obtain ⟨rfl, hsteady, htable⟩ := h₂
      cases u with
      | none =>
        cases hcompose
        exact .pure ⟨rfl, h₁.1.trans hsteady, htable⟩
      | some u =>
        rw [Table.compose] at hcompose
        obtain ⟨w, hw, rfl⟩ := Option.map_eq_some_iff.1 hcompose
        have hw : indexed u = .ok w := by
          cases h : indexed u with
          | error m => simp [h, Except.toOption] at hw
          | ok w' => simpa [h, Except.toOption] using hw
        simp only [Option.map_some, hw]
        exact hfinish (s := { type := some w }) rfl hsteady htable
    | member object s =>
      refine Finds.single hoperands fun u r₂ h₂ => ?_
      obtain ⟨rfl, hsteady, htable⟩ := h₂
      refine .get ?_
      cases u with
      | none =>
        cases hcompose
        exact .pure ⟨rfl, h₁.1.trans hsteady, htable⟩
      | some u =>
        rw [Table.compose] at hcompose
        obtain ⟨sense, hsense, rfl⟩ := Option.map_eq_some_iff.1 hcompose
        have hzero : sense.stmt = 0 := Table.stmt_select hsense
        rw [← htable] at hsense
        rcases r₂.facts.selected_eq (c.arena.nameOf s) u with ⟨m, _, h⟩
          | ⟨g, sense', h, hsense', hg'⟩
        · rw [hsense] at h
          cases h
        · cases hsense.symm.trans hsense'
          simp only [Option.map_some, h, hg']
          exact hfinish (s := sense) (by rw [← hzero]) hsteady htable
  | @call T T₁ T₂ i g args ts k hx hall hk _ ih =>
    obtain ⟨n, rfl, hn', hnodup', hS'⟩ := hstep (x := i) hnodup hS hlead htree hg hn hx
    have hi := (htree i (List.mem_singleton.2 rfl)).resolve_left (hne hx)
    rw [ExprFound, expr, if_neg (hne hx), hx]
    refine .get ((finds_setExpr i { stmt := r.stmt }).bind fun _ r₁ h₁ => ?_)
    dsimp only
    rw [call_succ]
    have hp₁ := h₁.1.pending.trans hp
    refine Finds.bind (ih hlocal r₁ hp₁ (h₁.1.frames.trans hΓ) (by rw [h₁.2, ht]) (i :: S) hnodup'
      hS' ?_ ?_ ?_ n hn')
      fun us r₂ h₂ => ?_
    · exact fun y hy e he => hleads hlead (.inl ⟨_, hx, he⟩) y hy
    · exact fun e he =>
        (hc.slot hi hx (mem_slots_of_operands (x := .call g args) he)).imp_right And.left
    · exact fun e he => (hg i (List.mem_singleton.2 rfl)).inv (.inl ⟨_, hx, he⟩)
    rw [h₂.1]
    have hslot : g ∈ (Shape.expr (.call g args) : Shape Symbol NodeId).slots := by
      simp [Shape.slots]
    exact (finds_callTarget hc hk ((hc.slot hi hx hslot).imp_right And.left) r₂
      (h₂.2.1.pending.trans hp₁) h₂.2.2).mono
      fun u r₃ h₃ => ⟨h₃.1, h₁.1.trans (h₂.2.1.trans h₃.2.1), h₃.2.2⟩
  | nil => exact .pure ⟨rfl, .refl r, ht⟩
  | @cons T T₁ T₂ e t es ts he hes ih₁ ih₂ =>
    have hmem : ∀ {Q : NodeId → Prop}, (∀ x ∈ e :: es, Q x) → ∀ x ∈ [e], Q x := fun h x hx =>
      h x (List.mem_cons.2 (.inl (List.mem_singleton.1 hx)))
    rw [ExprFound, List.mapM_cons]
    refine Finds.bind (ih₁ hlocal r hp hΓ ht S hnodup hS (fun y hy => hmem (hlead y hy))
      (hmem htree) (hmem hg) n hn)
      fun u r₁ h₁ => ?_
    refine Finds.bind
      (ih₂ (fun l hl x hx => Sensing.latest_mono he (hlocal l hl x hx)) r₁ (h₁.2.1.pending.trans hp)
      (h₁.2.1.frames.trans hΓ) h₁.2.2 S hnodup hS
      (fun y hy x hx => hlead y hy x (List.mem_cons_of_mem _ hx))
      (fun x hx => htree x (List.mem_cons_of_mem _ hx))
      (fun x hx => hg x (List.mem_cons_of_mem _ hx)) n hn)
      fun us r₂ h₂ => .pure ⟨?_, h₁.2.1.trans h₂.2.1, h₂.2.2⟩
    rw [h₁.1, h₂.1]

/-- Resolution is inside some levels, with nothing pending, and knows what a table says. -/
structure At (Γ : List Frame) (T : Table) (r : Resolver) : Prop where
  pending : r.pending = []
  frames : r.frames = Γ
  table : r.facts.table = T

theorem At.steady {Γ : List Frame} {T T' : Table} {r r' : Resolver} (h : At Γ T r)
    (hs : Steady r r') (ht : r'.facts.table = T') : At Γ T' r' :=
  ⟨hs.pending.trans h.pending, hs.frames.trans h.frames, ht⟩

theorem Charted.deep (hc : Charted c tree rank gs L) : ∃ m, c.fuel = m + 1 ∧ 2 * L + 2 ≤ m := by
  have : 2 * (L + 2) ≤ (L + 2) * (L + 2) := Nat.mul_le_mul_right _ (by omega)
  rw [hc.fuel]
  exact ⟨(L + 2) * (L + 2) - 1, by omega, by omega⟩

section Statements

variable (hc : Charted c tree rank gs L) {Γ Γ' : List Frame} {T T' : Table} {r : Resolver}
include hc

theorem finds_exprs {es : List NodeId} {ts : List (Option Ty)}
    (h : Sensing c.arena c.module F Γ T (.all es ts) T')
    (hg : ∀ e ∈ es, Grounded c.arena c.module e) (hlocal : LocalsKnown Γ T) (hr : At Γ T r)
    (hes : ∀ e ∈ es, e = 0 ∨ tree e) {n : Nat} (hn : 2 * L + 2 ≤ n) :
    Finds (es.mapM (expr c n)) r fun us r' => us = ts ∧ At Γ T' r' := by
  have hfound := finds_expressions hc h hlocal r hr.pending hr.frames hr.table [] .nil (by simp)
    (by simp) hes hg n hn
  exact Finds.mono hfound fun us r' h' => ⟨h'.1, hr.steady h'.2.1 h'.2.2⟩

theorem finds_expr {e : NodeId} {t : Option Ty} (h : Sensing c.arena c.module F Γ T (.one e t) T')
    (hg : Grounded c.arena c.module e) (hlocal : LocalsKnown Γ T) (hr : At Γ T r)
    (he : e = 0 ∨ tree e) {n : Nat} (hn : 2 * L + 2 ≤ n) :
    Finds (expr c n e) r fun u r' => u = t ∧ At Γ T' r' := by
  have := finds_exprs hc (.cons h .nil) (by simpa using hg) hlocal hr (by simpa using he) hn
  unfold Finds Ends at this ⊢
  exact ⟨this.1, List.head_eq_of_cons_eq this.2.1, this.2.2⟩

/-- A variable, with its initializer resolved inside the levels that there are. -/
theorem finds_variable {d : NodeId} {v : VariableShape Symbol NodeId} {scope : VariableScope}
    {t₀ t : Option Ty} {T₁ T₂ : Table} (hg : Grounded c.arena c.module v.initializer)
    (hinit : Sensing c.arena c.module F Γ T (.one v.initializer t₀) T₁)
    (hval : Valued c.arena c.module v t₀ T₁ t T₂) (hdeclare : declareAs scope Γ v.name d = some Γ')
    (hv : c.arena.asVariable? d = some v) (hd : tree d) (hlocal : LocalsKnown Γ T) (hr : At Γ T r) :
    Finds (resolveVariable c c.fuel d v scope) r fun _ r' => At Γ' (T₂.addValue d t) r' := by
  obtain ⟨m, hm, hdeep⟩ := hc.deep
  rw [hm]
  unfold resolveVariable
  refine (finds_expr hc hinit hg hlocal hr (hc.initializer hv hd) hdeep).bind fun u r₁ h₁ => ?_
  rw [h₁.1]
  refine Finds.bind (finds_variableType hc hval hd hv r₁ h₁.2.pending h₁.2.table) fun u r₂ h₂ => ?_
  rw [h₂.1]
  have hr₂ := h₁.2.steady h₂.2.1 h₂.2.2
  refine (finds_makeVariable (Γ := Γ') r₂ (by rw [hr₂.frames, hdeclare])).mono fun made r₃ h₃ =>
    ⟨?_, h₃.2.2.1, ?_⟩
  · rw [h₃.2.1, hr₂.pending]
  · rw [h₃.2.2.2, hr₂.table]

theorem finds_declaring {d : NodeId} {v : VariableShape Symbol NodeId} {scope : VariableScope}
    (hg : Grounded c.arena c.module v.initializer) (h : Declaring c.arena c.module F d v Γ T Γ' T')
    (hscope : scope ≠ .global) (hv : c.arena.asVariable? d = some v) (hd : tree d)
    (hlocal : LocalsKnown Γ T) (hr : At Γ T r) :
    Finds (resolveVariable c c.fuel d v scope) r fun _ r' => At Γ' T' r' := by
  obtain ⟨hinit, hval, hdeclare⟩ := h
  exact finds_variable hc hg hinit hval (by rw [declareAs, if_neg hscope, hdeclare]) hv hd hlocal hr

/-- The bound is large enough for a statement. -/
def Level (tree : NodeId → Prop) (rank : NodeId → Nat) (L : Nat) (i : NodeId) (n : Nat) : Prop :=
  (i = 0 ∧ 1 ≤ n) ∨ (tree i ∧ L - rank i + 2 ≤ n)

/-- What is to be found about a part of a body at a bound. -/
def PartFound (c : Scene) (tree : NodeId → Prop) (rank : NodeId → Nat) (L : Nat) (r : Resolver)
    (Γ' : List Frame) (T' : Table) : Part → Prop
  | .one i => ∀ n live, Level tree rank L i n → Finds (statement c n i live) r fun _ => At Γ' T'
  | .all is => ∀ n live sofar, (∀ i ∈ is, Level tree rank L i n) →
    Finds (inOrder (statement c n) live is sofar) r fun _ => At Γ' T'
  | .body b => ∀ n live, (∀ ss, c.arena.block? b = some ss → ∀ s ∈ ss, Level tree rank L s n) →
    Finds (openBody c (statement c n) b live) r fun _ => At Γ' T'

theorem Charted.level_slot {i k n : NodeId} {s : Shape Symbol NodeId}
    (hi : Level tree rank L i (n + 1)) (hs : c.arena.shape? i = some s) (hk : k ∈ s.slots) :
    Level tree rank L k n := by
  have h0 : i ≠ 0 := by
    rintro rfl
    cases hs
  obtain ⟨htree, hn⟩ := hi.resolve_left fun h => h0 h.1
  rcases hc.slot htree hs hk with rfl | ⟨hk, hlt⟩
  · exact .inl ⟨rfl, by omega⟩
  · have := hc.le k
    exact .inr ⟨hk, by omega⟩

omit hc in
/-- What is noted around a statement touches neither levels nor tables. -/
theorem finds_statement {i : NodeId} {n : Nat} {live : Bool} (h0 : i ≠ 0) (hr : At Γ T r)
    (h : ∀ r, At Γ T r → Finds (inside c (statement c n) i live (c.arena.shape? i)) r fun _ =>
      At Γ' T') : Finds (statement c (n + 1) i live) r fun _ => At Γ' T' := by
  unfold statement
  rw [if_neg h0]
  refine .get ((finds_enter i).bind fun _ r₁ h₁ => (finds_setStmt i live).bind fun _ r₂ h₂ => ?_)
  have hr₂ : At Γ T r₂ := hr.steady (h₁.1.trans h₂.1) (by rw [h₂.2, h₁.2, hr.table])
  refine (h r₂ hr₂).bind fun b r₃ h₃ => (finds_setBehaviors i b).bind fun _ r₄ h₄ =>
    (finds_enter _).bind fun _ r₅ h₅ => ?_
  exact .pure (h₃.steady (h₄.1.trans h₅.1) (by rw [h₅.2, h₄.2, h₃.table]))

theorem finds_parts (hground : ∀ e, e = 0 ∨ tree e → Grounded c.arena c.module e) {part : Part}
    (h : Scoping c.arena c.module F Γ T part Γ' T') (hlocal : LocalsKnown Γ T) (r : Resolver)
    (hr : At Γ T r) : PartFound c tree rank L r Γ' T' part := by
  have hne : ∀ {i x}, c.arena.shape? i = some x → i ≠ 0 := by
    rintro i x hx rfl
    cases hx
  have hpos : ∀ {i n}, Level tree rank L i n → ∃ k, n = k + 1 := by
    rintro i n (⟨_, h⟩ | ⟨_, h⟩)
    · exact ⟨n - 1, by omega⟩
    · exact ⟨n - 1, by omega⟩
  have hin : ∀ {i x n}, Level tree rank L i n → c.arena.shape? i = some x → tree i := by
    rintro i x n (⟨rfl, _⟩ | ⟨h, _⟩) hx
    · cases hx
    · exact h
  have hexpr : ∀ {i k n : NodeId} {x : Shape Symbol NodeId}, Level tree rank L i n →
      c.arena.shape? i = some x →
      k ∈ x.slots → k = 0 ∨ tree k := fun hn hx hk => (hc.slot (hin hn hx) hx hk).imp_right And.left
  have hdeep : 2 * L + 2 ≤ c.fuel := by
    obtain ⟨m, hm, hdeep⟩ := hc.deep
    omega
  have hpush : ∀ {Γ T r}, At Γ T r → At ([] :: Γ) T { r with frames := [] :: r.frames } :=
    fun h => ⟨h.pending, congrArg ([] :: ·) h.frames, h.table⟩
  have hpop : ∀ {Γ T r}, At Γ T r → At (Γ.drop 1) T { r with frames := r.frames.drop 1 } :=
    fun h => ⟨h.pending, congrArg (List.drop 1) h.frames, h.table⟩
  have hlevel : ∀ {Γ T}, LocalsKnown Γ T → LocalsKnown ([] :: Γ) T := by
    intro Γ T h F hF x hx
    rcases List.mem_cons.1 hF with rfl | hF
    · cases hx
    · exact h F hF x hx
  induction h generalizing r with
  | absent =>
    intro n live hn
    obtain ⟨n, rfl⟩ := hpos hn
    unfold statement
    rw [if_pos rfl]
    exact .pure hr
  | @simple Γ T T' i x es ts hx hes hsense =>
    intro n live hn
    obtain ⟨n, rfl⟩ := hpos hn
    refine finds_statement (hne hx) hr fun r hr => ?_
    have hreads : ∀ e ∈ es, e = 0 ∨ tree e := by
      refine fun e he => hexpr hn hx ?_
      cases x <;> cases hes <;> simp_all [Shape.slots]
    have hfind := finds_exprs hc hsense (fun e he => hground e (hreads e he)) hlocal hr hreads hdeep
    rw [hx]
    cases x <;> cases hes
    case assign.refl lhs rhs => exact hfind.pair fun _ _ _ h => .pure h.2
    case increment.refl lhs dec => exact hfind.single fun _ _ h => .pure h.2
    case callStatement.refl e => exact hfind.single fun _ _ h => .pure h.2
    case ret.refl v => exact hfind.single fun _ _ h => .pure h.2
    all_goals
      cases hsense
      exact .pure hr
  | @varDecl Γ Γ' T T' i d v hx hv hd =>
    intro n live hn
    obtain ⟨n, rfl⟩ := hpos hn
    refine finds_statement (hne hx) hr fun r hr => ?_
    have hdtree : tree d := by
      refine (hexpr hn hx (by simp [Shape.slots])).resolve_left ?_
      rintro rfl
      cases hv
    rw [hx]
    refine Finds.bind (P := fun _ => At Γ' T') ?_ fun _ _ h => .pure h
    unfold localVariable
    rw [hv]
    have hg := hground _ (hc.initializer hv hdtree)
    exact (finds_declaring hc hg hd (by decide) hv hdtree hlocal hr).bind fun _ _ h => .pure h
  | @stray Γ T i d hx hv =>
    intro n live hn
    obtain ⟨n, rfl⟩ := hpos hn
    refine finds_statement (hne hx) hr fun r hr => ?_
    rw [hx]
    refine Finds.bind (P := fun _ => At Γ T) ?_ fun _ _ h => .pure h
    unfold localVariable
    rw [hv]
    exact .pure hr
  | @block Γ Γ' T T' i ss hx _ ih =>
    intro n live hn
    obtain ⟨n, rfl⟩ := hpos hn
    refine finds_statement (hne hx) hr fun r hr => ?_
    rw [hx]
    refine finds_pushFrame.bind fun _ r₁ h₁ => ?_
    subst h₁
    refine Finds.bind (ih (hlevel hlocal) _ (hpush hr) n live _ fun s hs => hc.level_slot hn hx hs)
      fun b r₂ h₂ => ?_
    refine finds_popFrame.bind fun _ r₃ h₃ => ?_
    subst h₃
    exact .pure (hpop h₂)
  | @ifElse Γ Γ₂ Γ₃ T T₁ T₂ T₃ i cond b e t hx hcond hb he ih₁ ih₂ =>
    intro n live hn
    obtain ⟨n, rfl⟩ := hpos hn
    refine finds_statement (hne hx) hr fun r hr => ?_
    rw [hx]
    have hlocal₁ := hlocal.mono fun x hx => hcond.latest_mono hx
    have hcondTree := hexpr hn hx (k := cond) (by simp [Shape.slots])
    refine (finds_expr hc hcond (hground _ hcondTree) hlocal hr hcondTree hdeep).bind fun _ r₁ h₁ =>
      ?_
    refine Finds.bind (ih₁ hlocal₁ r₁ h₁.2 n live (hc.level_slot hn hx (by simp [Shape.slots])))
      fun _ r₂ h₂ => ?_
    exact Finds.bind
      (ih₂ (hlocal₁.scoping hb) r₂ h₂ n live (hc.level_slot hn hx (by simp [Shape.slots])))
      fun _ r₃ h₃ => .pure h₃
  | @forLoop Γ Γ₁ Γ₃ Γ₄ T T₁ T₂ T₃ T₄ i init cond cont b t hx hinit hcond hb hcont ih₁ ih₂ ih₃ =>
    intro n live hn
    obtain ⟨n, rfl⟩ := hpos hn
    refine finds_statement (hne hx) hr fun r hr => ?_
    rw [hx]
    have hlocal₁ := (hlevel hlocal).scoping hinit
    have hlocal₂ := hlocal₁.mono fun x hx => hcond.latest_mono hx
    refine finds_pushFrame.bind fun _ r₀ h₀ => ?_
    subst h₀
    refine Finds.bind (ih₁ (hlevel hlocal) _ (hpush hr) n live
      (hc.level_slot hn hx (by simp [Shape.slots]))) fun _ r₁ h₁ => ?_
    have hcondTree := hexpr hn hx (k := cond) (by simp [Shape.slots])
    refine (finds_expr hc hcond (hground _ hcondTree) hlocal₁ h₁ hcondTree hdeep).bind
      fun _ r₂ h₂ => ?_
    refine Finds.bind (ih₂ hlocal₂ r₂ h₂.2 n live (hc.level_slot hn hx (by simp [Shape.slots])))
      fun _ r₃ h₃ => ?_
    refine Finds.bind
      (ih₃ (hlocal₂.scoping hb) r₃ h₃ n live (hc.level_slot hn hx (by simp [Shape.slots])))
      fun _ r₄ h₄ => finds_popFrame.bind fun _ r₅ h₅ => ?_
    subst h₅
    exact .pure (hpop h₄)
  | @whileLoop Γ Γ₂ T T₁ T₂ i cond b t hx hcond hb ih =>
    intro n live hn
    obtain ⟨n, rfl⟩ := hpos hn
    refine finds_statement (hne hx) hr fun r hr => ?_
    rw [hx]
    have hcondTree := hexpr hn hx (k := cond) (by simp [Shape.slots])
    refine (finds_expr hc hcond (hground _ hcondTree) hlocal hr hcondTree hdeep).bind fun _ r₁ h₁ =>
      ?_
    exact Finds.bind (ih (hlocal.mono fun x hx => hcond.latest_mono hx) r₁ h₁.2 n live
      (hc.level_slot hn hx (by simp [Shape.slots]))) fun _ r₂ h₂ => .pure h₂
  | @loop Γ Γ₁ Γ₂ T T₁ T₂ i b cont hx hb hcont ih₁ ih₂ =>
    intro n live hn
    obtain ⟨n, rfl⟩ := hpos hn
    refine finds_statement (hne hx) hr fun r hr => ?_
    rw [hx]
    have hinner : ∀ ss, c.arena.block? b = some ss → ∀ s ∈ ss, Level tree rank L s n := by
      intro ss hss s hs
      have hbx := Arena.shape?_of_block? hss
      have hbody := hc.level_slot hn hx (k := b) (by simp [Shape.slots])
      obtain ⟨hbtree, hbn⟩ := hbody.resolve_left fun h => hne hbx h.1
      rcases hc.slot hbtree hbx hs with rfl | ⟨hs, hlt⟩
      · exact .inl ⟨rfl, by omega⟩
      · exact .inr ⟨hs, by omega⟩
    refine finds_pushFrame.bind fun _ r₀ h₀ => ?_
    subst h₀
    refine Finds.bind (ih₁ (hlevel hlocal) _ (hpush hr) n live hinner) fun _ r₁ h₁ => ?_
    refine Finds.bind
      (ih₂ ((hlevel hlocal).scoping hb) r₁ h₁ n live (hc.level_slot hn hx (by simp [Shape.slots])))
      fun _ r₂ h₂ => finds_popFrame.bind fun _ r₃ h₃ => ?_
    subst h₃
    exact .pure (hpop h₂)
  | @opened Γ Γ' T T' b ss hss _ ih =>
    intro n live hn
    unfold openBody
    rw [hss]
    refine (finds_setStmt b live).bind fun _ r₁ h₁ => ?_
    refine Finds.bind (ih hlocal r₁ (hr.steady h₁.1 (by rw [h₁.2, hr.table])) n live _ (hn ss hss))
      fun x r₂ h₂ => ?_
    exact (finds_setBehaviors b x).bind fun _ r₃ h₃ =>
      .pure (h₂.steady h₃.1 (by rw [h₃.2, h₂.table]))
  | @lacking Γ T b hnone =>
    intro n live _
    unfold openBody
    rw [hnone]
    exact .pure hr
  | nil =>
    intro n live sofar _
    exact .pure hr
  | @cons Γ Γ₁ Γ₂ T T₁ T₂ s ss hs _ ih₁ ih₂ =>
    intro n live sofar hn
    refine Finds.bind (ih₁ hlocal r hr n _ (hn s List.mem_cons_self)) fun b r₁ h₁ => ?_
    exact ih₂ (hlocal.scoping hs) r₁ h₁ n live _ fun x hx => hn x (List.mem_cons_of_mem _ hx)

end Statements

section Modules

variable {T T' : Table} {r : Resolver}

/-- What resolving a declaration of the module leaves behind. -/
theorem grounded_introducing {a : Arena} {M : Frame} {d : NodeId} (h : Introducing a M F d T T')
    (hT : GroundedIn a M T) :
    GroundedIn a M T' ∧ (∀ x, (T.latest x).isSome → (T'.latest x).isSome) ∧
      ∀ v, a.asVariable? d = some v → (T'.latest d).isSome := by
  have hnot : ∀ {v}, (a.shape? d).any Shape.isTypeDecl = true → a.asVariable? d ≠ some v := by
    intro v hd hv
    rw [Arena.shape?_of_asVariable? hv] at hd
    cases hd
  cases h with
  | type hd h =>
    rw [h.beyond.latest]
    exact ⟨hT.of_latest h.beyond.latest, fun _ hx => hx, fun v hv => absurd hv (hnot hd)⟩
  | known hv hn => exact ⟨hT, fun _ hx => hx, fun _ _ => by simp [hn]⟩
  | @value T₁ T₂ v t₀ t hv hnone hinit hval =>
    obtain ⟨hT₁, hg⟩ := hinit.grounded hT
    have hdecl : ∀ w, a.asVariable? d = some w → Grounded a M w.initializer := by
      intro w hw
      cases hv.symm.trans hw
      exact hg _ (List.mem_singleton.2 rfl)
    refine ⟨(hT₁.of_latest hval.beyond.latest).addValue hdecl, fun x hx => ?_, fun _ _ => by simp⟩
    rw [Table.latest_addValue, Function.update_apply]
    split
    · rfl
    · rw [hval.beyond.latest]
      exact hinit.latest_mono hx
  | other _ hnone => exact ⟨hT, fun _ hx => hx, fun v hv => by rw [hnone] at hv; cases hv⟩

theorem grounded_along {a : Arena} {M : Frame} {ds : List NodeId}
    (h : Along (Introducing a M F) ds T T') (hT : GroundedIn a M T) :
    GroundedIn a M T' ∧ (∀ x, (T.latest x).isSome → (T'.latest x).isSome) ∧
      ∀ d ∈ ds, ∀ v, a.asVariable? d = some v → (T'.latest d).isSome := by
  induction h with
  | nil => exact ⟨hT, fun _ hx => hx, by simp⟩
  | cons hd _ ih =>
    obtain ⟨hT₁, hmono, hknown⟩ := grounded_introducing hd hT
    obtain ⟨hT₂, hmono', hknown'⟩ := ih hT₁
    refine ⟨hT₂, fun x hx => hmono' x (hmono x hx),
      List.forall_mem_cons.2 ⟨fun v hv => hmono' _ (hknown v hv), hknown'⟩⟩

/-- Once the variables of the module are grounded, everything in the tree is. -/
theorem grounded_of_tree (hc : Charted c tree rank gs L) {T : Table}
    (hT : GroundedIn c.arena c.module T)
    (hknown : ∀ d ∈ gs, ∀ v, c.arena.asVariable? d = some v → (T.latest d).isSome) {e : NodeId}
    (he : e = 0 ∨ tree e) : Grounded c.arena c.module e := by
  rcases he with rfl | he
  · exact grounded_zero _ _
  generalize hk : L - rank e = k
  induction k using Nat.strongRecOn generalizing e with
  | ind k ih =>
    refine .intro _ fun x hx => ?_
    rcases hx with ⟨y, hy, hmem⟩ | ⟨s, d, v, hs, hd, hv, rfl⟩
    · rcases hc.slot he hy (mem_slots_of_operands hmem) with rfl | ⟨hx, hlt⟩
      · exact grounded_zero _ _
      · have := hc.le x
        exact ih (L - rank x) (by omega) hx rfl
    · exact hT d v (hknown d (hc.module hd) v hv) hv

theorem finds_declaration (hc : Charted c tree rank gs L) {d : NodeId}
    (h : Introducing c.arena c.module F d T T') (hT : GroundedIn c.arena c.module T) (hd : d ∈ gs)
    (hr : At [] T r) : Finds (declaration c d) r fun _ => At [] T' := by
  unfold declaration
  cases h with
  | type hdecl h =>
    have hfind : Finds (do let _ ← typeDecl c c.fuel d) r fun _ => At [] T' :=
      Finds.bind (finds_types hc h (by simp) .nil r hr.pending hr.table hd c.fuel hc.room_lt)
        fun _ r₁ h₁ =>
        .pure (hr.steady h₁.2.1 h₁.2.2)
    rcases Arena.shape?_of_isTypeDecl hdecl with ⟨_, _, _, hx⟩ | ⟨_, _, hx⟩
    · rw [hx]
      exact hfind
    · rw [hx]
      exact hfind
  | @known v n hv hn =>
    have hx := Arena.shape?_of_asVariable? hv
    rw [hx]
    refine .get ?_
    have : r.facts.latest[d]? = some n := by rwa [← hr.table] at hn
    rw [Std.TreeMap.contains_eq_isSome_getElem?, this, if_pos Option.isSome_some]
    exact .pure hr
  | @value T₁ T₂ v t₀ t hv hnone hinit hval =>
    have hx := Arena.shape?_of_asVariable? hv
    rw [hx]
    refine .get ?_
    have : r.facts.latest[d]? = none := by rwa [← hr.table] at hnone
    rw [Std.TreeMap.contains_eq_isSome_getElem?, this, if_neg (by simp)]
    have hg := (hinit.grounded hT).2 _ (List.mem_singleton.2 rfl)
    exact (finds_variable hc hg hinit hval (by rw [declareAs, if_pos rfl]) hv (hc.globals d hd)
      (by simp [LocalsKnown]) hr).bind
      fun _ _ h => .pure h
  | other hdecl hnone =>
    cases hx : c.arena.shape? d with
    | none => exact .pure hr
    | some x =>
      rw [hx, Option.any_some] at hdecl
      cases x with
      | decl x =>
        cases x with
        | value v => simp [Arena.asVariable?, hx, Shape.asVariable?] at hnone
        | function f => exact .pure hr
        | _ => simp [Shape.isTypeDecl] at hdecl
      | _ => exact .pure hr

theorem finds_signature (hc : Charted c tree rank gs L) {d : NodeId}
    {f : FunctionShape Symbol NodeId} (h : Heading c.arena c.module d T T')
    (hf : c.arena.function? d = some f) (hd : d ∈ gs) (hr : At [] T r) :
    Finds (signature c d f) r fun _ => At [] T' := by
  have hset : ∀ {r : Resolver} {T : Table} {t : Option Ty}, At [] T r → (T.results d).isSome →
      Finds (updateFunction d fun g => { g with
        returnType := t
        stage := stageOf c.arena f.attributes
        workgroup := workgroupOf c.arena f.attributes }) r fun _ => At [] (T.setResult d t) := by
    intro r T t hr hsome
    refine Finds.mono (finds_setResult (t := t) ?_ d) fun _ r' h' => ?_
    · exact fun _ => rfl
    · rw [← hr.table]
      exact hr.steady h'.1 (h'.2 (by rw [hr.table]; exact hsome))
  unfold signature
  refine (finds_newFunction d _).bind fun _ r₁ h₁ => ?_
  have hr₁ : At [] (T.setResult d (some .void)) r₁ := hr.steady h₁.1 (by rw [h₁.2, hr.table])
  have hsome : ((T.setResult d (some .void)).results d).isSome := by simp [Table.setResult]
  cases h with
  | typed hf' hret htype =>
    cases hf.symm.trans hf'
    have hslot := (hc.slot (hc.globals d hd) (Arena.shape?_of_function? hf) (k := f.returnType)
      (by simp [Shape.slots])).imp_right
      And.left
    rw [if_pos hret]
    refine Finds.bind (finds_types hc htype (by simp) .nil r₁ hr₁.pending hr₁.table c.fuel
      (hc.shallow hslot)) fun u r₂ h₂ => ?_
    rw [h₂.1]
    exact hset (hr₁.steady h₂.2.1 h₂.2.2) (by rw [htype.beyond.results]; exact hsome)
  | void hf' hret =>
    cases hf.symm.trans hf'
    rw [if_neg (by simpa using hret)]
    refine Finds.bind (P := fun u r₂ => u = some .void ∧ r₂ = r₁) (.pure ⟨rfl, rfl⟩) fun u r₂ h₂ =>
      ?_
    obtain ⟨rfl, rfl⟩ := h₂
    have hsame : (T.setResult d (some .void)).setResult d (some .void) =
        T.setResult d (some .void) := by
      simp [Table.setResult]
    rw [← hsame]
    exact hset hr₁ hsome
  | other hnone =>
    rw [hf] at hnone
    cases hnone

theorem finds_parameters (hc : Charted c tree rank gs L)
    (hground : ∀ e, e = 0 ∨ tree e → Grounded c.arena c.module e) (fn : NodeId) {ds : List NodeId}
    {Γ Γ' : List Frame} (h : Parameters c.arena c.module F ds Γ T Γ' T')
    (hds : ∀ d ∈ ds, d = 0 ∨ tree d) (hlocal : LocalsKnown Γ T) (r : Resolver) (hr : At Γ T r) :
    Finds (ds.forM (parameter c fn)) r fun _ => At Γ' T' := by
  induction h generalizing r with
  | nil => exact .pure hr
  | @cons Γ Γ₁ Γ₂ T T₁ T₂ d v ds hv hkind hd _ ih =>
    have hdtree : tree d := (hds d List.mem_cons_self).resolve_left fun h0 => by
      subst h0
      cases hv
    have hone : Finds (parameter c fn d) r fun _ => At Γ₁ T₁ := by
      unfold parameter
      rw [hv]
      simp only [hkind, if_true]
      refine (finds_declaring hc (hground _ (hc.initializer hv hdtree)) hd (by decide) hv hdtree
        hlocal hr).bind
        fun made r₁ h₁ => Finds.mono (finds_updateFunction ?_ fn) fun _ r₂ h₂ =>
          h₁.steady h₂.1 (by rw [h₂.2, h₁.table])
      exact fun _ => rfl
    exact hone.bind fun _ r₁ h₁ =>
      ih (fun x hx => hds x (List.mem_cons_of_mem _ hx)) (hlocal.declaring hd) r₁ h₁

theorem finds_body (hc : Charted c tree rank gs L)
    (hground : ∀ e, e = 0 ∨ tree e → Grounded c.arena c.module e) {d : NodeId}
    {f : FunctionShape Symbol NodeId} (h : Containing c.arena c.module F d T T')
    (hf : c.arena.function? d = some f) (hd : d ∈ gs) (hr : At [] T r) :
    Finds (body c d f) r fun _ => At [] T' := by
  cases h with
  | @function Γ Γ' _ T₁ _ f' hf' hparams hbody =>
    cases hf.symm.trans hf'
    have hslots : ∀ k ∈ (Shape.decl (.function f) : Shape Symbol NodeId).slots,
        k = 0 ∨ (tree k ∧ rank d < rank k) :=
      fun k hk => hc.slot (hc.globals d hd) (Arena.shape?_of_function? hf) hk
    have hopen : LocalsKnown [[]] T := by simp [LocalsKnown]
    have hlevel : Level tree rank L f.body c.fuel := by
      obtain ⟨m, hm, hdeep⟩ := hc.deep
      rcases hslots f.body (by simp [Shape.slots]) with h | h
      · exact .inl ⟨h, by omega⟩
      · exact .inr ⟨h.1, by omega⟩
    unfold body
    refine (finds_openFunction d).bind fun _ r₁ h₁ => ?_
    have hr₁ : At [[]] T r₁ := ⟨h₁.1.trans hr.pending, h₁.2.1, by rw [h₁.2.2, hr.table]⟩
    refine (finds_parameters hc hground d hparams (fun x hx => ?_) hopen r₁ hr₁).bind fun _ r₂ h₂ =>
      ?_
    · exact (hslots x (by simp [Shape.slots, hx])).imp_right And.left
    refine Finds.bind (finds_parts hc hground hbody (hopen.parameters hparams) r₂ h₂ c.fuel true
      hlevel) fun b r₃ h₃ => ?_
    refine Finds.bind (P := fun _ => At Γ' T')
      (Finds.mono (finds_updateFunction ?_ d) fun _ r₄ h₄ => ?_) fun _ r₄ h₄ => ?_
    · exact fun _ => rfl
    · exact h₃.steady h₄.1 (by rw [h₄.2, h₃.table])
    · exact .modify rfl ⟨h₄.pending, rfl, h₄.table⟩
  | other hnone =>
    rw [hf] at hnone
    cases hnone

/-- A loop over declarations, with something that every one of them keeps. -/
theorem finds_each {one : NodeId → PUnit → Resolve (ForInStep PUnit)}
    {step : NodeId → Table → Table → Prop} (I : Table → Prop) {ds : List NodeId}
    (h : Along step ds T T') (hI : ∀ d T T', step d T T' → I T → I T')
    (hone : ∀ d ∈ ds, ∀ T T' r, step d T T' → I T → At [] T r →
      Finds (one d ⟨⟩) r fun o r' => o = .yield ⟨⟩ ∧ At [] T' r') (hT : I T) (r : Resolver)
    (hr : At [] T r) : Finds (forIn ds PUnit.unit one) r fun _ => At [] T' := by
  induction h generalizing r with
  | nil => exact .pure hr
  | @cons T T₁ T₂ d ds hd _ ih =>
    rw [List.forIn_cons]
    refine (hone d List.mem_cons_self T T₁ r hd hT hr).bind fun o r₁ h₁ => ?_
    rw [h₁.1]
    exact ih (fun x hx => hone x (List.mem_cons_of_mem _ hx)) (hI d T T₁ hd hT) r₁ h₁.2

theorem finds_module (hc : Charted c tree rank gs L) {T₁ T₂ T₃ : Table}
    (h₁ : Along (Introducing c.arena c.module F) gs .empty T₁)
    (h₂ : Along (Heading c.arena c.module) gs T₁ T₂)
    (h₃ : Along (Containing c.arena c.module F) gs T₂ T₃) (hr : At [] .empty r) :
    Finds (module c gs) r fun _ => At [] T₃ := by
  have hempty : GroundedIn c.arena c.module .empty := by simp [GroundedIn, Table.empty]
  obtain ⟨hT₁, -, hknown⟩ := grounded_along h₁ hempty
  have hground : ∀ e, e = 0 ∨ tree e → Grounded c.arena c.module e :=
    fun e he => grounded_of_tree hc hT₁ hknown he
  unfold module
  refine (finds_each (GroundedIn c.arena c.module) h₁ ?_ ?_ hempty r hr).bind fun _ r₁ hr₁ => ?_
  · exact fun d T T' hd hT => (grounded_introducing hd hT).1
  · intro d hd T T' r hstep hT hr
    split
    · exact (finds_declaration hc hstep hT hd hr).bind fun _ _ h => .pure ⟨rfl, h⟩
    · next hf =>
      obtain ⟨f, hf⟩ := Option.ne_none_iff_exists'.1 (by simpa using hf)
      have hsame : T' = T := by
        cases hstep with
        | type hdecl _ => simp [Arena.shape?_of_function? hf, Shape.isTypeDecl] at hdecl
        | known hv _ =>
          simp [Arena.asVariable?, Arena.shape?_of_function? hf, Shape.asVariable?] at hv
        | value hv _ _ _ =>
          simp [Arena.asVariable?, Arena.shape?_of_function? hf, Shape.asVariable?] at hv
        | other _ _ => rfl
      rw [hsame]
      exact .pure ⟨rfl, hr⟩
  refine (finds_each (fun _ => True) h₂ (fun _ _ _ _ _ => trivial) ?_ trivial r₁ hr₁).bind
    fun _ r₂ hr₂ => ?_
  · intro d hd T T' r hstep _ hr
    split
    · next f hf => exact (finds_signature hc hstep hf hd hr).bind fun _ _ h => .pure ⟨rfl, h⟩
    · next hf =>
      cases hstep with
      | typed hf' _ _ => exact absurd hf' (hf _)
      | void hf' _ => exact absurd hf' (hf _)
      | other _ => exact .pure ⟨rfl, hr⟩
  refine (finds_each (fun _ => True) h₃ (fun _ _ _ _ _ => trivial) ?_ trivial r₂ hr₂).bind
    fun _ r₃ hr₃ => ?_
  · intro d hd T T' r hstep _ hr
    split
    · next f hf => exact (finds_body hc hground hstep hf hd hr).bind fun _ _ h => .pure ⟨rfl, h⟩
    · next hf =>
      cases hstep with
      | function hf' _ _ => exact absurd hf' (hf _)
      | other _ => exact .pure ⟨rfl, hr⟩
  exact .mapFacts ⟨hr₃.pending, hr₃.frames, by rw [Facts.table_summarize, hr₃.table]⟩

end Modules

end

end ShaderLoom.Resolve

namespace ShaderLoom.Program

theorem mem_treeIds_of_inTree {p : Program} (hp : p.TreeShaped) (hroot : p.root ≤ p.size)
    {i : NodeId} (hi : p.inTree i = true) : i ∈ p.treeIds := by
  have hrange : 0 < i ∧ i ≤ p.size := by
    by_cases h : i = p.root
    · subst h
      exact ⟨Nat.pos_of_ne_zero hp.root, hroot⟩
    · exact hp.range hi h
  refine List.mem_filter.2
    ⟨List.mem_map.2 ⟨i - 1, List.mem_range.2 ?_, Nat.sub_add_cancel hrange.1⟩, hi⟩
  exact Nat.lt_of_lt_of_le (Nat.sub_lt hrange.1 Nat.one_pos) hrange.2

/-- The nodes of a tree-shaped program are charted. -/
theorem TreeShaped.charted {p : Program} (hp : p.TreeShaped) (hroot : p.root ≤ p.size)
    (hglobals : ∀ g ∈ p.globals, g ≠ 0) :
    ∃ rank, Resolve.Charted p.scene (fun i => p.inTree i = true) rank p.globals
      p.treeIds.length := by
  obtain ⟨rank, hle, hlt⟩ := hp.ranked_treeIds
  have hcount : ∀ S : List NodeId, S.Nodup → (∀ i ∈ S, p.inTree i = true) →
      S.length ≤ p.treeIds.length :=
    fun S hS hin => (hS.subperm fun i hi => mem_treeIds_of_inTree hp hroot (hin i hi)).length_le
  have hin : ∀ g ∈ p.globals, p.inTree g = true := fun g hg => hp.inTree_global hg (hglobals g hg)
  have hnodup := hp.globals_nodup hglobals
  exact ⟨rank, fun hi hk => ⟨hp.inTree_child hi hk, hlt _ _ hi hk⟩, hle, Resolve.mem_of_collect,
    hin, hcount _ hnodup hin, hcount, rfl⟩

/-- Resolution finds no problem in a well typed program, and it leaves the tables that the rules end
with. -/
theorem valid_of_wellTyped {b : Builder} {F : NodeId → ExprFacts → Prop} {M : Frame} {T : Table}
    (hb : b.diagnostics.hasErrors = false) (htree : b.build.TreeShaped)
    (hglobals : ∀ g ∈ b.globals, g ≠ 0) (h : WellTyped b.build.toArena F b.build.globals M T) :
    b.build.valid = true ∧ b.build.facts.table = T := by
  have hroot : b.build.root ≤ b.build.size :=
    Nat.le_of_eq (by rw [Builder.root_build, Builder.size_build])
  obtain ⟨rank, hc⟩ := htree.charted hroot (by rwa [Builder.globals_build])
  obtain ⟨hnames, T₁, T₂, h₁, h₂, h₃⟩ := h
  have hmodule : b.build.scene.module = M := congrArg Prod.fst hnames
  have hclean : b.build.unresolved.diagnostics = [] := congrArg Prod.snd hnames
  subst hmodule
  obtain ⟨hsame, hend⟩ :=
    (Resolve.finds_module hc h₁ h₂ h₃ (r := b.build.unresolved) ⟨rfl, rfl, rfl⟩).run
  have hdiagnostics : b.build.outcome.diagnostics = [] := hsame.trans hclean
  constructor
  · simp [valid, (outcome_build hb).2, hdiagnostics, hb]
  · rw [(outcome_build hb).1]
    exact hend.table

end ShaderLoom.Program
