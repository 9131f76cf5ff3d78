import ShaderLoom.Proofs.Meaning.Complete

/-! How types are resolved, whatever a module says. Names may lead from declarations back to
themselves, through members, through element types and through aliases, so that the tree of a module
does not bound how deep resolution goes. The rules here say without any bound what it comes to, and
within its bound resolution does exactly what they say, from whatever is known already: a
declaration is entered only while it is not pending, and there are only so many. -/
namespace ShaderLoom.Resolve

variable {α : Type}

/-- The state after a step. -/
def after (step : Resolve α) (r : Resolver) : Resolver := (step.run r).2

theorem ends_after (step : Resolve α) (r : Resolver) :
    Ends step r fun u r' => u = (step.run r).1 ∧ r' = after step r := by
  unfold Ends
  exact ⟨rfl, rfl⟩

theorem ends_keepType (i : NodeId) (t : Option Ty) (r : Resolver) :
    Ends (keepType i t) r fun u r' => u = t ∧ r' = after (keepType i t) r := by
  refine (ends_after _ r).mono fun u r' h => ⟨h.1.trans ?_, h.2⟩
  cases t <;> rfl

theorem ends_refuse (c : Scene) (i : NodeId) (message : String) (r : Resolver) :
    Ends (refuse c i message) r fun u r' => u = none ∧ r' = after (refuse c i message) r :=
  ends_after _ r

/-- A type node names a declaration. -/
def refer (r : Resolver) (i d : NodeId) : Resolver :=
  { r with facts := { r.facts with typeDecls := r.facts.typeDecls.insert i d } }

/-- A declaration is pending. -/
def enter (r : Resolver) (d : NodeId) : Resolver := { r with pending := d :: r.pending }

/-- It is pending no more. -/
def leave (r : Resolver) (d : NodeId) : Resolver := { r with pending := r.pending.erase d }

/-- A structure has its type before its members have theirs. -/
def openStruct (r : Resolver) (d : NodeId) (name : String) : Resolver :=
  { r with facts := { r.facts with
    structs := r.facts.structs.insert d { decl := d, name }
    types := r.facts.types.insert d (.struct d name) } }

def closeStruct (r : Resolver) (d : NodeId) (s : StructFacts) : Resolver :=
  { r with facts := { r.facts with structs := r.facts.structs.insert d s } }

/-- What is found out about a type node, about a structure or alias, or about members, in one state
and leading to another. -/
inductive Settles (c : Scene) : Resolver → TypeFinding → Resolver → Prop
  | absent {r} : Settles c r (.node 0 none) r
  | plain {r i x t} : c.arena.shape? i = some (.type x) → x.plain? = some t →
    Settles c r (.node i (some t)) (after (keepType i (some t)) r)
  | around {r r' i x e f t} : c.arena.shape? i = some (.type x) → x.around? = some (e, f) →
    Settles c r (.node e t) r' →
    Settles c r (.node i (t.map f)) (after (keepType i (t.map f)) r')
  | named {r r' i s d t} : c.arena.shape? i = some (.type (.named s)) → c.module.find? s = some d →
    (c.arena.shape? d).any Shape.isTypeDecl = true → Settles c (refer r i d) (.decl d t) r' →
    Settles c r (.node i t) (after (keepType i t) r')
  | unknown {r i s} : c.arena.shape? i = some (.type (.named s)) → c.module.find? s = none →
    Settles c r (.node i none) (after (refuse c i s!"unknown type '{c.arena.nameOf s}'") r)
  | untyped {r i s d} : c.arena.shape? i = some (.type (.named s)) → c.module.find? s = some d →
    (c.arena.shape? d).any Shape.isTypeDecl = false →
    Settles c r (.node i none) (after (refuse c i s!"'{c.arena.nameOf s}' is not a type") r)
  | other {r i} : i ≠ 0 → (∀ x, c.arena.shape? i ≠ some (.type x)) →
    Settles c r (.node i none) (after (refuse c i "expected a type") r)
  | known {r d t} : r.facts.types[d]? = some t → Settles c r (.decl d (some t)) r
  | cyclic {r d} : r.facts.types[d]? = none → d ∈ r.pending →
    Settles c r (.decl d none) (after (refuse c d "cyclic type declaration") r)
  | struct {r r' d s ms as found} : c.arena.shape? d = some (.decl (.struct s ms as)) →
    r.facts.types[d]? = none →
    d ∉ r.pending →
    Settles c (openStruct (enter r d) d (c.arena.nameOf s)) (.members ms.zipIdx found) r' →
    Settles c r (.decl d (some (.struct d (c.arena.nameOf s))))
      (leave (closeStruct r' d { decl := d, name := c.arena.nameOf s, members := found }) d)
  | typeAlias {r r' d s ty t} : c.arena.shape? d = some (.decl (.typeAlias s ty)) →
    r.facts.types[d]? = none →
    d ∉ r.pending → Settles c (enter r d) (.node ty t) r' →
    Settles c r (.decl d t) (leave (after (keepType d t) r') d)
  | nil {r} : Settles c r (.members [] []) r
  | member {r r₁ r₂ m k s ty as t ms found} : c.arena.shape? m = some (.structMember s ty as) →
    Settles c r (.node ty t) r₁ → Settles c r₁ (.members ms found) r₂ →
    Settles c r (.members ((m, k) :: ms)
      ({ decl := m, name := c.arena.nameOf s, type := t, index := k,
         builtin := c.arena.builtinOf as } :: found)) r₂
  | stray {r r' m k ms found} : (c.arena.shape? m).any Shape.isStructMember = false →
    Settles c r (.members ms found) r' → Settles c r (.members ((m, k) :: ms) found) r'

section

variable {c : Scene} {r r' : Resolver}

@[simp] theorem pending_after_keepType (i : NodeId) (t : Option Ty) :
    (after (keepType i t) r).pending = r.pending := by
  cases t <;> rfl

/-- What was pending is pending afterwards. -/
theorem Settles.pending {f : TypeFinding} (h : Settles c r f r') : r'.pending = r.pending := by
  induction h with
  | around _ _ _ ih => exact (pending_after_keepType _ _).trans ih
  | named _ _ _ _ ih => exact (pending_after_keepType _ _).trans ih
  | @struct r r' d s ms as found _ _ _ _ ih =>
    have hleft : (leave (closeStruct r' d { decl := d, name := c.arena.nameOf s, members := found })
      d).pending =
        r'.pending.erase d := rfl
    rw [hleft, ih]
    exact List.erase_cons_head d r.pending
  | @typeAlias r r' d s ty t _ _ _ _ ih =>
    have hleft : (leave (after (keepType d t) r') d).pending = r'.pending.erase d := by
      rw [leave, pending_after_keepType]
    rw [hleft, ih]
    exact List.erase_cons_head d r.pending
  | member _ _ _ ih₁ ih₂ => exact ih₂.trans ih₁
  | stray _ _ ih => exact ih
  | _ => rfl

end

section

variable {c : Scene} {tree : NodeId → Prop} {rank : NodeId → Nat} {gs : List NodeId} {L : Nat}

/-- Type nodes that are near are resolved as the rules say while `P` are pending. -/
def NodesSettle (c : Scene) (P : List NodeId) (near : NodeId → Prop)
    (one : NodeId → Resolve (Option Ty)) : Prop :=
  ∀ i r, r.pending = P → near i → Ends (one i) r fun t r' => Settles c r (.node i t) r'

theorem settles_members {P : List NodeId} {near : NodeId → Prop}
    {one : NodeId → Resolve (Option Ty)} (hone : NodesSettle c P near one)
    {ms : List (NodeId × Nat)}
    (hms : ∀ m ∈ ms, ∀ s ty as, c.arena.shape? m.1 = some (.structMember s ty as) → near ty)
    (r : Resolver) (hr : r.pending = P) :
    Ends (ms.filterMapM fun (m, k) => memberFacts c one m k) r fun found r' =>
      Settles c r (.members ms found) r' := by
  induction ms generalizing r with
  | nil => exact .pure .nil
  | cons x ms ih =>
    obtain ⟨m, k⟩ := x
    have hrest := ih fun y hy => hms y (List.mem_cons_of_mem _ hy)
    rw [List.filterMapM_cons]
    refine .bind ?_
    dsimp only
    unfold memberFacts
    split
    · next s ty as hs =>
      refine .bind ((hone ty r hr (hms _ List.mem_cons_self s ty as hs)).mono fun t r₁ h₁ =>
        .pure ?_)
      exact .bind ((hrest r₁ (h₁.pending.trans hr)).mono fun found r₂ h₂ =>
        .pure (.member hs h₁ h₂))
    · next hs =>
      refine .pure ((hrest r hr).mono fun found r₂ h₂ => .stray ?_ h₂)
      cases hm : c.arena.shape? m with
      | none => rfl
      | some x =>
        cases x with
        | structMember s ty as => exact absurd hm (hs s ty as)
        | _ => rfl

/-- A declaration that is met for the first time is entered and left again. -/
theorem ends_enter {n : Nat} {d : NodeId} {r : Resolver} {Q : Option Ty → Resolver → Prop}
    (hnone : r.facts.types[d]? = none) (hnot : d ∉ r.pending)
    (h : Ends (declared c (type c n) d) (enter r d) fun t r' => Q t (leave r' d)) :
    Ends (typeDecl c (n + 1) d) r Q := by
  have hpending : r.pending.contains d = false := by simpa using hnot
  unfold typeDecl
  refine .get ?_
  simp only [hnone, hpending, Bool.false_eq_true, if_false]
  exact .bind (.modify (.bind (h.mono fun t r' h' => .bind (.modify (.pure h')))))

/-- A declaration that is entered is settled by what is found out about the type nodes in it. -/
theorem settles_declared {near : NodeId → Prop} {one : NodeId → Resolve (Option Ty)} {d : NodeId}
    {r : Resolver} (hone : NodesSettle c (d :: r.pending) near one)
    (hd : (c.arena.shape? d).any Shape.isTypeDecl = true) (hnone : r.facts.types[d]? = none)
    (hnot : d ∉ r.pending)
    (hmember : ∀ s ms as, c.arena.shape? d = some (.decl (.struct s ms as)) →
      ∀ m ∈ ms, ∀ s ty as, c.arena.shape? m = some (.structMember s ty as) → near ty)
    (halias : ∀ s ty, c.arena.shape? d = some (.decl (.typeAlias s ty)) → near ty) :
    Ends (declared c one d) (enter r d) fun t r' => Settles c r (.decl d t) (leave r' d) := by
  unfold declared
  split
  · next s ms as hs =>
    refine .bind (.modify ?_)
    refine .bind ((settles_members hone ?_ (openStruct (enter r d) d (c.arena.nameOf s)) rfl).mono
      fun found r₁ h₁ => ?_)
    · rintro ⟨m, k⟩ hm
      exact hmember s ms as hs m (List.mem_of_getElem? (List.mem_zipIdx_iff_getElem?.1 hm))
    · exact .bind (.modify (.pure (.struct hs hnone hnot h₁)))
  · next s ty hs =>
    refine .bind ((hone ty (enter r d) rfl (halias s ty hs)).mono fun t r₁ h₁ => ?_)
    refine (ends_keepType d t r₁).mono fun u r₂ h₂ => ?_
    rw [h₂.1, h₂.2]
    exact .typeAlias hs hnone hnot h₁
  · next h₁ h₂ =>
    exfalso
    rcases Arena.shape?_of_isTypeDecl hd with ⟨s, ms, as, hx⟩ | ⟨s, ty, hx⟩
    · exact h₁ s ms as hx
    · exact h₂ s ty hx

/-- The type node of a member is in the tree, if there is one. -/
theorem Charted.member_type (hc : Charted c tree rank gs L) {m ty : NodeId} {s : Symbol}
    {as : List NodeId} {lower : Prop} (hm : m = 0 ∨ (tree m ∧ lower))
    (hs : c.arena.shape? m = some (.structMember s ty as)) : ty = 0 ∨ tree ty := by
  rcases hm with rfl | ⟨hm, _⟩
  · cases hs
  · have hty : ty ∈ (Shape.structMember s ty as : Shape Symbol NodeId).slots :=
      List.mem_append.2 (.inr (List.mem_singleton.2 rfl))
    exact (hc.slot hm hs hty).imp_right And.left

/-- Resolution within a bound that is large enough does what the rules say. -/
theorem settles_types (hc : Charted c tree rank gs L) (n : Nat) :
    (∀ i r, r.pending.Nodup → (∀ d ∈ r.pending, d ∈ gs) → Shallow tree rank gs L r.pending i n →
      Ends (type c n i) r fun t r' => Settles c r (.node i t) r') ∧
    ∀ d r, r.pending.Nodup → (∀ d ∈ r.pending, d ∈ gs) → d ∈ gs →
      (c.arena.shape? d).any Shape.isTypeDecl = true →
      room gs L r.pending + 1 ≤ n → Ends (typeDecl c n d) r fun t r' =>
        Settles c r (.decl d t) r' := by
  induction n with
  | zero =>
    refine ⟨fun i r _ _ hi => ?_, fun d r _ _ _ _ hn => absurd hn (Nat.not_succ_le_zero _)⟩
    rcases hi with ⟨_, h⟩ | ⟨_, h⟩
    · exact absurd h (Nat.not_succ_le_zero _)
    · exact absurd h (Nat.not_succ_le_zero _)
  | succ n ih =>
    obtain ⟨ihType, ihDecl⟩ := ih
    refine ⟨fun i r hnodup hP hi => ?_, fun d r hnodup hP hd hdecl hn => ?_⟩
    · have hplain : ∀ {x t}, c.arena.shape? i = some (.type x) → x.plain? = some t →
          Ends (keepType i (some t)) r fun u r' => Settles c r (.node i u) r' := by
        intro x t hx ht
        refine (ends_keepType i (some t) r).mono fun u r' h => ?_
        rw [h.1, h.2]
        exact .plain hx ht
      have haround : ∀ {x e f}, c.arena.shape? i = some (.type x) → x.around? = some (e, f) →
          Ends (do keepType i ((← type c n e).map f)) r fun u r' => Settles c r (.node i u) r' := by
        intro x e f hx he
        have hslot : e ∈ (Shape.type x : Shape Symbol NodeId).slots := by
          cases x <;> simp_all [TypeShape.around?, Shape.slots]
        refine .bind ((ihType e r hnodup hP (hc.shallow_slot hi hx hslot)).mono fun t r₁ h₁ => ?_)
        refine (ends_keepType i (t.map f) r₁).mono fun u r₂ h₂ => ?_
        rw [h₂.1, h₂.2]
        exact .around hx he h₁
      have hrefuse : ∀ message, Settles c r (.node i none) (after (refuse c i message) r) →
          Ends (refuse c i message) r fun u r' => Settles c r (.node i u) r' := by
        intro message hsettled
        refine (ends_refuse c i message r).mono fun u r' h => ?_
        rw [h.1, h.2]
        exact hsettled
      unfold type
      split
      · next h0 =>
        subst h0
        exact .pure .absent
      · next h0 =>
        split
        · next h => exact hplain h rfl
        · next h => exact hplain h rfl
        · next h => exact hplain h rfl
        · next h => exact hplain h rfl
        · next h => exact haround h rfl
        · next h => exact haround h rfl
        · next h => exact haround h rfl
        · next h => exact hplain h rfl
        · next h => exact haround h rfl
        · next h => exact hplain h rfl
        · next s hs =>
          split
          · next hfind => exact hrefuse _ (.unknown hs hfind)
          · next d hfind =>
            split
            · next hd =>
              have hroom : room gs L r.pending + 1 ≤ n := by
                have := hi.resolve_left fun h => h0 h.1
                omega
              refine .bind (.modify
                (.bind ((ihDecl d (refer r i d) hnodup hP (hc.module hfind) hd hroom).mono ?_)))
              intro t r₁ h₁
              refine (ends_keepType i t r₁).mono fun u r₂ h₂ => ?_
              rw [h₂.1, h₂.2]
              exact .named hs hfind hd h₁
            · next hd => exact hrefuse _ (.untyped hs hfind (by simpa using hd))
        · next h₁ h₂ h₃ h₄ h₅ h₆ h₇ h₈ h₉ h₁₀ h₁₁ =>
          refine hrefuse _ (.other h0 fun x hx => ?_)
          cases x with
          | bool => exact h₁ hx
          | i32 => exact h₂ hx
          | u32 => exact h₃ hx
          | f32 => exact h₄ hx
          | vector e w => exact h₅ e w hx
          | matrix e cols rows => exact h₆ e cols rows hx
          | array e count => exact h₇ e count hx
          | sampler cmp => exact h₈ cmp hx
          | sampledTexture dim e => exact h₉ dim e hx
          | externalTexture => exact h₁₀ hx
          | named s => exact h₁₁ s hx
    · by_cases hmem : r.facts.types[d]? = none ∧ d ∉ r.pending
      · obtain ⟨hnone, hnot⟩ := hmem
        have hnodup' : (d :: r.pending).Nodup := List.nodup_cons.2 ⟨hnot, hnodup⟩
        have hP' : ∀ x ∈ d :: r.pending, x ∈ gs := by simpa using ⟨hd, hP⟩
        have hroom := room_cons (L := L) hP hnodup hd hnot
        have hone : NodesSettle c (d :: r.pending) (fun i => i = 0 ∨ tree i) (type c n) := by
          intro i r₁ hr₁ hi
          refine ihType i r₁ (hr₁ ▸ hnodup') (hr₁ ▸ hP') ?_
          rw [hr₁]
          exact hi.imp (fun h => ⟨h, by omega⟩) fun h => ⟨h, by omega⟩
        refine ends_enter hnone hnot (settles_declared hone hdecl hnone hnot ?_ ?_)
        · intro s ms as hs m hm s' ty as' hm'
          have hslot : m ∈ (Shape.decl (.struct s ms as) : Shape Symbol NodeId).slots :=
            List.mem_append.2 (.inr hm)
          exact hc.member_type (hc.slot (hc.globals d hd) hs hslot) hm'
        · intro s ty hs
          exact (hc.slot (hc.globals d hd) hs (List.mem_singleton.2 rfl : ty ∈ [ty])).imp_right
            And.left
      · unfold typeDecl
        refine .get ?_
        cases hknown : r.facts.types[d]? with
        | some t => exact .pure (.known hknown)
        | none =>
          have hpending : d ∈ r.pending := Decidable.byContradiction fun hnot => hmem ⟨hknown, hnot⟩
          have hcontains : r.pending.contains d = true := by simpa using hpending
          simp only [hcontains, if_true]
          refine (ends_refuse c d "cyclic type declaration" r).mono fun u r' h => ?_
          rw [h.1, h.2]
          exact .cyclic hknown hpending

/-- What the rules say is what resolution does, within a bound that is large enough. -/
def Computed (c : Scene) (tree : NodeId → Prop) (rank : NodeId → Nat) (gs : List NodeId) (L : Nat)
    (r r' : Resolver) : TypeFinding → Prop
  | .node i t =>
    ∀ n, Shallow tree rank gs L r.pending i n → Ends (type c n i) r fun u r₁ => u = t ∧ r₁ = r'
  | .decl d t =>
    d ∈ gs → ∀ n, room gs L r.pending + 1 ≤ n → Ends (typeDecl c n d) r fun u r₁ => u = t ∧ r₁ = r'
  | .members ms found => (∀ m ∈ ms, m.1 = 0 ∨ tree m.1) → ∀ n, room gs L r.pending + (L + 2) ≤ n →
    Ends (ms.filterMapM fun (m, k) => memberFacts c (type c n) m k) r fun fs r₁ =>
      fs = found ∧ r₁ = r'

theorem Shallow.pos {P : List NodeId} {i : NodeId} {n : Nat} (h : Shallow tree rank gs L P i n) :
    ∃ k, n = k + 1 := by
  rcases h with ⟨_, h⟩ | ⟨_, h⟩
  · exact ⟨n - 1, by omega⟩
  · exact ⟨n - 1, by omega⟩

/-- The rules say nothing else than what resolution does. -/
theorem Settles.computed (hc : Charted c tree rank gs L) {r r' : Resolver} {f : TypeFinding}
    (h : Settles c r f r') (hnodup : r.pending.Nodup) (hP : ∀ d ∈ r.pending, d ∈ gs) :
    Computed c tree rank gs L r r' f := by
  have hne : ∀ {i x}, c.arena.shape? i = some x → i ≠ 0 := by
    rintro i x hx rfl
    cases hx
  induction h with
  | absent =>
    intro n hn
    obtain ⟨n, rfl⟩ := hn.pos
    unfold type
    rw [if_pos rfl]
    exact .pure ⟨rfl, rfl⟩
  | @plain r i x t hx hplain =>
    intro n hn
    obtain ⟨n, rfl⟩ := hn.pos
    unfold type
    rw [if_neg (hne hx), hx]
    cases x <;> cases hplain <;> exact ends_keepType i _ r
  | @around r r' i x e f t hx haround _ ih =>
    intro n hn
    obtain ⟨n, rfl⟩ := hn.pos
    have hslot : e ∈ (Shape.type x : Shape Symbol NodeId).slots := by
      cases x <;> simp_all [TypeShape.around?, Shape.slots]
    have hends : Ends (do keepType i ((← type c n e).map f)) r fun u r₁ =>
        u = t.map f ∧ r₁ = after (keepType i (t.map f)) r' := by
      refine .bind ((ih hnodup hP n (hc.shallow_slot hn hx hslot)).mono fun u r₁ h₁ => ?_)
      rw [h₁.1, h₁.2]
      exact ends_keepType i (t.map f) r'
    unfold type
    rw [if_neg (hne hx), hx]
    cases x <;> cases haround <;> exact hends
  | @named r r' i s d t hs hfind hd _ ih =>
    intro n hn
    obtain ⟨n, rfl⟩ := hn.pos
    have hroom : room gs L r.pending + 1 ≤ n := by
      have := hn.resolve_left fun h => hne hs h.1
      omega
    unfold type
    rw [if_neg (hne hs), hs]
    simp only [hfind, hd, if_true]
    refine .bind (.modify (.bind ((ih hnodup hP (hc.module hfind) n hroom).mono fun u r₁ h₁ => ?_)))
    rw [h₁.1, h₁.2]
    exact ends_keepType i t r'
  | @unknown r i s hs hfind =>
    intro n hn
    obtain ⟨n, rfl⟩ := hn.pos
    unfold type
    rw [if_neg (hne hs), hs]
    simp only [hfind]
    exact ends_refuse c i _ r
  | @untyped r i s d hs hfind hd =>
    intro n hn
    obtain ⟨n, rfl⟩ := hn.pos
    unfold type
    rw [if_neg (hne hs), hs]
    simp only [hfind, hd, Bool.false_eq_true, if_false]
    exact ends_refuse c i _ r
  | @other r i h0 hnot =>
    intro n hn
    obtain ⟨n, rfl⟩ := hn.pos
    unfold type
    rw [if_neg h0]
    split
    iterate 11 (next h => exact absurd h (hnot _))
    exact ends_refuse c i _ r
  | @known r d t hknown =>
    intro _ n hn
    obtain ⟨n, rfl⟩ : ∃ k, n = k + 1 := ⟨n - 1, by omega⟩
    unfold typeDecl
    refine .get ?_
    simp only [hknown]
    exact .pure ⟨rfl, rfl⟩
  | @cyclic r d hnone hmem =>
    intro _ n hn
    obtain ⟨n, rfl⟩ : ∃ k, n = k + 1 := ⟨n - 1, by omega⟩
    have hcontains : r.pending.contains d = true := by simpa using hmem
    unfold typeDecl
    refine .get ?_
    simp only [hnone, hcontains, if_true]
    exact ends_refuse c d _ r
  | @struct r r' d s ms as found hs hnone hnot _ ih =>
    intro hd n hn
    obtain ⟨n, rfl⟩ : ∃ k, n = k + 1 := ⟨n - 1, by omega⟩
    have hroom := room_cons (L := L) hP hnodup hd hnot
    refine ends_enter hnone hnot ?_
    unfold declared
    rw [hs]
    refine .bind
      (.modify (.bind ((ih (List.nodup_cons.2 ⟨hnot, hnodup⟩) ?_ ?_ n ?_).mono fun fs r₁ h₁ => ?_)))
    · exact fun x hx => (List.mem_cons.1 hx).elim (fun h => h ▸ hd) (hP x)
    · rintro ⟨m, k⟩ hm
      have hmem : m ∈ (Shape.decl (.struct s ms as) : Shape Symbol NodeId).slots :=
        List.mem_append.2 (.inr (List.mem_of_getElem? (List.mem_zipIdx_iff_getElem?.1 hm)))
      exact (hc.slot (hc.globals d hd) hs hmem).imp_right And.left
    · have hpending : room gs L (openStruct (enter r d) d (c.arena.nameOf s)).pending =
          room gs L (d :: r.pending) := rfl
      omega
    · rw [h₁.1, h₁.2]
      exact .bind (.modify (.pure ⟨rfl, rfl⟩))
  | @typeAlias r r' d s ty t hs hnone hnot _ ih =>
    intro hd n hn
    obtain ⟨n, rfl⟩ : ∃ k, n = k + 1 := ⟨n - 1, by omega⟩
    have hroom := room_cons (L := L) hP hnodup hd hnot
    have hshallow : Shallow tree rank gs L (d :: r.pending) ty n :=
      (hc.slot (hc.globals d hd) hs (List.mem_singleton.2 rfl : ty ∈ [ty])).imp
        (fun h => ⟨h, by omega⟩)
        fun h => ⟨h.1, by omega⟩
    refine ends_enter hnone hnot ?_
    unfold declared
    rw [hs]
    refine .bind ((ih (List.nodup_cons.2 ⟨hnot, hnodup⟩) ?_ n hshallow).mono fun u r₁ h₁ => ?_)
    · exact fun x hx => (List.mem_cons.1 hx).elim (fun h => h ▸ hd) (hP x)
    · rw [h₁.1, h₁.2]
      exact (ends_keepType d t r').mono fun v r₂ h₂ => ⟨h₂.1, by rw [h₂.2]⟩
  | nil =>
    intro _ n _
    exact .pure ⟨rfl, rfl⟩
  | @member r r₁ r₂ m k s ty as t ms found hs h₁ _ ih₁ ih₂ =>
    intro hms n hn
    have htype := hc.member_type ((hms (m, k) List.mem_cons_self).imp_right fun h => ⟨h, trivial⟩)
      hs
    have hshallow : Shallow tree rank gs L r.pending ty n :=
      htype.imp (fun h => ⟨h, by omega⟩) fun h => ⟨h, by omega⟩
    rw [List.filterMapM_cons]
    refine .bind ?_
    dsimp only
    unfold memberFacts
    rw [hs]
    refine .bind ((ih₁ hnodup hP n hshallow).mono fun u r₃ h₃ => .pure ?_)
    rw [h₃.1, h₃.2]
    have hrest := ih₂ (h₁.pending ▸ hnodup) (h₁.pending ▸ hP)
      (fun x hx => hms x (List.mem_cons_of_mem _ hx)) n
      (h₁.pending ▸ hn)
    exact .bind (hrest.mono fun fs r₄ h₄ => .pure ⟨by rw [h₄.1], h₄.2⟩)
  | @stray r r' m k ms found hm _ ih =>
    intro hms n hn
    rw [List.filterMapM_cons]
    refine .bind ?_
    dsimp only
    unfold memberFacts
    split
    · next hs => simp [hs, Shape.isStructMember] at hm
    · exact .pure (ih hnodup hP (fun x hx => hms x (List.mem_cons_of_mem _ hx)) n hn)

theorem room_le (gs : List NodeId) (L : Nat) (P : List NodeId) : room gs L P ≤ room gs L [] :=
  Nat.mul_le_mul_right _ (Nat.sub_le_sub_left (Nat.zero_le _) _)

/-- The bound is large enough for all type nodes, whatever is pending. -/
theorem Charted.shallow_pending (hc : Charted c tree rank gs L) {i : NodeId} {n : Nat}
    (hi : i = 0 ∨ tree i) (hn : c.fuel ≤ n) (P : List NodeId) : Shallow tree rank gs L P i n := by
  have hroom := room_le gs L P
  exact (hc.shallow hi).imp (fun h => ⟨h.1, by omega⟩) fun h => ⟨h.1, by omega⟩

/-- So it is for structures and aliases. -/
theorem Charted.room_pending (hc : Charted c tree rank gs L) {n : Nat} (hn : c.fuel ≤ n)
    (P : List NodeId) : room gs L P + 1 ≤ n := by
  have hroom := room_le gs L P
  have hlt := hc.room_lt
  omega

variable (hc : Charted c tree rank gs L) {n : Nat} (hn : c.fuel ≤ n) {r : Resolver}
    (hnodup : r.pending.Nodup)
  (hP : ∀ d ∈ r.pending, d ∈ gs)
include hc hn hnodup hP

theorem settles_typeDecl {d : NodeId} (hd : d ∈ gs)
    (hdecl : (c.arena.shape? d).any Shape.isTypeDecl = true) :
    Ends (typeDecl c n d) r fun t r' => Settles c r (.decl d t) r' :=
  (settles_types hc n).2 d r hnodup hP hd hdecl (hc.room_pending hn _)

theorem run_typeDecl_iff {d : NodeId} (hd : d ∈ gs)
    (hdecl : (c.arena.shape? d).any Shape.isTypeDecl = true) {t : Option Ty} {r' : Resolver} :
    (typeDecl c n d).run r = (t, r') ↔ Settles c r (.decl d t) r' := by
  constructor
  · intro hrun
    have hsettled := (settles_typeDecl hc hn hnodup hP hd hdecl).run
    rwa [hrun] at hsettled
  · intro h
    have hcomputed := (h.computed hc hnodup hP hd n (hc.room_pending hn _)).run
    exact Prod.ext hcomputed.1 hcomputed.2

variable (htree : ∀ i x, c.arena.shape? i = some x → tree i)
include htree

omit hnodup hP in
/-- What is not in the tree holds no node, and is no type. -/
theorem type_of_not_tree {i : NodeId} (hi : ¬(i = 0 ∨ tree i)) :
    c.arena.shape? i = none ∧ type c n i = refuse c i "expected a type" := by
  have hnone : c.arena.shape? i = none := Option.eq_none_iff_forall_ne_some.2 fun x hx =>
    hi (.inr (htree i x hx))
  obtain ⟨m, rfl⟩ : ∃ m, n = m + 1 := ⟨n - 1, by have := hc.room_lt; omega⟩
  refine ⟨hnone, ?_⟩
  unfold type
  rw [if_neg fun h => hi (.inl h), hnone]

theorem settles_type (i : NodeId) : Ends (type c n i) r fun t r' => Settles c r (.node i t) r' := by
  by_cases hi : i = 0 ∨ tree i
  · exact (settles_types hc n).1 i r hnodup hP (hc.shallow_pending hi hn _)
  · obtain ⟨hnone, hrefuse⟩ := type_of_not_tree hc hn htree hi
    rw [hrefuse]
    refine (ends_refuse c i "expected a type" r).mono fun u r' h => ?_
    rw [h.1, h.2]
    refine .other (fun h => hi (.inl h)) fun x hx => ?_
    rw [hnone] at hx
    cases hx

/-- Resolution does exactly what the rules say, at every bound from the scene's on. -/
theorem run_type_iff {i : NodeId} {t : Option Ty} {r' : Resolver} :
    (type c n i).run r = (t, r') ↔ Settles c r (.node i t) r' := by
  constructor
  · intro hrun
    have hsettled := (settles_type hc hn hnodup hP htree i).run
    rwa [hrun] at hsettled
  · intro h
    by_cases hi : i = 0 ∨ tree i
    · have hcomputed := (h.computed hc hnodup hP n (hc.shallow_pending hi hn _)).run
      exact Prod.ext hcomputed.1 hcomputed.2
    · obtain ⟨hnone, hrefuse⟩ := type_of_not_tree hc hn htree hi
      have hout : ∀ {x}, c.arena.shape? i ≠ some x := by simp [hnone]
      rw [hrefuse]
      cases h with
      | absent => exact absurd (.inl rfl) hi
      | plain hx _ => exact absurd hx hout
      | around hx _ _ => exact absurd hx hout
      | named hx _ _ _ => exact absurd hx hout
      | unknown hx _ => exact absurd hx hout
      | untyped hx _ _ => exact absurd hx hout
      | other _ _ => rfl

end
end ShaderLoom.Resolve
