import ShaderLoom.Proofs.Meaning.Settling

/-! Types that lead back to themselves. A structure may: it has its one type before its members are
looked at, and whatever stands for it has no other. An alias may not: on a cycle of aliases no type
is ever found, and one of them is reported. -/
namespace ShaderLoom.Resolve

open Relation (TransGen ReflTransGen)

/-- A declaration, a name of what stands for it, and an alias of what stands for it. -/
inductive StandsFor (c : Scene) (d : NodeId) : NodeId → Prop
  | itself : StandsFor c d d
  | name {i s b} : c.arena.shape? i = some (.type (.named s)) → c.module.find? s = some b →
    StandsFor c d b → StandsFor c d i
  | typeAlias {a s ty} : c.arena.shape? a = some (.decl (.typeAlias s ty)) → StandsFor c d ty →
    StandsFor c d a

/-- A name of a declaration, and a type made of what refers to it. -/
inductive Refers (c : Scene) (b : NodeId) : NodeId → Prop
  | name {i s} : c.arena.shape? i = some (.type (.named s)) →
    c.module.find? s = some b → Refers c b i
  | around {i x e f} : c.arena.shape? i = some (.type x) → x.around? = some (e, f) →
    Refers c b e → Refers c b i

/-- The alias is of a type that refers to the declaration. -/
def AliasTo (c : Scene) (a b : NodeId) : Prop :=
  ∃ s ty, c.arena.shape? a = some (.decl (.typeAlias s ty)) ∧ Refers c b ty

/-- The alias leads back to itself, through aliases alone. -/
def Cyclic (c : Scene) (a : NodeId) : Prop := TransGen (AliasTo c) a a

/-- A problem is reported on the way from the alias back to itself. -/
def CycleReported (c : Scene) (a : NodeId) (r : Resolver) : Prop :=
  ∃ b, TransGen (AliasTo c) a b ∧ TransGen (AliasTo c) b a ∧
    Diagnostic.errorAt .resolver "cyclic type declaration" (c.arena.spanOf b) ∈ r.diagnostics

/-- No type is forgotten, and no problem is. -/
structure Later (r r' : Resolver) : Prop where
  types : ∀ x : NodeId, (r.facts.types[x]?).isSome → (r'.facts.types[x]?).isSome
  diagnostics : r.diagnostics <+: r'.diagnostics

section

variable {c : Scene} {r r' r₁ : Resolver}

theorem Later.refl (r : Resolver) : Later r r := ⟨fun _ h => h, List.prefix_rfl⟩

theorem Later.trans (h : Later r r₁) (h' : Later r₁ r') : Later r r' :=
  ⟨fun x hx => h'.types x (h.types x hx), h.diagnostics.trans h'.diagnostics⟩

theorem types_keepType (i : NodeId) (t : Option Ty) (r : Resolver) (x : NodeId) :
    (after (keepType i t) r).facts.types[x]? = if i = x then t.or r.facts.types[x]?
    else r.facts.types[x]? := by
  cases t with
  | none => exact (ite_self _).symm
  | some t =>
    have hinsert : (after (keepType i (some t)) r).facts.types = r.facts.types.insert i t := rfl
    rw [hinsert, Std.TreeMap.getElem?_insert]
    simp only [Nat.compare_eq_eq, Option.some_or]

theorem types_openStruct (r : Resolver) (d : NodeId) (name : String) (x : NodeId) :
    (openStruct r d name).facts.types[x]? = if d = x then some (.struct d name)
    else r.facts.types[x]? := by
  have hinsert : (openStruct r d name).facts.types = r.facts.types.insert d (.struct d name) := rfl
  rw [hinsert, Std.TreeMap.getElem?_insert]
  simp only [Nat.compare_eq_eq]

theorem later_keepType (i : NodeId) (t : Option Ty) (r : Resolver) :
    Later r (after (keepType i t) r) := by
  constructor
  · intro x hx
    rw [types_keepType]
    split
    · cases t with
      | none => exact hx
      | some t => rfl
    · exact hx
  · cases t <;> exact List.prefix_rfl

theorem later_openStruct (r : Resolver) (d : NodeId) (name : String) :
    Later r (openStruct r d name) := by
  refine ⟨fun x hx => ?_, List.prefix_rfl⟩
  rw [types_openStruct]
  split
  · rfl
  · exact hx

theorem later_refuse (id : NodeId) (message : String) (r : Resolver) :
    Later r (after (refuse c id message) r) :=
  ⟨fun _ h => h, List.prefix_append _ _⟩

/-- What the rules lead to comes later. -/
theorem Settles.later {f : TypeFinding} (h : Settles c r f r') : Later r r' := by
  induction h with
  | absent => exact .refl _
  | plain => exact later_keepType _ _ _
  | around _ _ _ ih => exact ih.trans (later_keepType _ _ _)
  | named _ _ _ _ ih => exact Later.trans ⟨ih.types, ih.diagnostics⟩ (later_keepType _ _ _)
  | unknown => exact later_refuse _ _ _
  | untyped => exact later_refuse _ _ _
  | other => exact later_refuse _ _ _
  | known => exact .refl _
  | cyclic => exact later_refuse _ _ _
  | @struct r r' d s ms as found _ _ _ _ ih =>
    have hopen := later_openStruct r d (c.arena.nameOf s)
    exact ⟨fun x hx => ih.types x (hopen.types x hx), ih.diagnostics⟩
  | @typeAlias r r' d s ty t _ _ _ _ ih =>
    have hkeep := later_keepType d t r'
    exact ⟨fun x hx => hkeep.types x (ih.types x hx), ih.diagnostics.trans hkeep.diagnostics⟩
  | nil => exact .refl _
  | member _ _ _ ih₁ ih₂ => exact ih₁.trans ih₂
  | stray _ _ ih => exact ih

theorem CycleReported.later {a : NodeId} (h : CycleReported c a r) (hlater : Later r r') :
    CycleReported c a r' := by
  obtain ⟨b, hab, hba, hmem⟩ := h
  exact ⟨b, hab, hba, hlater.diagnostics.subset hmem⟩

end

section Structures

variable {c : Scene} {d : NodeId} {s : Symbol} {ms as : List NodeId}

/-- What a type node or a type declaration is found to have is the type, if it stands for the
structure. -/
def OnlyType (c : Scene) (d : NodeId) (T : Ty) : TypeFinding → Prop
  | .node i t => StandsFor c d i → ∀ u ∈ t, u = T
  | .decl i t => StandsFor c d i → ∀ u ∈ t, u = T
  | .members _ _ => True

/-- What stands for the structure has no other type. -/
def OneType (c : Scene) (d : NodeId) (T : Ty) (r : Resolver) : Prop :=
  ∀ x, StandsFor c d x → ∀ u ∈ r.facts.types[x]?, u = T

theorem OneType.keepType {T : Ty} {i : NodeId} {t : Option Ty} {r : Resolver} (h : OneType c d T r)
    (ht : StandsFor c d i → ∀ u ∈ t, u = T) : OneType c d T (after (keepType i t) r) := by
  intro x hx u hu
  rw [types_keepType] at hu
  split at hu
  · next heq =>
    subst heq
    rcases Option.or_eq_some_iff.1 hu with hu | ⟨_, hu⟩
    · exact ht hx u hu
    · exact h i hx u hu
  · exact h x hx u hu

variable (hd : c.arena.shape? d = some (.decl (.struct s ms as)))
include hd

theorem not_standsFor {i : NodeId} {x : TypeShape Symbol NodeId}
    (hx : c.arena.shape? i = some (.type x)) (hname : ∀ s, x ≠ .named s) : ¬ StandsFor c d i := by
  intro h
  cases h with
  | itself => cases hx.symm.trans hd
  | name hs _ _ => exact hname _ (Shape.type.inj (Option.some.inj (hx.symm.trans hs)))
  | typeAlias hs _ => cases hx.symm.trans hs

theorem standsFor_of_name {i b : NodeId} {s' : Symbol}
    (hi : c.arena.shape? i = some (.type (.named s'))) (hb : c.module.find? s' = some b)
    (h : StandsFor c d i) : StandsFor c d b := by
  cases h with
  | itself => cases hi.symm.trans hd
  | name hs hb' h =>
    cases hi.symm.trans hs
    cases hb.symm.trans hb'
    exact h
  | typeAlias hs _ => cases hi.symm.trans hs

theorem standsFor_of_alias {a ty : NodeId} {s' : Symbol}
    (ha : c.arena.shape? a = some (.decl (.typeAlias s' ty))) (h : StandsFor c d a) :
    StandsFor c d ty := by
  cases h with
  | itself => cases ha.symm.trans hd
  | name hs _ _ => cases ha.symm.trans hs
  | typeAlias hs h =>
    cases ha.symm.trans hs
    exact h

/-- Whatever is found out, what stands for the structure has its type and no other. -/
theorem Settles.oneType {r r' : Resolver} {f : TypeFinding} (h : Settles c r f r')
    (hr : OneType c d (.struct d (c.arena.nameOf s)) r) :
    OnlyType c d (.struct d (c.arena.nameOf s)) f ∧
    OneType c d (.struct d (c.arena.nameOf s)) r' := by
  induction h with
  | absent => exact ⟨fun _ => nofun, hr⟩
  | @plain r i x t hx ht =>
    have hnot : ¬ StandsFor c d i := by
      refine not_standsFor hd hx fun s' hs' => ?_
      rw [hs'] at ht
      cases ht
    exact ⟨fun h => absurd h hnot, hr.keepType fun h => absurd h hnot⟩
  | @around r r' i x e f t hx he _ ih =>
    have hnot : ¬ StandsFor c d i := by
      refine not_standsFor hd hx fun s' hs' => ?_
      rw [hs'] at he
      cases he
    exact ⟨fun h => absurd h hnot, (ih hr).2.keepType fun h => absurd h hnot⟩
  | named hi hb _ _ ih =>
    have hanswer := fun h => (ih hr).1 (standsFor_of_name hd hi hb h)
    exact ⟨hanswer, (ih hr).2.keepType hanswer⟩
  | unknown => exact ⟨fun _ => nofun, hr⟩
  | untyped => exact ⟨fun _ => nofun, hr⟩
  | other => exact ⟨fun _ => nofun, hr⟩
  | known hknown =>
    refine ⟨fun h u hu => ?_, hr⟩
    exact hr _ h u (hknown.trans hu)
  | cyclic => exact ⟨fun _ => nofun, hr⟩
  | @struct r r' x s' ms' as' found hx _ _ _ ih =>
    have hanswer : StandsFor c d x → Ty.struct x (c.arena.nameOf s') =
        .struct d (c.arena.nameOf s) := by
      intro h
      cases h with
      | itself =>
        cases hx.symm.trans hd
        rfl
      | name hs _ _ => cases hx.symm.trans hs
      | typeAlias hs _ => cases hx.symm.trans hs
    have hopen : OneType c d (.struct d (c.arena.nameOf s))
        (openStruct (enter r x) x (c.arena.nameOf s')) := by
      intro y hy u hu
      rw [types_openStruct] at hu
      split at hu
      · next heq =>
        subst heq
        cases hu
        exact hanswer hy
      · exact hr y hy u hu
    refine ⟨fun h u hu => ?_, (ih hopen).2⟩
    cases hu
    exact hanswer h
  | typeAlias ha _ _ _ ih =>
    have hanswer := fun h => (ih hr).1 (standsFor_of_alias hd ha h)
    exact ⟨hanswer, OneType.keepType (ih hr).2 hanswer⟩
  | nil => exact ⟨trivial, hr⟩
  | member _ _ _ ih₁ ih₂ => exact ⟨trivial, (ih₂ (ih₁ hr).2).2⟩
  | stray _ _ ih => exact ⟨trivial, (ih hr).2⟩

end Structures

section Typed

variable {c : Scene} {r r' : Resolver}

/-- A structure among the declarations. -/
def IsStruct (c : Scene) (d : NodeId) : Prop :=
  ∃ s ms as, c.arena.shape? d = some (.decl (.struct s ms as))

/-- Structures that are pending have their types. -/
def Entered (c : Scene) (r : Resolver) : Prop :=
  ∀ d ∈ r.pending, IsStruct c d → (r.facts.types[d]?).isSome

theorem Entered.later (h : Entered c r) (hpending : r'.pending = r.pending) (hlater : Later r r') :
    Entered c r' :=
  fun d hd hs => hlater.types d (h d (hpending ▸ hd) hs)

/-- What is found of a structure is a type, which it then has. -/
def StructTyped (c : Scene) (r' : Resolver) : TypeFinding → Prop
  | .decl d t => IsStruct c d → t.isSome ∧ (r'.facts.types[d]?).isSome
  | _ => True

/-- Type nodes that have come to name structures have come to have types. -/
def NamesTyped (c : Scene) (r r' : Resolver) : Prop :=
  ∀ i d, IsStruct c d → r'.facts.typeDecls[i]? = some d →
    r.facts.typeDecls[i]? = some d ∨ (StandsFor c d i ∧ (r'.facts.types[i]?).isSome)

theorem NamesTyped.trans {r₁ : Resolver} (h : NamesTyped c r r₁) (h' : NamesTyped c r₁ r')
    (hlater : Later r₁ r') : NamesTyped c r r' := by
  intro i d hd hi
  rcases h' i d hd hi with h₁ | h₁
  · exact (h i d hd h₁).imp_right fun hi => ⟨hi.1, hlater.types i hi.2⟩
  · exact .inr h₁

theorem namesTyped_of_eq (h : r'.facts.typeDecls = r.facts.typeDecls) : NamesTyped c r r' :=
  fun _ _ _ hi => .inl (h ▸ hi)

theorem typeDecls_keepType (i : NodeId) (t : Option Ty) (r : Resolver) :
    (after (keepType i t) r).facts.typeDecls = r.facts.typeDecls := by
  cases t <;> rfl

theorem NamesTyped.keepType (h : NamesTyped c r r') (i : NodeId) (t : Option Ty) :
    NamesTyped c r (after (Resolve.keepType i t) r') :=
  h.trans (namesTyped_of_eq (typeDecls_keepType i t r')) (later_keepType i t r')

/-- Whatever is found out, structures and the type nodes that name them come to have types. -/
theorem Settles.typed {f : TypeFinding} (h : Settles c r f r') (hr : Entered c r) :
    StructTyped c r' f ∧ NamesTyped c r r' := by
  have hsame : ∀ r, NamesTyped c r r := fun r => namesTyped_of_eq rfl
  induction h with
  | absent => exact ⟨trivial, hsame _⟩
  | plain => exact ⟨trivial, (hsame _).keepType _ _⟩
  | around _ _ _ ih => exact ⟨trivial, (ih hr).2.keepType _ _⟩
  | @named r r' i s d t hi hb _ hdecl ih =>
    obtain ⟨hdone, hnames⟩ := ih hr
    refine ⟨trivial, fun j b hs hj => ?_⟩
    rcases hnames.keepType i t j b hs hj with hbefore | hafter
    · -- The node itself may name the structure only now.
      rw [refer, Std.TreeMap.getElem?_insert] at hbefore
      split at hbefore
      · next heq =>
        obtain rfl := Nat.compare_eq_eq.1 heq
        obtain rfl := Option.some.inj hbefore
        refine .inr ⟨.name hi hb .itself, ?_⟩
        rw [types_keepType, if_pos rfl, Option.isSome_or, (hdone hs).1, Bool.true_or]
      · exact .inl hbefore
    · exact .inr hafter
  | unknown => exact ⟨trivial, hsame _⟩
  | untyped => exact ⟨trivial, hsame _⟩
  | other => exact ⟨trivial, hsame _⟩
  | known hknown => exact ⟨fun _ => ⟨rfl, by rw [hknown]; rfl⟩, hsame _⟩
  | cyclic hnone hmem =>
    refine ⟨fun hs => ?_, hsame _⟩
    have := hr _ hmem hs
    rw [hnone] at this
    cases this
  | @struct r r' d s ms as found hd _ _ hmembers ih =>
    have hopen : ((openStruct (enter r d) d (c.arena.nameOf s)).facts.types[d]?).isSome := by
      rw [types_openStruct, if_pos rfl]
      rfl
    have hentered : Entered c (openStruct (enter r d) d (c.arena.nameOf s)) := by
      intro x hx hs
      rcases List.mem_cons.1 hx with rfl | hx
      · exact hopen
      · exact (later_openStruct (enter r d) d _).types x (hr x hx hs)
    exact ⟨fun _ => ⟨rfl, hmembers.later.types d hopen⟩, (ih hentered).2⟩
  | @typeAlias r r' d s ty t hd _ _ _ ih =>
    have hnot : ¬ IsStruct c d := by
      rintro ⟨_, _, _, hs⟩
      cases hd.symm.trans hs
    have hentered : Entered c (enter r d) := by
      intro x hx hs
      rcases List.mem_cons.1 hx with rfl | hx
      · exact absurd hs hnot
      · exact hr x hx hs
    exact ⟨fun hs => absurd hs hnot, NamesTyped.keepType (ih hentered).2 d t⟩
  | nil => exact ⟨trivial, hsame _⟩
  | member _ h₁ h₂ ih₁ ih₂ =>
    have hnames := (ih₂ (hr.later h₁.pending h₁.later)).2
    exact ⟨trivial, (ih₁ hr).2.trans hnames h₂.later⟩
  | stray _ _ ih => exact ⟨trivial, (ih hr).2⟩

end Typed

section Cycles

variable {c : Scene} {r r' : Resolver}

/-- No alias that leads back to itself has a type. -/
def NoneCyclic (c : Scene) (r : Resolver) : Prop := ∀ a, Cyclic c a → r.facts.types[a]? = none

/-- Nothing is found of an alias that leads back to itself or of what refers to one, and the cycle
is reported. -/
def CycleFound (c : Scene) (r' : Resolver) : TypeFinding → Prop
  | .node i t => ∀ b, Refers c b i → Cyclic c b → t = none ∧ CycleReported c b r'
  | .decl d t => Cyclic c d → t = none ∧ CycleReported c d r'
  | .members _ _ => True

/-- What leads back to itself is an alias, of a type that refers to the next one on the way. -/
theorem Cyclic.next {a : NodeId} (h : Cyclic c a) :
    ∃ s ty b, c.arena.shape? a = some (.decl (.typeAlias s ty)) ∧
    Refers c b ty ∧ TransGen (AliasTo c) a b ∧ TransGen (AliasTo c) b a ∧ Cyclic c b := by
  obtain ⟨b, ⟨s, ty, ha, hb⟩, hback⟩ := Relation.TransGen.head'_iff.1 h
  have hab : TransGen (AliasTo c) a b := .single ⟨s, ty, ha, hb⟩
  have hba : TransGen (AliasTo c) b a := .trans_right hback h
  exact ⟨s, ty, b, ha, hb, hab, hba, hba.trans hab⟩

theorem Cyclic.not_struct {a : NodeId} (h : Cyclic c a) : ¬ IsStruct c a := by
  rintro ⟨s, ms, as, hs⟩
  obtain ⟨s', ty, b, ha, _⟩ := h.next
  cases ha.symm.trans hs

theorem NoneCyclic.keepType {i : NodeId} {t : Option Ty} (h : NoneCyclic c r)
    (ht : Cyclic c i → t = none) : NoneCyclic c (after (keepType i t) r) := by
  intro a ha
  rw [types_keepType]
  split
  · next heq =>
    subst heq
    rw [ht ha]
    exact h i ha
  · exact h a ha

/-- Type nodes are no aliases. -/
theorem not_cyclic_of_type {i : NodeId} {x : TypeShape Symbol NodeId}
    (hx : c.arena.shape? i = some (.type x)) : ¬ Cyclic c i := by
  intro h
  obtain ⟨s, ty, b, ha, _⟩ := h.next
  cases hx.symm.trans ha

theorem eq_of_refers {b d i : NodeId} {s : Symbol} (h : Refers c b i)
    (hi : c.arena.shape? i = some (.type (.named s))) (hd : c.module.find? s = some d) : b = d := by
  cases h with
  | name hs hb =>
    cases hi.symm.trans hs
    exact Option.some.inj (hb.symm.trans hd)
  | around hs he _ =>
    cases hi.symm.trans hs
    cases he

/-- Whatever is found out, aliases that lead back to themselves have no types, and looking for one
is reported. -/
theorem Settles.cycles {f : TypeFinding} (h : Settles c r f r') (hr : NoneCyclic c r) :
    CycleFound c r' f ∧ NoneCyclic c r' := by
  induction h with
  | absent => exact ⟨fun b hb _ => by cases hb <;> contradiction, hr⟩
  | @plain r i x t hx ht =>
    have hnot : ∀ b, ¬ Refers c b i := by
      intro b hb
      cases hb with
      | name hs _ =>
        cases hx.symm.trans hs
        cases ht
      | around hs he _ =>
        cases hx.symm.trans hs
        cases x <;> cases ht <;> cases he
    exact ⟨fun b hb => absurd hb (hnot b), hr.keepType fun h => absurd h (not_cyclic_of_type hx)⟩
  | @around r r' i x e f t hx he _ ih =>
    refine ⟨fun b hb hcyclic => ?_, (ih hr).2.keepType fun h => absurd h (not_cyclic_of_type hx)⟩
    have helem : Refers c b e := by
      cases hb with
      | name hs _ =>
        cases hx.symm.trans hs
        cases he
      | around hs he' h =>
        cases hx.symm.trans hs
        cases he.symm.trans he'
        exact h
    obtain ⟨hnone, hreported⟩ := (ih hr).1 b helem hcyclic
    exact ⟨by rw [hnone]; rfl, hreported.later (later_keepType _ _ _)⟩
  | named hi hb _ _ ih =>
    refine ⟨fun b hb' hcyclic => ?_, (ih hr).2.keepType fun h => absurd h (not_cyclic_of_type hi)⟩
    obtain rfl := eq_of_refers hb' hi hb
    obtain ⟨hnone, hreported⟩ := (ih hr).1 hcyclic
    exact ⟨hnone, hreported.later (later_keepType _ _ _)⟩
  | unknown hi hfind =>
    refine ⟨fun b hb _ => ?_, hr⟩
    cases hb with
    | name hs hb =>
      cases hi.symm.trans hs
      cases hfind.symm.trans hb
    | around hs he _ =>
      cases hi.symm.trans hs
      cases he
  | untyped hi hfind hdecl =>
    refine ⟨fun b hb hcyclic => ?_, hr⟩
    obtain rfl := eq_of_refers hb hi hfind
    obtain ⟨s, ty, b', ha, _⟩ := hcyclic.next
    rw [ha] at hdecl
    cases hdecl
  | other _ hnot =>
    refine ⟨fun b hb _ => ?_, hr⟩
    cases hb with
    | name hs _ => exact absurd hs (hnot _)
    | around hs _ _ => exact absurd hs (hnot _)
  | known hknown =>
    refine ⟨fun hcyclic => ?_, hr⟩
    cases hknown.symm.trans (hr _ hcyclic)
  | @cyclic r d _ _ =>
    refine ⟨fun hcyclic => ⟨rfl, d, hcyclic, hcyclic, ?_⟩, hr⟩
    exact List.mem_append_right _ (List.mem_singleton.2 rfl)
  | @struct r r' d s ms as found hd _ _ _ ih =>
    have hnot : ¬ Cyclic c d := fun h => h.not_struct ⟨s, ms, as, hd⟩
    have hopen : NoneCyclic c (openStruct (enter r d) d (c.arena.nameOf s)) := by
      intro a ha
      rw [types_openStruct, if_neg]
      · exact hr a ha
      · rintro rfl
        exact hnot ha
    exact ⟨fun h => absurd h hnot, (ih hopen).2⟩
  | @typeAlias r r' d s ty t hd _ _ _ ih =>
    have hanswer : Cyclic c d → t = none ∧ CycleReported c d r' := by
      intro hcyclic
      -- The next alias on the way is on the same cycle, and so is the one that is reported.
      obtain ⟨s', ty', b, ha, hb, hdb, hbd, hcyclic'⟩ := hcyclic.next
      cases hd.symm.trans ha
      obtain ⟨hnone, x, hbx, hxb, hmem⟩ := (ih hr).1 b hb hcyclic'
      exact ⟨hnone, x, hdb.trans hbx, hxb.trans hbd, hmem⟩
    refine ⟨fun hcyclic => ?_, NoneCyclic.keepType (ih hr).2 fun h => (hanswer h).1⟩
    obtain ⟨hnone, hreported⟩ := hanswer hcyclic
    obtain ⟨b, hdb, hbd, hmem⟩ := hreported.later (later_keepType d t r')
    exact ⟨hnone, b, hdb, hbd, hmem⟩
  | nil => exact ⟨trivial, hr⟩
  | member _ _ _ ih₁ ih₂ => exact ⟨trivial, (ih₂ (ih₁ hr).2).2⟩
  | stray _ _ ih => exact ⟨trivial, (ih hr).2⟩

end Cycles
end ShaderLoom.Resolve
