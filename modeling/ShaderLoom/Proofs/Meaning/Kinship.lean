import ShaderLoom.Proofs.Meaning.Kin
import ShaderLoom.Proofs.Meaning.Lockstep
import ShaderLoom.Proofs.Meaning.Settled

/-! Two modules of which one follows the other: its declarations, types and expressions stand for
those of the other, under other numbers and maybe other names. What is found out about the one is
found out about the other. -/
namespace ShaderLoom

/-- How the second module follows the first. Nodes stand for nodes, and in expressions something may
stand where a moved expression stood. -/
structure Kinship (a b : Arena) (M M' : Frame) (F : NodeId → ExprFacts → Prop) where
  /-- Types and declarations. -/
  node : NodeId → NodeId → Prop
  /-- Expressions other than the targets of calls. -/
  read : NodeId → NodeId → Prop
  /-- What stands where an expression stood that is somewhere else now. -/
  moved : NodeId → NodeId → Prop
  name : Symbol → Symbol → Prop
  number : VariableId → VariableId → Prop
  /-- Declarations of the module, which only one node stands for. -/
  top : NodeId → Prop
  unique : Relator.LeftUnique node
  once : ∀ {d e e'}, top d → node d e → node d e' → e = e'
  uniqueName : Relator.BiUnique name
  absent : ∀ {i j}, node i j → (i = 0 ↔ j = 0)
  readAbsent : ∀ {i j}, read i j → (i = 0 ↔ j = 0)
  movedPresent : ∀ {i j}, moved i j → i ≠ 0 ∧ j ≠ 0
  zero : node 0 0
  first : number 0 0
  next : ∀ {m n}, number m n → number (m + 1) (n + 1)
  text : ∀ {s s' r r'}, name s s' → name r r' →
    (a.nameOf s = a.nameOf r ↔ b.nameOf s' = b.nameOf r')
  find : ∀ {s s'}, name s s' → Option.Rel node (M.find? s) (M'.find? s')
  findTop : ∀ {s d}, M.find? s = some d → top d
  plain : ∀ {i j x t}, node i j → a.shape? i = some (.type x) → x.plain? = some t →
    ∃ y, b.shape? j = some (.type y) ∧ y.plain? = some t
  around : ∀ {i j x e f}, node i j → a.shape? i = some (.type x) → x.around? = some (e, f) →
    ∃ y e', b.shape? j = some (.type y) ∧ y.around? = some (e', f) ∧ node e e'
  named : ∀ {i j s}, node i j → a.shape? i = some (.type (.named s)) →
    ∃ s', b.shape? j = some (.type (.named s')) ∧ name s s'
  typeDecl : ∀ {d d'}, node d d' → (b.shape? d').any Shape.isTypeDecl =
    (a.shape? d).any Shape.isTypeDecl
  struct : ∀ {d d' s ms as}, node d d' → a.shape? d = some (.decl (.struct s ms as)) →
    ∃ s' ms' as', b.shape? d' = some (.decl (.struct s' ms' as')) ∧ name s s' ∧
      List.Forall₂ node ms ms'
  typeAlias : ∀ {d d' s ty}, node d d' → a.shape? d = some (.decl (.typeAlias s ty)) →
    ∃ s' ty', b.shape? d' = some (.decl (.typeAlias s' ty')) ∧ node ty ty'
  structMember : ∀ {m m' s ty as}, node m m' → a.shape? m = some (.structMember s ty as) →
    ∃ s' ty' as', b.shape? m' = some (.structMember s' ty' as') ∧ name s s' ∧ node ty ty'
  noMember : ∀ {m m'}, node m m' → (a.shape? m).any Shape.isStructMember = false →
    (b.shape? m').any Shape.isStructMember = false
  value : ∀ {d d' v}, node d d' → a.asVariable? d = some v → ∃ v', b.asVariable? d' = some v' ∧
    name v.name v'.name ∧
    node v.type v'.type ∧ (read v.initializer v'.initializer ∨ moved v.initializer v'.initializer) ∧
    (v.kind = .parameter → v'.kind = .parameter)
  noValue : ∀ {d d'}, node d d' → a.asVariable? d = none → b.asVariable? d' = none
  function : ∀ {d d' f}, node d d' → a.function? d = some f → ∃ f', b.function? d' = some f' ∧
    node f.returnType f'.returnType ∧ List.Forall₂ node f.params f'.params
  noFunction : ∀ {d d'}, node d d' → a.function? d = none → b.function? d' = none
  ident : ∀ {i j s}, read i j → a.shape? i = some (.expr (.ident s)) →
    ∃ s', b.shape? j = some (.expr (.ident s')) ∧ name s s'
  int : ∀ {i j v suffix}, read i j → a.shape? i = some (.expr (.int v suffix)) →
    b.shape? j = some (.expr (.int v suffix))
  float : ∀ {i j v}, read i j → a.shape? i = some (.expr (.float v)) →
    b.shape? j = some (.expr (.float v))
  bool : ∀ {i j v}, read i j → a.shape? i = some (.expr (.bool v)) →
    b.shape? j = some (.expr (.bool v))
  binary : ∀ {i j op l r}, read i j → a.shape? i = some (.expr (.binary op l r)) →
    ∃ l' r', b.shape? j = some (.expr (.binary op l' r')) ∧ (read l l' ∨ moved l l') ∧
      (read r r' ∨ moved r r')
  unary : ∀ {i j op e}, read i j → a.shape? i = some (.expr (.unary op e)) →
    ∃ e', b.shape? j = some (.expr (.unary op e')) ∧ (read e e' ∨ moved e e')
  index : ∀ {i j o k}, read i j → a.shape? i = some (.expr (.index o k)) →
    ∃ o' k', b.shape? j = some (.expr (.index o' k')) ∧ (read o o' ∨ moved o o') ∧
      (read k k' ∨ moved k k')
  member : ∀ {i j o s}, read i j → a.shape? i = some (.expr (.member o s)) →
    ∃ o' s', b.shape? j = some (.expr (.member o' s')) ∧ (read o o' ∨ moved o o') ∧
      (∀ e, F i e → e.swizzle.isSome → a.nameOf s = b.nameOf s') ∧
      ∀ e, F i e → e.swizzle = none → name s s'
  call : ∀ {i j g args}, read i j → a.shape? i = some (.expr (.call g args)) →
    ∃ g' args', b.shape? j = some (.expr (.call g' args')) ∧
      List.Forall₂ (fun e e' => read e e' ∨ moved e e') args args' ∧
      ((∃ x, a.shape? g = some (.type x)) → node g g' ∧ ∃ y, b.shape? g' = some (.type y)) ∧
      ∀ s, a.shape? g = some (.expr (.ident s)) → ∃ s', b.shape? g' = some (.expr (.ident s')) ∧
        (∀ e, F i e → e.builtin = "" → name s s') ∧
        ∀ e, F i e → e.builtin ≠ "" → a.nameOf s = b.nameOf s' ∧
          ((∀ d, M.find? s = some d → (a.shape? d).any Shape.isTypeDecl = false ∧
            a.function? d = none) → ∀ d, M'.find? s' = some d → (b.shape? d).any Shape.isTypeDecl =
              false ∧ b.function? d = none)

namespace Kinship

variable {a b : Arena} {M M' : Frame} {F F' : NodeId → ExprFacts → Prop} (K : Kinship a b M M' F)

/-- What stands where an expression stood. -/
def Place (i j : NodeId) : Prop := K.read i j ∨ K.moved i j

structure Members (m n : MemberFacts) : Prop where
  decl : K.node m.decl n.decl
  name : ∃ s s', K.name s s' ∧ m.name = a.nameOf s ∧ n.name = b.nameOf s'
  type : Kin K.node m.type n.type
  index : m.index = n.index

structure Structs (s t : StructFacts) : Prop where
  decl : K.node s.decl t.decl
  members : List.Forall₂ K.Members s.members t.members

structure Senses (e f : ExprFacts) : Prop where
  type : Kin K.node e.type f.type
  variableId : Option.Rel K.number e.variableId f.variableId
  target : Option.Rel K.node e.target f.target
  builtin : e.builtin = f.builtin
  member : Option.Rel K.Members e.member f.member
  swizzle : e.swizzle = f.swizzle

structure Variables (m n : Made) : Prop where
  decl : K.node m.decl n.decl
  type : Kin K.node m.type n.type

/-- Tables that say the same of nodes that stand for each other. -/
structure Tables (T U : Table) : Prop where
  types : ∀ {d d'}, K.node d d' → (a.shape? d).any Shape.isTypeDecl = true →
    Kin K.node (T.types d) (U.types d')
  structs : ∀ {d d'}, K.node d d' → Option.Rel K.Structs (T.structs d) (U.structs d')
  results : ∀ {d d'}, K.node d d' → Option.Rel (Kin K.node) (T.results d) (U.results d')
  latest : ∀ {d d'}, K.node d d' → Option.Rel (fun m n => K.number m n ∧
    ∃ x y, T.vars m = some x ∧ U.vars n = some y ∧ K.Variables x y) (T.latest d) (U.latest d')
  vars : ∀ {n x}, T.vars n = some x → ∃ n' x', K.number n n' ∧ U.vars n' = some x' ∧
    K.Variables x x'
  size : K.number T.size U.size
  bound : ∀ {n}, (T.vars n).isSome → n < T.size
  bound' : ∀ {n}, (U.vars n).isSome → n < U.size

variable {K} {T T' U U' : Table}

theorem update_rel {β γ : Type} {A : Option β → Option γ → Prop} {f : NodeId → Option β}
    {g : NodeId → Option γ} {d d' x x' : NodeId} (ht : K.top d) (hd : K.node d d')
    (hx : K.node x x') {o : Option β} {o' : Option γ} (ho : A o o') (hfg : A (f x) (g x')) :
    A (Function.update f d o x) (Function.update g d' o' x') := by
  by_cases h : x = d
  · subst h
    cases K.once ht hd hx
    rwa [Function.update_self, Function.update_self]
  · have h' : x' ≠ d' := by
      rintro rfl
      exact h (K.unique hx hd)
    rwa [Function.update_of_ne h, Function.update_of_ne h']

namespace Tables

variable (h : K.Tables T U)
include h

theorem setName (i d j d' : NodeId) : K.Tables (T.setName i d) (U.setName j d') :=
  ⟨h.types, h.structs, h.results, h.latest, h.vars, h.size, h.bound, h.bound'⟩

theorem note (i j : NodeId) (e e' : ExprFacts) : K.Tables (T.note i e) (U.note j e') :=
  ⟨h.types, h.structs, h.results, h.latest, h.vars, h.size, h.bound, h.bound'⟩

theorem keepSense (i j : NodeId) (o o' : Option ExprFacts) :
    K.Tables (T.keepSense i o) (U.keepSense j o') := by
  cases o <;> cases o' <;> exact ⟨h.types, h.structs, h.results, h.latest, h.vars, h.size,
    h.bound, h.bound'⟩

/-- The types of nodes that are not declarations are not looked at. -/
theorem keepType {i j : NodeId} {x y : TypeShape Symbol NodeId} (hi : a.shape? i = some (.type x))
    (hj : b.shape? j = some (.type y)) (t u : Option Ty) :
    K.Tables (T.keepType i t) (U.keepType j u) := by
  have hT : ∀ {d}, (a.shape? d).any Shape.isTypeDecl = true →
      (T.keepType i t).types d = T.types d := by
    intro d hd
    cases t with
    | none => rfl
    | some t =>
      refine Function.update_of_ne ?_ _ _
      rintro rfl
      rw [hi] at hd
      cases hd
  have hU : ∀ {d}, (b.shape? d).any Shape.isTypeDecl = true →
      (U.keepType j u).types d = U.types d := by
    intro d hd
    cases u with
    | none => rfl
    | some u =>
      refine Function.update_of_ne ?_ _ _
      rintro rfl
      rw [hj] at hd
      cases hd
  have htypes : ∀ {d d'}, K.node d d' → (a.shape? d).any Shape.isTypeDecl = true →
      Kin K.node ((T.keepType i t).types d) ((U.keepType j u).types d') := by
    intro d d' hd hdecl
    rw [hT hdecl, hU ((K.typeDecl hd).trans hdecl)]
    exact h.types hd hdecl
  cases t <;> cases u <;> exact ⟨htypes, h.structs, h.results, h.latest, h.vars, h.size,
    h.bound, h.bound'⟩

theorem setType {d d' : NodeId} (ht : K.top d) (hd : K.node d d') {t u : Ty}
    (htu : t.Kin K.node u) : K.Tables (T.setType d t) (U.setType d' u) := by
  refine ⟨fun hx hdecl => ?_, h.structs, h.results, h.latest, h.vars, h.size, h.bound, h.bound'⟩
  exact update_rel ht hd hx (.some htu) (h.types hx hdecl)

theorem keepTypeOf {d d' : NodeId} (ht : K.top d) (hd : K.node d d') {t u : Option Ty}
    (htu : Kin K.node t u) : K.Tables (T.keepType d t) (U.keepType d' u) := by
  cases htu with
  | none => exact h
  | some htu => exact h.setType ht hd htu

theorem setStruct {d d' : NodeId} (ht : K.top d) (hd : K.node d d') {s t : StructFacts}
    (hst : K.Structs s t) : K.Tables (T.setStruct d s) (U.setStruct d' t) := by
  refine ⟨h.types, fun hx => ?_, h.results, h.latest, h.vars, h.size, h.bound, h.bound'⟩
  exact update_rel ht hd hx (.some hst) (h.structs hx)

theorem setResult {d d' : NodeId} (ht : K.top d) (hd : K.node d d') {t u : Option Ty}
    (htu : Kin K.node t u) : K.Tables (T.setResult d t) (U.setResult d' u) := by
  refine ⟨h.types, h.structs, fun hx => ?_, h.latest, h.vars, h.size, h.bound, h.bound'⟩
  exact update_rel ht hd hx (.some htu) (h.results hx)

theorem addValue {d d' : NodeId} (ht : K.top d) (hd : K.node d d') {t u : Option Ty}
    (htu : Kin K.node t u) : K.Tables (T.addValue d t) (U.addValue d' u) := by
  have hbound : ∀ {T : Table} {d t n}, (∀ {n}, (T.vars n).isSome → n < T.size) →
      ((T.addValue d t).vars n).isSome →
      n < (T.addValue d t).size := by
    intro T d t n hT hn
    change (Function.update T.vars T.size _ n).isSome at hn
    rw [Function.update_apply] at hn
    split at hn
    · next heq => exact Nat.lt_succ_of_le (Nat.le_of_eq heq)
    · exact Nat.lt_succ_of_lt (hT hn)
  have hkept : ∀ {T : Table} {d t n x}, (∀ {n}, (T.vars n).isSome → n < T.size) →
      T.vars n = some x →
      (T.addValue d t).vars n = some x := by
    intro T d t n x hT hn
    refine (Function.update_of_ne (Nat.ne_of_lt (hT ?_)) _ _).trans hn
    rw [hn]
    rfl
  have hnew : ∃ x x', (T.addValue d t).vars T.size = some x ∧ (U.addValue d' u).vars U.size =
      some x' ∧ K.Variables x x' :=
    ⟨⟨d, t⟩, ⟨d', u⟩, Function.update_self .., Function.update_self .., hd, htu⟩
  have hvars : ∀ {n x}, (T.addValue d t).vars n = some x →
      ∃ n' x', K.number n n' ∧ (U.addValue d' u).vars n' = some x' ∧ K.Variables x x' := by
    intro n x hn
    by_cases hsize : n = T.size
    · subst hsize
      obtain ⟨y, x', hy, hx', hxx⟩ := hnew
      cases hn.symm.trans hy
      exact ⟨U.size, x', h.size, hx', hxx⟩
    · obtain ⟨n', x', hnum, hx', hxx⟩ := h.vars ((Function.update_of_ne hsize _ _).symm.trans hn)
      exact ⟨n', x', hnum, hkept h.bound' hx', hxx⟩
  refine ⟨h.types, h.structs, h.results, fun {x x'} hx => ?_, hvars, K.next h.size, hbound h.bound,
    hbound h.bound'⟩
  refine update_rel ht hd hx (.some ⟨h.size, hnew⟩) ?_
  rcases rel_cases (h.latest hx) with ⟨h₁, h₂⟩ | ⟨m, n, h₁, h₂, hnum, x, y, hm, hn, hxy⟩
  · rw [h₁, h₂]
    exact .none
  · rw [h₁, h₂]
    exact .some ⟨hnum, x, y, hkept h.bound hm, hkept h.bound' hn, hxy⟩

end Tables

/-- Members are found under names that stand for each other. -/
theorem find_member {xs ys : List MemberFacts} (h : List.Forall₂ K.Members xs ys) {s s' : Symbol}
    (hs : K.name s s') :
    Option.Rel K.Members (xs.find? (·.name == a.nameOf s)) (ys.find? (·.name == b.nameOf s')) := by
  induction h with
  | nil => exact .none
  | @cons x y _ _ hxy _ ih =>
    obtain ⟨r, r', hr, hx, hy⟩ := hxy.name
    have hsame : (x.name == a.nameOf s) = (y.name == b.nameOf s') := by
      rw [hx, hy, Bool.eq_iff_iff, beq_iff_eq, beq_iff_eq]
      exact K.text hr hs
    rw [List.find?_cons, List.find?_cons, hsame]
    split
    · exact .some hxy
    · exact ih

section Types

/-- What follows where something is found out about a type. -/
def TypeFollows (K : Kinship a b M M' F) (P' : List NodeId) (U T' : Table) : TypeFinding → Prop
  | .node i t =>
    ∀ {j}, K.node i j → ∃ u U', Typing b M' P' U (.node j u) U' ∧ Kin K.node t u ∧ K.Tables T' U'
  | .decl d t => ∀ {d'}, K.top d → K.node d d' → (a.shape? d).any Shape.isTypeDecl = true →
    ∃ u U', Typing b M' P' U (.decl d' u) U' ∧ Kin K.node t u ∧ K.Tables T' U'
  | .members ms found => ∀ {ms'}, List.Forall₂ (fun x y => K.node x.1 y.1 ∧ x.2 = y.2) ms ms' →
    ∃ found' U', Typing b M' P' U (.members ms' found') U' ∧ List.Forall₂ K.Members found found' ∧
      K.Tables T' U'

/-- What stands for a node is in a list only if the node is in the list that it stands for. -/
theorem mem_of_follows {d d' : NodeId} (hd : K.node d d') {P P' : List NodeId}
    (hP : List.Forall₂ K.node P P') (h : d' ∈ P') : d ∈ P := by
  induction hP with
  | nil => cases h
  | cons hx _ ih =>
    rcases List.mem_cons.1 h with rfl | h
    · exact K.unique hd hx ▸ List.mem_cons_self
    · exact List.mem_cons_of_mem _ (ih h)

theorem types_follow {P P' : List NodeId} {f : TypeFinding} (h : Typing a M P T f T')
    (hTU : K.Tables T U) (hP : List.Forall₂ K.node P P') : K.TypeFollows P' U T' f := by
  induction h generalizing U P' with
  | absent =>
    intro j hj
    cases (K.absent hj).1 rfl
    exact ⟨none, U, .absent, .none, hTU⟩
  | plain hx ht =>
    intro j hj
    obtain ⟨y, hy, hyt⟩ := K.plain hj hx ht
    exact ⟨_, _, .plain hy hyt, .some (.plain ht), hTU.keepType hx hy (some _) (some _)⟩
  | around hx he _ ih =>
    intro j hj
    obtain ⟨y, e', hy, hye, hee⟩ := K.around hj hx he
    obtain ⟨u, U', hu, htu, hTU'⟩ := ih hTU hP hee
    exact ⟨_, _, .around hy hye hu, rel_map htu fun _ _ h => .around he h, hTU'.keepType hx hy _ _⟩
  | @named _ T _ i s d t hx hs hd _ ih =>
    intro j hj
    obtain ⟨s', hy, hss⟩ := K.named hj hx
    obtain ⟨_, d', hs₁, hs', hdd⟩ := (rel_cases (K.find hss)).resolve_left fun h => by
      simp [hs] at h
    cases hs.symm.trans hs₁
    obtain ⟨u, U', hu, htu, hTU'⟩ := ih (hTU.setName i d j d') hP (K.findTop hs) hdd hd
    exact ⟨u, _, .named hy hs' ((K.typeDecl hdd).trans hd) hu, htu, hTU'.keepType hx hy _ _⟩
  | known ht =>
    intro d' _ hdd hd
    obtain ⟨_, u, ht', hu, htu⟩ := (rel_cases (hTU.types hdd hd)).resolve_left fun h => by
      simp [ht] at h
    cases ht.symm.trans ht'
    exact ⟨_, U, .known hu, .some htu, hTU⟩
  | @struct _ T _ d s ms as found hx hnone hnot _ ih =>
    intro d' htop hdd hd
    obtain ⟨s', ms', as', hy, hss, hms⟩ := K.struct hdd hx
    have hnone' : U.types d' = none := by
      rcases rel_cases (hTU.types hdd hd) with ⟨_, h⟩ | ⟨_, _, h, _⟩
      · exact h
      · rw [hnone] at h
        cases h
    have hty : (Ty.struct d (a.nameOf s)).Kin K.node (.struct d' (b.nameOf s')) := .struct _ _ hdd
    have hopen : K.Structs { decl := d, name := a.nameOf s } { decl := d', name := b.nameOf s' } :=
      ⟨hdd, .nil⟩
    obtain ⟨found', U', hu, hfound, hTU'⟩ :=
      ih ((hTU.setStruct htop hdd hopen).setType htop hdd hty) (.cons hdd hP)
      (Resolve.forall₂_zipIdx hms 0)
    exact ⟨_, _, .struct hy hnone' (fun h => hnot (mem_of_follows hdd hP h)) hu, .some hty,
      hTU'.setStruct htop hdd ⟨hdd, hfound⟩⟩
  | @typeAlias _ T _ d s ty t hx hnone hnot _ ih =>
    intro d' htop hdd hd
    obtain ⟨s', ty', hy, hty⟩ := K.typeAlias hdd hx
    have hnone' : U.types d' = none := by
      rcases rel_cases (hTU.types hdd hd) with ⟨_, h⟩ | ⟨_, _, h, _⟩
      · exact h
      · rw [hnone] at h
        cases h
    obtain ⟨u, U', hu, htu, hTU'⟩ := ih hTU (.cons hdd hP) hty
    exact ⟨u, _, .typeAlias hy hnone' (fun h => hnot (mem_of_follows hdd hP h)) hu, htu,
      hTU'.keepTypeOf htop hdd htu⟩
  | nil =>
    intro ms' hms
    cases hms
    exact ⟨[], U, .nil, .nil, hTU⟩
  | member hx _ _ ih₁ ih₂ =>
    intro ms' hms
    cases hms with
    | @cons _ y _ ms' hm hms =>
      obtain ⟨m', k'⟩ := y
      obtain ⟨hm, rfl⟩ := hm
      obtain ⟨s', ty', as', hy, hss, hty⟩ := K.structMember hm hx
      obtain ⟨u, U₁, hu, htu, hTU₁⟩ := ih₁ hTU hP hty
      obtain ⟨found', U₂, hrest, hfound, hTU₂⟩ := ih₂ hTU₁ hP hms
      exact ⟨_, U₂, .member hy hu hrest, .cons ⟨hm, ⟨_, _, hss, rfl, rfl⟩, htu, rfl⟩ hfound, hTU₂⟩
  | stray hx _ ih =>
    intro ms' hms
    cases hms with
    | @cons _ y _ ms' hm hms =>
      obtain ⟨found', U', hrest, hfound, hTU'⟩ := ih hTU hP hms
      exact ⟨found', U', .stray (K.noMember hm.1 hx) hrest, hfound, hTU'⟩

end Types

section Expressions

/-- Callees that stand for each other. -/
inductive Callees (K : Kinship a b M M' F) : Callee → Callee → Prop
  | constructor {t u} : Kin K.node t u → Callees K (.constructor t) (.constructor u)
  | builtin {name rule} : builtinRule? name = some rule →
    Callees K (.builtin name rule) (.builtin name rule)
  | function {d d' t u} : K.node d d' → Kin K.node t u → Callees K (.function d t) (.function d' u)

theorem Callees.sense {k k' : Callee} (h : K.Callees k k') {ts us : List (Option Ty)}
    (hts : List.Forall₂ (Kin K.node) ts us) : K.Senses (k.sense ts) (k'.sense us) := by
  cases h with
  | constructor h => exact ⟨h, .none, .none, rfl, .none, rfl⟩
  | builtin hrule => exact ⟨.result hrule hts, .none, .none, rfl, .none, rfl⟩
  | function hd h => exact ⟨h, .none, .some hd, rfl, .none, rfl⟩

/-- The target of a call in one module, and in the other what follows. -/
structure Targets (K : Kinship a b M M' F) (e : ExprFacts) (g g' : NodeId) : Prop where
  type : (∃ x, a.shape? g = some (.type x)) → K.node g g' ∧ ∃ y, b.shape? g' = some (.type y)
  ident : ∀ s, a.shape? g = some (.expr (.ident s)) → ∃ s', b.shape? g' = some (.expr (.ident s')) ∧
    (e.builtin = "" → K.name s s') ∧ (e.builtin ≠ "" → a.nameOf s = b.nameOf s' ∧
      ((∀ d, M.find? s = some d → (a.shape? d).any Shape.isTypeDecl = false ∧
        a.function? d = none) → ∀ d, M'.find? s' = some d → (b.shape? d).any Shape.isTypeDecl =
          false ∧ b.function? d = none))

theorem call_follows {i j g : NodeId} {args : List NodeId} (hij : K.read i j)
    (hi : a.shape? i = some (.expr (.call g args))) {e : ExprFacts} (he : F i e) :
    ∃ g' args', b.shape? j = some (.expr (.call g' args')) ∧
      List.Forall₂ K.Place args args' ∧ K.Targets e g g' := by
  obtain ⟨g', args', hj, hargs, htype, hident⟩ := K.call hij hi
  refine ⟨g', args', hj, hargs, htype, fun s hs => ?_⟩
  obtain ⟨s', hs', hname, htext⟩ := hident s hs
  exact ⟨s', hs', hname e he, htext e he⟩

theorem find_follows {s s' : Symbol} (hss : K.name s s') {d : NodeId} (hs : M.find? s = some d) :
    ∃ d', M'.find? s' = some d' ∧ K.node d d' := by
  obtain ⟨_, d', hs', hd', hdd⟩ := (rel_cases (K.find hss)).resolve_left fun h => by simp [hs] at h
  cases hs.symm.trans hs'
  exact ⟨d', hd', hdd⟩

theorem builtin_ne_empty {name : String} {rule : BuiltinRule} (h : builtinRule? name = some rule) :
    name ≠ "" := by
  rintro rfl
  cases h

theorem calling_follows {g g' : NodeId} {k : Callee} {ts : List (Option Ty)}
    (h : Calling a M T g k T') (hg : K.Targets (k.sense ts) g g') (hTU : K.Tables T U) :
    ∃ k' U', Calling b M' U g' k' U' ∧ K.Callees k k' ∧ K.Tables T' U' := by
  cases h with
  | typed hx ht =>
    obtain ⟨hgg, y, hy⟩ := hg.type ⟨_, hx⟩
    obtain ⟨u, U', hu, htu, hTU'⟩ := types_follow ht hTU .nil hgg
    exact ⟨_, U', .typed hy hu, .constructor htu, hTU'⟩
  | declared hs hd hdecl ht =>
    obtain ⟨s', hs', hname, _⟩ := hg.ident _ hs
    obtain ⟨d', hd', hdd⟩ := find_follows (hname rfl) hd
    obtain ⟨u, U', hu, htu, hTU'⟩ := types_follow ht hTU .nil (K.findTop hd) hdd hdecl
    exact ⟨_, U', .declared hs' hd' ((K.typeDecl hdd).trans hdecl) hu, .constructor htu, hTU'⟩
  | function hs hd hf ht =>
    obtain ⟨s', hs', hname, _⟩ := hg.ident _ hs
    obtain ⟨d', hd', hdd⟩ := find_follows (hname rfl) hd
    obtain ⟨f', hf', _⟩ := K.function hdd hf
    obtain ⟨_, u, ht', hu, htu⟩ := (rel_cases (hTU.results hdd)).resolve_left fun h => by
      simp [ht] at h
    cases ht.symm.trans ht'
    exact ⟨_, U, .function hs' hd' hf' hu, .function hdd htu, hTU⟩
  | builtin hs hnot hrule =>
    obtain ⟨s', hs', _, htext⟩ := hg.ident _ hs
    obtain ⟨htext, hnot'⟩ := htext (builtin_ne_empty hrule)
    refine ⟨_, U, .builtin hs' (hnot' hnot) (htext ▸ hrule), ?_, hTU⟩
    rw [← htext]
    exact .builtin hrule

/-- Structures with kin members have kin members under names that stand for each other. -/
theorem select_follows
    (hTU : ∀ {d d'}, K.node d d' → Option.Rel K.Structs (T.structs d) (U.structs d'))
    {s s' : Symbol} {t u : Ty} (htu : t.Kin K.node u) {e : ExprFacts}
    (he : T.select (a.nameOf s) t = some e) (htext : e.swizzle.isSome → a.nameOf s = b.nameOf s')
    (hname : e.swizzle = none → K.name s s') :
    ∃ e', U.select (b.nameOf s') u = some e' ∧ K.Senses e e' := by
  unfold Table.select at he ⊢
  cases htu with
  | struct _ _ hd =>
    obtain ⟨m, hm, rfl⟩ := Option.map_eq_some_iff.1 he
    have hmember : Option.Rel K.Members ((T.structs _).bind (·.member? (a.nameOf s)))
        ((U.structs _).bind (·.member? (b.nameOf s'))) :=
      rel_bind (hTU hd) fun _ _ hs => find_member hs.members (hname rfl)
    obtain ⟨_, n, hm', hn, hmn⟩ := (rel_cases hmember).resolve_left fun h => by simp [hm] at h
    cases hm.symm.trans hm'
    exact ⟨{ member := some n, type := n.type }, by
      simp [hn], hmn.type, .none, .none, rfl, .some hmn, rfl⟩
  | vector w hel =>
    obtain ⟨is, his, rfl⟩ := Option.map_eq_some_iff.1 he
    rw [htext rfl] at his
    refine ⟨_, Option.map_eq_some_iff.2 ⟨is, his, rfl⟩, ?_, .none, .none, rfl, .none, rfl⟩
    dsimp only
    split
    · exact .some hel
    · exact .some (.vector _ hel)
  | _ => cases he

theorem forall₂_singleton {α β : Type} {R : α → β → Prop} {x : α} {ys : List β}
    (h : List.Forall₂ R [x] ys) : ∃ y, ys = [y] ∧ R x y := by
  cases h with
  | cons hxy h =>
    cases h
    exact ⟨_, rfl, hxy⟩

theorem forall₂_pair {α β : Type} {R : α → β → Prop} {x y : α} {zs : List β}
    (h : List.Forall₂ R [x, y] zs) : ∃ u v, zs = [u, v] ∧ R x u ∧ R y v := by
  cases h with
  | cons hx h =>
    obtain ⟨v, rfl, hy⟩ := forall₂_singleton h
    exact ⟨_, v, rfl, hx, hy⟩

/-- What an expression is that names and calls nothing follows from what its operands are. -/
theorem compose_follows {i j : NodeId} (hij : K.read i j) {x : ExprShape Symbol NodeId}
    (hi : a.shape? i = some (.expr x)) {ts : List (Option Ty)} {o : Option ExprFacts}
    (ho : T.compose a x ts = some o) (hF : F i (o.getD {})) :
    ∃ y, b.shape? j = some (.expr y) ∧ List.Forall₂ K.Place x.operands y.operands ∧
      ∀ (U : Table) us,
        (∀ {d d'}, K.node d d' → Option.Rel K.Structs (T.structs d) (U.structs d')) →
        List.Forall₂ (Kin K.node) ts us → ∃ o', U.compose b y us = some o' ∧
          Option.Rel K.Senses o o' := by
  have htyped : ∀ {t u : Option Ty}, Kin K.node t u →
      Option.Rel K.Senses (some { type := t }) (some { type := u }) :=
    fun h => .some ⟨h, .none, .none, rfl, .none, rfl⟩
  cases x with
  | ident s => cases ho
  | call g args => cases ho
  | int v suffix =>
    cases ho
    refine ⟨_, K.int hij hi, .nil, fun U us _ _ => ⟨_, rfl, htyped (.some ?_)⟩⟩
    split <;> constructor
  | float v =>
    cases ho
    exact ⟨_, K.float hij hi, .nil, fun U us _ _ => ⟨_, rfl, htyped (.some .f32)⟩⟩
  | bool v =>
    cases ho
    exact ⟨_, K.bool hij hi, .nil, fun U us _ _ => ⟨_, rfl, htyped (.some .bool)⟩⟩
  | binary op l r =>
    obtain ⟨l', r', hj, hl, hr⟩ := K.binary hij hi
    refine ⟨_, hj, .cons hl (.cons hr .nil), fun U us hTU hus => ?_⟩
    rcases ts with _ | ⟨t, _ | ⟨u, _ | _⟩⟩ <;> cases ho
    obtain ⟨t', u', rfl, ht, hu⟩ := forall₂_pair hus
    exact ⟨_, rfl, htyped (.binaryType op ht hu)⟩
  | unary op e =>
    obtain ⟨e', hj, he⟩ := K.unary hij hi
    refine ⟨_, hj, .cons he .nil, fun U us hTU hus => ?_⟩
    rcases ts with _ | ⟨t, _ | _⟩ <;> cases ho
    obtain ⟨t', rfl, ht⟩ := forall₂_singleton hus
    exact ⟨_, rfl, htyped ht⟩
  | index e k =>
    obtain ⟨e', k', hj, he, hk⟩ := K.index hij hi
    refine ⟨_, hj, .cons he (.cons hk .nil), fun U us hTU hus => ?_⟩
    rcases ts with _ | ⟨t, _ | ⟨u, _ | _⟩⟩
    · cases ho
    · cases t <;> cases ho
    · obtain ⟨t', u', rfl, ht, _⟩ := forall₂_pair hus
      cases ht with
      | none =>
        cases ho
        exact ⟨none, rfl, .none⟩
      | some ht =>
        obtain ⟨v, hv, rfl⟩ := Option.map_eq_some_iff.1 ho
        obtain ⟨w, hw, hvw⟩ := ht.indexed hv
        exact ⟨_, Option.map_eq_some_iff.2 ⟨w, hw, rfl⟩, htyped (.some hvw)⟩
    · cases t <;> cases ho
  | member e s =>
    obtain ⟨e', s', hj, he, htext, hname⟩ := K.member hij hi
    refine ⟨_, hj, .cons he .nil, fun U us hTU hus => ?_⟩
    rcases ts with _ | ⟨t, _ | _⟩
    · cases ho
    · obtain ⟨t', rfl, ht⟩ := forall₂_singleton hus
      cases ht with
      | none =>
        cases ho
        exact ⟨none, rfl, .none⟩
      | some ht =>
        obtain ⟨sense, hsense, rfl⟩ := Option.map_eq_some_iff.1 ho
        obtain ⟨sense', hsense', hkin⟩ := select_follows hTU ht hsense (htext _ hF) (hname _ hF)
        exact ⟨_, Option.map_eq_some_iff.2 ⟨sense', hsense', rfl⟩, .some hkin⟩
    · cases t <;> cases ho

/-- An expression of which there is nothing to say is kin to another one. -/
theorem senses_getD {o o' : Option ExprFacts} (h : Option.Rel K.Senses o o') :
    K.Senses (o.getD {}) (o'.getD {}) := by
  cases h with
  | none => exact ⟨.none, .none, .none, rfl, .none, rfl⟩
  | some h => exact h

/-- Findings that one module allows, the other allows too. -/
def Allows (K : Kinship a b M M' F) (F' : NodeId → ExprFacts → Prop) : Prop :=
  ∀ {i j e e'}, K.read i j → F i e → K.Senses e e' → F' j e'

/-- Expressions that stay where they are, with all that they are made of and the initializers of the
module's variables. -/
structure Stays (K : Kinship a b M M' F) (stays : NodeId → Prop) : Prop where
  read : ∀ {i j}, stays i → K.Place i j → K.read i j
  operands : ∀ {i x}, stays i → a.shape? i = some (.expr x) → ∀ e ∈ x.operands, stays e
  initializer : ∀ {s d v}, M.find? s = some d → a.asVariable? d = some v → stays v.initializer

variable {stays : NodeId → Prop}

/-- What follows where something is found out about expressions of the module's own declarations. -/
def ExprFollows (K : Kinship a b M M' F) (F' : NodeId → ExprFacts → Prop) (stays : NodeId → Prop)
    (U T' : Table) : ExprFinding → Prop
  | .one i t => ∀ {j}, K.Place i j → stays i →
    ∃ u U', Sensing b M' F' [] U (.one j u) U' ∧ Kin K.node t u ∧ K.Tables T' U'
  | .all is ts => ∀ {js}, List.Forall₂ K.Place is js → (∀ i ∈ is, stays i) →
    ∃ us U', Sensing b M' F' [] U (.all js us) U' ∧ List.Forall₂ (Kin K.node) ts us ∧ K.Tables T' U'

theorem valued_follows {v v' : VariableShape Symbol NodeId} (hv : K.node v.type v'.type)
    (hinit : v.initializer ≠ 0 → v'.initializer ≠ 0) {t₀ t u₀ : Option Ty}
    (h : Valued a M v t₀ T t T') (h₀ : Kin K.node t₀ u₀) (hTU : K.Tables T U) :
    ∃ u U', Valued b M' v' u₀ U u U' ∧ Kin K.node t u ∧ K.Tables T' U' := by
  cases h with
  | named h0 ht =>
    obtain ⟨u, U', hu, htu, hTU'⟩ := types_follow ht hTU .nil hv
    exact ⟨u, U', .named (fun h => h0 ((K.absent hv).2 h)) hu, htu, hTU'⟩
  | inferred h0 hi => exact ⟨u₀, U, .inferred ((K.absent hv).1 h0) (hinit hi), h₀, hTU⟩

theorem place_absent {i j : NodeId} (h : K.Place i j) : i = 0 ↔ j = 0 := by
  rcases h with h | h
  · exact K.readAbsent h
  · have := K.movedPresent h
    simp [this.1, this.2]

/-- A number under which a variable is known has a counterpart, and identifiers of them are kin. -/
theorem known_follows (hTU : K.Tables T U) {d d' : NodeId} (hdd : K.node d d') {n : VariableId}
    (hn : T.latest d = some n) :
    ∃ n', U.latest d' = some n' ∧ Kin K.node (T.typeAt n) (U.typeAt n') ∧
      K.Senses ((T.identifier? n).getD {}) ((U.identifier? n').getD {}) := by
  obtain ⟨_, n', hn₁, hn', hnum, x, y, hx, hy, hxy⟩ :=
    (rel_cases (hTU.latest hdd)).resolve_left fun h => by simp [hn] at h
  cases hn.symm.trans hn₁
  refine ⟨n', hn', ?_, ?_⟩
  · simpa [Table.typeAt, hx, hy] using hxy.type
  · simpa [Table.identifier?, hx, hy] using
      (⟨hxy.type, .some hnum, .none, rfl, .none, rfl⟩ :
        K.Senses { variableId := some n, type := x.type }
        { variableId := some n', type := y.type })

/-- Expressions of the module's own declarations. -/
theorem exprs_follow (hF : K.Allows F') (hK : K.Stays stays) {f : ExprFinding}
    (h : Sensing a M F [] T f T') (hTU : K.Tables T U) : K.ExprFollows F' stays U T' f := by
  induction h generalizing U with
  | absent =>
    intro j hj _
    cases (place_absent hj).1 rfl
    exact ⟨none, U, .absent, .none, hTU⟩
  | @known T i s d n hs hd hn hFi =>
    intro j hj hi
    have hij := hK.read hi hj
    obtain ⟨s', hs', hss⟩ := K.ident hij hs
    obtain ⟨d', hd', hdd⟩ := find_follows hss hd
    obtain ⟨n', hn', htype, hsense⟩ := known_follows hTU hdd hn
    exact ⟨_, _, .known hs' hd' hn' (hF hij hFi hsense), htype,
      (hTU.note i j {} {}).keepSense i j _ _⟩
  | @entered T T₁ T₂ i s d v t₀ t hs hd hnone hv _ hval hFi ih =>
    intro j hj hi
    have hij := hK.read hi hj
    obtain ⟨s', hs', hss⟩ := K.ident hij hs
    obtain ⟨d', hd', hdd⟩ := find_follows hss hd
    have hnone' : U.latest d' = none := by
      rcases rel_cases (hTU.latest hdd) with ⟨_, h⟩ | ⟨_, _, h, _⟩
      · exact h
      · rw [hnone] at h
        cases h
    obtain ⟨v', hv', _, hvtype, hinit, _⟩ := K.value hdd hv
    obtain ⟨u₀, U₁, hsense, h₀, hTU₁⟩ := ih (hTU.note i j {} {}) hinit (hK.initializer hd hv)
    obtain ⟨u, U₂, hval', htu, hTU₂⟩ :=
      valued_follows hvtype (fun h h' => h ((place_absent hinit).2 h')) hval h₀ hTU₁
    exact ⟨u, _, .entered hs' hd' hnone' hv' hsense hval'
      (hF hij hFi ⟨htu, .some hTU₂.size, .none, rfl, .none, rfl⟩), htu,
      (hTU₂.addValue (K.findTop hd) hdd htu).keepSense i j _ _⟩
  | @plain T T₁ i x ts o hx _ hcompose hFi ih =>
    intro j hj hi
    have hij := hK.read hi hj
    obtain ⟨y, hy, hplaces, hcomposed⟩ := compose_follows hij hx hcompose hFi
    obtain ⟨us, U₁, hus, htus, hTU₁⟩ := ih (hTU.note i j {} {}) hplaces (hK.operands hi hx)
    obtain ⟨o', ho', hoo⟩ := hcomposed U₁ us hTU₁.structs htus
    refine ⟨_, _, .plain hy hus ho' (hF hij hFi ?_), ?_, hTU₁.keepSense i j o o'⟩
    · exact senses_getD hoo
    · exact rel_bind hoo fun _ _ h => h.type
  | @call T T₁ T₂ i g args ts k hx _ hk hFi ih =>
    intro j hj hi
    have hij := hK.read hi hj
    obtain ⟨g', args', hy, hargs, htarget⟩ := call_follows hij hx hFi
    obtain ⟨us, U₁, hus, htus, hTU₁⟩ := ih (hTU.note i j {} {}) hargs (hK.operands hi hx)
    obtain ⟨k', U₂, hk', hkk, hTU₂⟩ := calling_follows hk htarget hTU₁
    have hsense := hkk.sense htus
    exact ⟨_, _, .call hy hus hk' (hF hij hFi hsense), hsense.type, hTU₂.note i j _ _⟩
  | nil =>
    intro js hjs _
    cases hjs
    exact ⟨[], U, .nil, .nil, hTU⟩
  | cons _ _ ih₁ ih₂ =>
    intro js hjs hall
    cases hjs with
    | cons hj hjs =>
      obtain ⟨he, hes⟩ := List.forall_mem_cons.1 hall
      obtain ⟨u, U₁, hu, htu, hTU₁⟩ := ih₁ hTU hj he
      obtain ⟨us, U₂, hus, htus, hTU₂⟩ := ih₂ hTU₁ hjs hes
      exact ⟨u :: us, U₂, .cons hu hus, .cons htu htus, hTU₂⟩

end Expressions

section Modules

variable {stays : NodeId → Prop}

theorem introducing_follows (hF : K.Allows F') (hK : K.Stays stays) {d d' : NodeId} (htop : K.top d)
    (hdd : K.node d d') (hstays : ∀ {v}, a.asVariable? d = some v → stays v.initializer)
    (h : Introducing a M F d T T') (hTU : K.Tables T U) :
    ∃ U', Introducing b M' F' d' U U' ∧ K.Tables T' U' := by
  cases h with
  | type hd ht =>
    obtain ⟨u, U', hu, _, hTU'⟩ := types_follow ht hTU .nil htop hdd hd
    exact ⟨U', .type ((K.typeDecl hdd).trans hd) hu, hTU'⟩
  | known hv hn =>
    obtain ⟨v', hv', _⟩ := K.value hdd hv
    obtain ⟨n', hn', _⟩ := known_follows hTU hdd hn
    exact ⟨U, .known hv' hn', hTU⟩
  | value hv hnone hinit hval =>
    obtain ⟨v', hv', _, hvtype, hplace, _⟩ := K.value hdd hv
    have hnone' : U.latest d' = none := by
      rcases rel_cases (hTU.latest hdd) with ⟨_, h⟩ | ⟨_, _, h, _⟩
      · exact h
      · rw [hnone] at h
        cases h
    obtain ⟨u₀, U₁, hu₀, h₀, hTU₁⟩ := exprs_follow hF hK hinit hTU hplace (hstays hv)
    obtain ⟨u, U₂, hval', htu, hTU₂⟩ :=
      valued_follows hvtype (fun h h' => h ((place_absent hplace).2 h')) hval h₀ hTU₁
    exact ⟨_, .value hv' hnone' hu₀ hval', hTU₂.addValue htop hdd htu⟩
  | other hd hv => exact ⟨U, .other ((K.typeDecl hdd).trans hd) (K.noValue hdd hv), hTU⟩

theorem heading_follows {d d' : NodeId} (htop : K.top d) (hdd : K.node d d')
    (h : Heading a M d T T') (hTU : K.Tables T U) :
    ∃ U', Heading b M' d' U U' ∧ K.Tables T' U' := by
  cases h with
  | typed hf h0 ht =>
    obtain ⟨f', hf', hret, _⟩ := K.function hdd hf
    obtain ⟨u, U', hu, htu, hTU'⟩ :=
      types_follow ht (hTU.setResult htop hdd (.some .void)) .nil hret
    exact ⟨_, .typed hf' (fun h => h0 ((K.absent hret).2 h)) hu, hTU'.setResult htop hdd htu⟩
  | void hf h0 =>
    obtain ⟨f', hf', hret, _⟩ := K.function hdd hf
    exact ⟨_, .void hf' ((K.absent hret).1 h0), hTU.setResult htop hdd (.some .void)⟩
  | other hf => exact ⟨U, .other (K.noFunction hdd hf), hTU⟩

theorem along_follows {step step' : NodeId → Table → Table → Prop} {gs gs' : List NodeId}
    (hgs : List.Forall₂ K.node gs gs')
    (hstep : ∀ {d d' T T' U}, d ∈ gs → K.node d d' → step d T T' → K.Tables T U →
      ∃ U', step' d' U U' ∧ K.Tables T' U') (h : Along step gs T T') (hTU : K.Tables T U) :
    ∃ U', Along step' gs' U U' ∧ K.Tables T' U' := by
  induction h generalizing U gs' with
  | nil =>
    cases hgs
    exact ⟨U, .nil, hTU⟩
  | cons hd _ ih =>
    cases hgs with
    | cons hdd hgs =>
      obtain ⟨U₁, hd', hTU₁⟩ := hstep List.mem_cons_self hdd hd hTU
      obtain ⟨U₂, hds, hTU₂⟩ := ih hgs (fun hd => hstep (List.mem_cons_of_mem _ hd)) hTU₁
      exact ⟨U₂, .cons hd' hds, hTU₂⟩

theorem Tables.empty (K : Kinship a b M M' F) : K.Tables .empty .empty :=
  ⟨fun _ _ => .none, fun _ => .none, fun _ => .none, fun _ => .none, (fun h => by cases h), K.first,
    (fun h => by cases h), (fun h => by cases h)⟩

/-- The declarations of a module and the heads of its functions. -/
theorem heads_follow (hF : K.Allows F') (hK : K.Stays stays) {gs gs' : List NodeId}
    (htop : ∀ d ∈ gs, K.top d) (hgs : List.Forall₂ K.node gs gs')
    (hstays : ∀ d ∈ gs, ∀ {v}, a.asVariable? d = some v → stays v.initializer) {T E : Table}
    (h₁ : Along (Introducing a M F) gs .empty T) (h₂ : Along (Heading a M) gs T E) :
    ∃ T' E', Along (Introducing b M' F') gs' .empty T' ∧ Along (Heading b M') gs' T' E' ∧
      K.Tables E E' := by
  obtain ⟨T', h₁', hT⟩ :=
    along_follows hgs
      (fun hd hdd h hTU => introducing_follows hF hK (htop _ hd) hdd (hstays _ hd) h hTU) h₁
    (Tables.empty K)
  obtain ⟨E', h₂', hE⟩ :=
    along_follows hgs (fun hd hdd h hTU => heading_follows (htop _ hd) hdd h hTU) h₂ hT
  exact ⟨T', E', h₁', h₂', hE⟩

end Modules

section Bodies

variable {E E' : Table} {Δ Δ' : Levels}

theorem typeOf_follows (hE : K.Tables E E') {i j : NodeId} (hij : K.node i j) {t : Option Ty}
    (h : TypeOf a M E i t) : ∃ u, TypeOf b M' E' j u ∧ Kin K.node t u := by
  induction h generalizing j with
  | absent =>
    cases (K.absent hij).1 rfl
    exact ⟨none, .absent, .none⟩
  | plain hx ht =>
    obtain ⟨y, hy, hyt⟩ := K.plain hij hx ht
    exact ⟨_, .plain hy hyt, .some (.plain ht)⟩
  | around hx he _ ih =>
    obtain ⟨y, e', hy, hye, hee⟩ := K.around hij hx he
    obtain ⟨u, hu, htu⟩ := ih hee
    exact ⟨_, .around hy hye hu, rel_map htu fun _ _ h => .around he h⟩
  | named hx hs hd ht =>
    obtain ⟨s', hy, hss⟩ := K.named hij hx
    obtain ⟨d', hs', hdd⟩ := find_follows hss hs
    obtain ⟨_, u, ht', hu, htu⟩ := (rel_cases (hE.types hdd hd)).resolve_left fun h => by
      simp [ht] at h
    cases ht.symm.trans ht'
    exact ⟨_, .named hy hs' ((K.typeDecl hdd).trans hd) hu, .some htu⟩

theorem calls_follow (hE : K.Tables E E') {g g' : NodeId} {k : Callee} {ts : List (Option Ty)}
    (h : Calls a M E g k) (hg : K.Targets (k.sense ts) g g') :
    ∃ k', Calls b M' E' g' k' ∧ K.Callees k k' := by
  cases h with
  | typed hx ht =>
    obtain ⟨hgg, y, hy⟩ := hg.type ⟨_, hx⟩
    obtain ⟨u, hu, htu⟩ := typeOf_follows hE hgg ht
    exact ⟨_, .typed hy hu, .constructor htu⟩
  | declared hs hd hdecl ht =>
    obtain ⟨s', hs', hname, _⟩ := hg.ident _ hs
    obtain ⟨d', hd', hdd⟩ := find_follows (hname rfl) hd
    obtain ⟨_, u, ht', hu, htu⟩ := (rel_cases (hE.types hdd hdecl)).resolve_left fun h => by
      simp [ht] at h
    cases ht.symm.trans ht'
    exact ⟨_, .declared hs' hd' ((K.typeDecl hdd).trans hdecl) hu, .constructor (.some htu)⟩
  | function hs hd hf ht =>
    obtain ⟨s', hs', hname, _⟩ := hg.ident _ hs
    obtain ⟨d', hd', hdd⟩ := find_follows (hname rfl) hd
    obtain ⟨f', hf', _⟩ := K.function hdd hf
    obtain ⟨_, u, ht', hu, htu⟩ := (rel_cases (hE.results hdd)).resolve_left fun h => by
      simp [ht] at h
    cases ht.symm.trans ht'
    exact ⟨_, .function hs' hd' hf' hu, .function hdd htu⟩
  | builtin hs hnot hrule =>
    obtain ⟨s', hs', _, htext⟩ := hg.ident _ hs
    obtain ⟨htext, hnot'⟩ := htext (builtin_ne_empty hrule)
    refine ⟨_, .builtin hs' (hnot' hnot) (htext ▸ hrule), ?_⟩
    rw [← htext]
    exact .builtin hrule

theorem valueOf_follows (hE : K.Tables E E') {v v' : VariableShape Symbol NodeId}
    (hv : K.node v.type v'.type) (hinit : v.initializer ≠ 0 → v'.initializer ≠ 0)
    {t₀ t u₀ : Option Ty} (h : ValueOf a M E v t₀ t) (h₀ : Kin K.node t₀ u₀) :
    ∃ u, ValueOf b M' E' v' u₀ u ∧ Kin K.node t u := by
  cases h with
  | named h0 ht =>
    obtain ⟨u, hu, htu⟩ := typeOf_follows hE hv ht
    exact ⟨u, .named (fun h => h0 ((K.absent hv).2 h)) hu, htu⟩
  | inferred h0 hi => exact ⟨u₀, .inferred ((K.absent hv).1 h0) (hinit hi), h₀⟩

/-- What follows where something is found out about the expressions of a body: those that are `good`
where they stand, and those that are good apart from being moved themselves. -/
def Follows (K : Kinship a b M M' F) (F' : NodeId → ExprFacts → Prop) (E' : Table) (Δ' : Levels)
    (good inside : NodeId → Prop) : ExprFinding → Prop
  | .one i t => ∀ j, (K.read i j ∧ inside i ∨ K.moved i j ∧
      good i) → ∃ u, Reads b M' E' F' Δ' (.one j u) ∧ Kin K.node t u
  | .all is ts => ∀ js, List.Forall₂ K.Place is js → (∀ i ∈ is, good i) →
    ∃ us, Reads b M' E' F' Δ' (.all js us) ∧ List.Forall₂ (Kin K.node) ts us

/-- Expressions of bodies. The names in them mean the same on either side, and what stands for a
moved expression is of its type. -/
theorem reads_follow (hF : K.Allows F') (hE : K.Tables E E') (good inside : NodeId → Prop)
    (hgood : ∀ {i}, good i → inside i)
    (hinside : ∀ {i x}, inside i → a.shape? i = some (.expr x) → ∀ e ∈ x.operands, good e)
    (hseen : ∀ {i j s s' n t}, inside i → K.read i j → a.shape? i = some (.expr (.ident s)) →
      b.shape? j = some (.expr (.ident s')) → K.name s s' → inScope M E Δ s = some (n, t) →
      F i { variableId := some n, type := t } →
      ∃ n' t', inScope M' E' Δ' s' = some (n', t') ∧ K.number n n' ∧ Kin K.node t t')
    (hmoved : ∀ {i j t}, good i → K.moved i j → Reads a M E F Δ (.one i t) →
      ∃ u, Reads b M' E' F' Δ' (.one j u) ∧ Kin K.node t u)
    {f : ExprFinding} (h : Reads a M E F Δ f) : K.Follows F' E' Δ' good inside f := by
  -- a moved expression is dealt with whole, whatever it is
  have hplace : ∀ {i t}, Reads a M E F Δ (.one i t) →
      (∀ {j}, K.read i j → inside i → ∃ u, Reads b M' E' F' Δ' (.one j u) ∧ Kin K.node t u) →
      K.Follows F' E' Δ' good inside (.one i t) := by
    intro i t h hread j hij
    rcases hij with ⟨hij, hi⟩ | ⟨hij, hi⟩
    · exact hread hij hi
    · exact hmoved hi hij h
  induction h with
  | absent =>
    intro j hj
    cases (place_absent (hj.imp And.left And.left)).1 rfl
    exact ⟨none, .absent, .none⟩
  | @ident i s n t hs hscope hFi =>
    refine hplace (.ident hs hscope hFi) fun {j} hij hi => ?_
    obtain ⟨s', hs', hss⟩ := K.ident hij hs
    obtain ⟨n', t', hscope', hnum, htt⟩ := hseen hi hij hs hs' hss hscope hFi
    exact ⟨t', .ident hs' hscope' (hF hij hFi ⟨htt, .some hnum, .none, rfl, .none, rfl⟩), htt⟩
  | @plain i x ts o hx hall hcompose hFi ih =>
    refine hplace (.plain hx hall hcompose hFi) fun {j} hij hi => ?_
    obtain ⟨y, hy, hplaces, hcomposed⟩ := compose_follows hij hx hcompose hFi
    obtain ⟨us, hus, htus⟩ := ih _ hplaces (hinside hi hx)
    obtain ⟨o', ho', hoo⟩ := hcomposed E' us hE.structs htus
    exact ⟨_, .plain hy hus ho' (hF hij hFi (senses_getD hoo)), rel_bind hoo fun _ _ h => h.type⟩
  | @call i g args ts k hx hall hk hFi ih =>
    refine hplace (.call hx hall hk hFi) fun {j} hij hi => ?_
    obtain ⟨g', args', hy, hargs, htarget⟩ := call_follows hij hx hFi
    obtain ⟨us, hus, htus⟩ := ih _ hargs (hinside hi hx)
    obtain ⟨k', hk', hkk⟩ := calls_follow hE hk htarget
    have hsense := hkk.sense htus
    exact ⟨_, .call hy hus hk' (hF hij hFi hsense), hsense.type⟩
  | nil =>
    intro js hjs _
    cases hjs
    exact ⟨[], .nil, .nil⟩
  | cons _ _ ih₁ ih₂ =>
    intro js hjs hall
    cases hjs with
    | cons hj hjs =>
      obtain ⟨he, hes⟩ := List.forall_mem_cons.1 hall
      obtain ⟨u, hu, htu⟩ := ih₁ _ (hj.imp (⟨·, hgood he⟩) (⟨·, he⟩))
      obtain ⟨us, hus, htus⟩ := ih₂ _ hjs hes
      exact ⟨u :: us, .cons hu hus, .cons htu htus⟩

end Bodies

end Kinship
end ShaderLoom
