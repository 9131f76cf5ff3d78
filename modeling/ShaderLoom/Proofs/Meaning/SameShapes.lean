import ShaderLoom.Proofs.Meaning.Kinship

/-! Modules whose nodes have the shapes of the nodes that they stand for. That one of two modules
follows the other is read off their shapes. -/
namespace ShaderLoom

namespace Shape

variable {ν α : Type}

/-- The children that are types, parameters or members. -/
def fixed : Shape ν α → List α
  | type (.vector e _) => [e]
  | type (.matrix e _ _) => [e]
  | type (.array e _) => [e]
  | type (.sampledTexture _ e) => [e]
  | decl (.value v) => [v.type]
  | decl (.function f) => f.params ++ [f.returnType]
  | decl (.struct _ members _) => members
  | decl (.typeAlias _ t) => [t]
  | structMember _ t _ => [t]
  | _ => []

/-- The children that are expressions with a value. -/
def valued : Shape ν α → List α
  | expr x => x.operands
  | decl (.value v) => [v.initializer]
  | _ => []

theorem fixed_subset (x : Shape ν α) : x.fixed ⊆ x.slots := by
  intro c hc
  unfold fixed at hc
  split at hc <;> simp_all only [slots, List.mem_append, List.mem_cons, List.not_mem_nil] <;> tauto

theorem valued_subset (x : Shape ν α) : x.valued ⊆ x.slots := by
  intro c hc
  unfold valued at hc
  split at hc
  · next x => cases x <;> simp_all [ExprShape.operands, slots]
  · simp_all [slots]
  · cases hc

def isMember : Shape ν α → Bool
  | expr (.member _ _) => true
  | _ => false

end Shape

/-- Names of a module whose declarations have counterparts in another one are taken up there too. -/
theorem Resolve.collect_follows {a b : Arena} {node : NodeId → NodeId → Prop}
    {name : Symbol → Symbol → Prop} (hname : Relator.BiUnique name) {gs gs' : List NodeId}
    (hgs : List.Forall₂ node gs gs')
    (hdecl : ∀ {d d'}, node d d' →
      Option.Rel name ((a.shape? d).bind Shape.declName?) ((b.shape? d').bind Shape.declName?))
    {N N' M : Frame} (hN : List.Forall₂ (fun x y => name x.1 y.1 ∧ node x.2 y.2) N N')
    (h : gs.foldl (collect a) (N, []) = (M, [])) :
    ∃ M', gs'.foldl (collect b) (N', []) = (M', []) ∧
      List.Forall₂ (fun x y => name x.1 y.1 ∧ node x.2 y.2) M M' := by
  induction hgs generalizing N N' with
  | nil =>
    cases h
    exact ⟨N', rfl, hN⟩
  | @cons d d' gs gs' hdd _ ih =>
    obtain ⟨s, hd, hs, h⟩ := collect_cons h
    rcases rel_cases (hdecl hdd) with ⟨hnone, _⟩ | ⟨_, s', hd₁, hd', hss⟩
    · simp [hd] at hnone
    cases hd.symm.trans hd₁
    rcases rel_cases (Frame.find?_rel hname hN hss) with ⟨_, hs'⟩ | ⟨x, _, hs₁, _⟩
    · have hstep : collect b (N', []) d' = (N' ++ [(s', d')], []) := by simp [collect, hd', hs']
      rw [List.foldl_cons, hstep]
      exact ih (forall₂_append hN (.cons ⟨hss, hdd⟩ .nil)) h
    · simp [hs] at hs₁

/-- Nodes that stand for each other have the same shape. The names of members are left open, as are
those of call targets, which need not stand for each other. -/
structure Standing (a b : Arena) where
  node : NodeId → NodeId → Prop
  /-- Children of nodes that stand for each other. -/
  place : NodeId → NodeId → Prop
  moved : NodeId → NodeId → Prop
  name : Symbol → Symbol → Prop
  /-- What names become in a node. -/
  spelled : NodeId → Symbol → Symbol → Prop
  /-- Declarations of the module, which only one node stands for. -/
  top : NodeId → Prop
  unique : Relator.LeftUnique node
  once : ∀ {d e e'}, top d → node d e → node d e' → e = e'
  uniqueName : Relator.BiUnique name
  absent : ∀ {i j}, node i j → (i = 0 ↔ j = 0)
  movedPresent : ∀ {i j}, moved i j → i ≠ 0 ∧ j ≠ 0
  zero : node 0 0
  present : ∀ {i j}, node i j → i ≠ 0 → (a.shape? i).isSome
  text : ∀ {s s' r r'}, name s s' → name r r' →
    (a.nameOf s = a.nameOf r ↔ b.nameOf s' = b.nameOf r')
  shape : ∀ {i j x}, node i j → a.shape? i = some x → ∃ y, b.shape? j = some y ∧
    ((x.isStatement = true ∧ y.isStatement = true) ∨
      Shape.Rel (spelled i) place (List.Forall₂ place) x y)
  names : ∀ {i j x s s'}, node i j → a.shape? i = some x → x.isMember = false → s ∈ x.names →
    spelled i s s' → name s s'
  fixed : ∀ {i j x c c'}, node i j → a.shape? i = some x → c ∈ x.fixed → place c c' → node c c'
  valued : ∀ {i j x c c'}, node i j → a.shape? i = some x → c ∈ x.valued → place c c' →
    node c c' ∨ moved c c'

namespace Standing

variable {a b : Arena} (S : Standing a b)

/-- What a node that is no statement stands for. -/
theorem rel {i j : NodeId} {x : Shape Symbol NodeId} (hij : S.node i j) (hx : a.shape? i = some x)
    (hs : x.isStatement = false) :
    ∃ y, b.shape? j = some y ∧ Shape.Rel (S.spelled i) S.place (List.Forall₂ S.place) x y := by
  obtain ⟨y, hy, ⟨hs', _⟩ | hrel⟩ := S.shape hij hx
  · rw [hs] at hs'
    cases hs'
  · exact ⟨y, hy, hrel⟩

theorem forall₂_fixed {i j : NodeId} {x : Shape Symbol NodeId} (hij : S.node i j)
    (hx : a.shape? i = some x) {cs cs' : List NodeId} (hcs : ∀ c ∈ cs, c ∈ x.fixed)
    (h : List.Forall₂ S.place cs cs') : List.Forall₂ S.node cs cs' := by
  induction h with
  | nil => exact .nil
  | cons hc _ ih =>
    obtain ⟨hmem, hcs⟩ := List.forall_mem_cons.1 hcs
    exact .cons (S.fixed hij hx hmem hc) (ih hcs)

theorem forall₂_valued {i j : NodeId} {x : Shape Symbol NodeId} (hij : S.node i j)
    (hx : a.shape? i = some x) {cs cs' : List NodeId} (hcs : ∀ c ∈ cs, c ∈ x.valued)
    (h : List.Forall₂ S.place cs cs') :
    List.Forall₂ (fun c c' => S.node c c' ∨ S.moved c c') cs cs' := by
  induction h with
  | nil => exact .nil
  | cons hc _ ih =>
    obtain ⟨hmem, hcs⟩ := List.forall_mem_cons.1 hcs
    exact .cons (S.valued hij hx hmem hc) (ih hcs)

/-- What the shapes of related nodes tell alike holds of both nodes or of none. -/
theorem any_eq {P : Shape Symbol NodeId → Bool} (hstmt : ∀ x, x.isStatement = true → P x = false)
    (hrel : ∀ {i x y}, Shape.Rel (S.spelled i) S.place (List.Forall₂ S.place) x y → P y = P x)
    {i j : NodeId} (hij : S.node i j) : (b.shape? j).any P = (a.shape? i).any P := by
  cases hx : a.shape? i with
  | none =>
    have h0 : i = 0 := by
      by_contra h0
      have := S.present hij h0
      rw [hx] at this
      cases this
    cases (S.absent hij).1 h0
    rfl
  | some x =>
    obtain ⟨y, hy, ⟨hs, hs'⟩ | h⟩ := S.shape hij hx
    · rw [hy, Option.any_some, Option.any_some, hstmt x hs, hstmt y hs']
    · rw [hy, Option.any_some, Option.any_some, hrel h]

/-- What a node that stands for one without a declaration of some kind has not either. -/
theorem bind_eq_none {β : Type} {f : Shape Symbol NodeId → Option β}
    (hstmt : ∀ x, x.isStatement = true → f x = none)
    (hrel : ∀ {i x y}, Shape.Rel (S.spelled i) S.place (List.Forall₂ S.place) x y →
      (f y).isSome = (f x).isSome) {i j : NodeId} (hij : S.node i j)
    (h : (a.shape? i).bind f = none) : (b.shape? j).bind f = none := by
  have hsame := S.any_eq (P := fun x => (f x).isSome) (fun x hx => by simp [hstmt x hx]) hrel hij
  have hany : ∀ o : Option (Shape Symbol NodeId),
      o.any (fun x => (f x).isSome) = (o.bind f).isSome := by
    intro o
    cases o <;> rfl
  rw [hany, hany, h] at hsame
  simpa using hsame

theorem typeDecl {d d' : NodeId} (hdd : S.node d d') :
    (b.shape? d').any Shape.isTypeDecl = (a.shape? d).any Shape.isTypeDecl :=
  S.any_eq (fun x hx => by cases x <;> simp_all [Shape.isStatement, Shape.isTypeDecl])
    (fun h => by cases h <;> rfl) hdd

/-- Declarations that stand for each other have names that do. -/
theorem declName {d d' : NodeId} (hdd : S.node d d') :
    Option.Rel S.name ((a.shape? d).bind Shape.declName?) ((b.shape? d').bind Shape.declName?) := by
  cases hx : a.shape? d with
  | none =>
    have h0 : d = 0 := by
      by_contra h0
      have := S.present hdd h0
      rw [hx] at this
      cases this
    cases (S.absent hdd).1 h0
    exact .none
  | some x =>
    obtain ⟨y, hy, ⟨hs, hs'⟩ | h⟩ := S.shape hdd hx
    · have hnone : ∀ z : Shape Symbol NodeId, z.isStatement = true → z.declName? = none := by
        intro z hz
        cases z <;> simp_all [Shape.isStatement, Shape.declName?]
      rw [hy, Option.bind_some, Option.bind_some, hnone x hs, hnone y hs']
      exact .none
    · rw [hy]
      have hname : ∀ {s s'}, x.isMember = false → s ∈ x.names → S.spelled d s s' → S.name s s' :=
        S.names hdd hx
      cases h with
      | value hs => exact .some (hname rfl (by simp [Shape.names]) hs)
      | function hs => exact .some (hname rfl (by simp [Shape.names]) hs)
      | struct hs => exact .some (hname rfl (by simp [Shape.names]) hs)
      | typeAlias hs => exact .some (hname rfl (by simp [Shape.names]) hs)
      | _ => exact .none

theorem noFunction {d d' : NodeId} (hdd : S.node d d') (h : a.function? d = none) :
    b.function? d' = none :=
  S.bind_eq_none (fun x hx => by cases x <;> simp_all [Shape.isStatement, Shape.function?])
    (fun h => by cases h <;> rfl) hdd h

/-- A name that stands for no function and no type does so in neither module. -/
theorem notCallable {M M' : Frame} {s s' : Symbol}
    (find : Option.Rel S.node (M.find? s) (M'.find? s'))
    (h : ∀ d, M.find? s = some d → (a.shape? d).any Shape.isTypeDecl = false ∧ a.function? d = none)
    (d' : NodeId) (hd' : M'.find? s' = some d') :
    (b.shape? d').any Shape.isTypeDecl = false ∧ b.function? d' = none := by
  obtain ⟨d, _, hd, hd₁, hdd⟩ := (rel_cases find).resolve_left fun h => by simp [hd'] at h
  cases hd'.symm.trans hd₁
  exact ⟨(S.typeDecl hdd).trans (h d hd).1, S.noFunction hdd (h d hd).2⟩

variable {i j d d' : NodeId}

theorem plain {x : TypeShape Symbol NodeId} {t : Ty} (hij : S.node i j)
    (hx : a.shape? i = some (.type x)) (ht : x.plain? = some t) :
    ∃ y, b.shape? j = some (.type y) ∧ y.plain? = some t := by
  obtain ⟨y, hy, hrel⟩ := S.rel hij hx rfl
  cases hrel with
  | vector => cases ht
  | matrix => cases ht
  | array => cases ht
  | sampledTexture => cases ht
  | named => cases ht
  | _ => exact ⟨_, hy, ht⟩

theorem around {x : TypeShape Symbol NodeId} {e : NodeId} {f : Ty → Ty} (hij : S.node i j)
    (hx : a.shape? i = some (.type x)) (he : x.around? = some (e, f)) :
    ∃ y e', b.shape? j = some (.type y) ∧ y.around? = some (e', f) ∧ S.node e e' := by
  obtain ⟨y, hy, hrel⟩ := S.rel hij hx rfl
  cases hrel with
  | vector hc | matrix hc | array hc | sampledTexture hc =>
    cases he
    exact ⟨_, _, hy, rfl, S.fixed hij hx (by simp [Shape.fixed]) hc⟩
  | _ => cases he

theorem named {s : Symbol} (hij : S.node i j) (hx : a.shape? i = some (.type (.named s))) :
    ∃ s', b.shape? j = some (.type (.named s')) ∧ S.name s s' := by
  obtain ⟨y, hy, hrel⟩ := S.rel hij hx rfl
  cases hrel with
  | named hs => exact ⟨_, hy, S.names hij hx rfl (by simp [Shape.names]) hs⟩

theorem struct {s : Symbol} {ms as : List NodeId} (hdd : S.node d d')
    (hx : a.shape? d = some (.decl (.struct s ms as))) :
    ∃ s' ms' as', b.shape? d' = some (.decl (.struct s' ms' as')) ∧ S.name s s' ∧
      List.Forall₂ S.node ms ms' := by
  obtain ⟨y, hy, hrel⟩ := S.rel hdd hx rfl
  cases hrel with
  | struct hs hms _ =>
    exact ⟨_, _, _, hy, S.names hdd hx rfl (by simp [Shape.names]) hs,
      S.forall₂_fixed hdd hx (by simp [Shape.fixed]) hms⟩

theorem typeAlias {s : Symbol} {ty : NodeId} (hdd : S.node d d')
    (hx : a.shape? d = some (.decl (.typeAlias s ty))) :
    ∃ s' ty', b.shape? d' = some (.decl (.typeAlias s' ty')) ∧ S.node ty ty' := by
  obtain ⟨y, hy, hrel⟩ := S.rel hdd hx rfl
  cases hrel with
  | typeAlias _ ht => exact ⟨_, _, hy, S.fixed hdd hx (by simp [Shape.fixed]) ht⟩

theorem structMember {s : Symbol} {ty : NodeId} {as : List NodeId} (hdd : S.node d d')
    (hx : a.shape? d = some (.structMember s ty as)) :
    ∃ s' ty' as', b.shape? d' = some (.structMember s' ty' as') ∧ S.name s s' ∧ S.node ty ty' := by
  obtain ⟨y, hy, hrel⟩ := S.rel hdd hx rfl
  cases hrel with
  | structMember hs ht _ =>
    exact ⟨_, _, _, hy, S.names hdd hx rfl (by simp [Shape.names]) hs,
      S.fixed hdd hx (by simp [Shape.fixed]) ht⟩

theorem noMember (hdd : S.node d d') (h : (a.shape? d).any Shape.isStructMember = false) :
    (b.shape? d').any Shape.isStructMember = false := by
  rw [S.any_eq (fun x hx => by cases x <;> simp_all [Shape.isStatement, Shape.isStructMember])
    (fun h => by cases h <;> rfl) hdd, h]

theorem value {v : VariableShape Symbol NodeId} (hdd : S.node d d')
    (hv : a.asVariable? d = some v) :
    ∃ v', b.asVariable? d' = some v' ∧ S.name v.name v'.name ∧ S.node v.type v'.type ∧
      (S.node v.initializer v'.initializer ∨ S.moved v.initializer v'.initializer) ∧
      (v.kind = .parameter → v'.kind = .parameter) := by
  have hx := Arena.shape?_of_asVariable? hv
  obtain ⟨y, hy, hrel⟩ := S.rel hdd hx rfl
  cases hrel with
  | value hs ht hi _ =>
    have hv' := congrArg (Option.bind · Shape.asVariable?) hy
    exact ⟨_, hv', S.names hdd hx rfl (by simp [Shape.names]) hs,
      S.fixed hdd hx (by simp [Shape.fixed]) ht, S.valued hdd hx (by simp [Shape.valued]) hi, id⟩

theorem noValue (hdd : S.node d d') (h : a.asVariable? d = none) : b.asVariable? d' = none :=
  S.bind_eq_none (fun x hx => by cases x <;> simp_all [Shape.isStatement, Shape.asVariable?])
    (fun h => by cases h <;> rfl) hdd h

theorem function {f : FunctionShape Symbol NodeId} (hdd : S.node d d')
    (hf : a.function? d = some f) :
    ∃ f', b.function? d' = some f' ∧ S.node f.returnType f'.returnType ∧
      List.Forall₂ S.node f.params f'.params := by
  have hx := Arena.shape?_of_function? hf
  obtain ⟨y, hy, hrel⟩ := S.rel hdd hx rfl
  cases hrel with
  | function _ hps hr _ _ _ =>
    have hf' := congrArg (Option.bind · Shape.function?) hy
    exact ⟨_, hf', S.fixed hdd hx (by simp [Shape.fixed]) hr,
      S.forall₂_fixed hdd hx (by simp +contextual [Shape.fixed]) hps⟩

theorem ident {s : Symbol} (hij : S.node i j) (hx : a.shape? i = some (.expr (.ident s))) :
    ∃ s', b.shape? j = some (.expr (.ident s')) ∧ S.name s s' := by
  obtain ⟨y, hy, hrel⟩ := S.rel hij hx rfl
  cases hrel with
  | ident hs => exact ⟨_, hy, S.names hij hx rfl (by simp [Shape.names]) hs⟩

/-- What an expression without names or a target of its own is on the other side. -/
theorem composed {x : ExprShape Symbol NodeId} (hij : S.node i j)
    (hx : a.shape? i = some (.expr x)) :
    ∃ y, b.shape? j = some (.expr y) ∧
      Shape.Rel (S.spelled i) S.place (List.Forall₂ S.place) (.expr x) (.expr y) ∧
      List.Forall₂ (fun c c' => S.node c c' ∨ S.moved c c') x.operands y.operands := by
  obtain ⟨y, hy, hrel⟩ := S.rel hij hx rfl
  have hvalued : ∀ {cs cs'}, (∀ c ∈ cs, c ∈ x.operands) → List.Forall₂ S.place cs cs' →
      List.Forall₂ (fun c c' => S.node c c' ∨ S.moved c c') cs cs' := S.forall₂_valued hij hx
  cases hrel with
  | ident hs => exact ⟨_, hy, .ident hs, .nil⟩
  | int => exact ⟨_, hy, .int, .nil⟩
  | float => exact ⟨_, hy, .float, .nil⟩
  | boolean => exact ⟨_, hy, .boolean, .nil⟩
  | binary hl hr => exact ⟨_, hy, .binary hl hr, hvalued (fun _ h => h) (.cons hl (.cons hr .nil))⟩
  | unary he => exact ⟨_, hy, .unary he, hvalued (fun _ h => h) (.cons he .nil)⟩
  | index ho hk => exact ⟨_, hy, .index ho hk, hvalued (fun _ h => h) (.cons ho (.cons hk .nil))⟩
  | member ho hs => exact ⟨_, hy, .member ho hs, hvalued (fun _ h => h) (.cons ho .nil)⟩
  | call hg hargs => exact ⟨_, hy, .call hg hargs, hvalued (fun _ h => h) hargs⟩

theorem binary {op : BinaryOp} {l r : NodeId} (hij : S.node i j)
    (hx : a.shape? i = some (.expr (.binary op l r))) :
    ∃ l' r', b.shape? j = some (.expr (.binary op l' r')) ∧ (S.node l l' ∨ S.moved l l') ∧
      (S.node r r' ∨ S.moved r r') := by
  obtain ⟨y, hy, hrel, hops⟩ := S.composed hij hx
  cases hrel with
  | binary =>
    obtain ⟨_, _, he, hl, hr⟩ := Kinship.forall₂_pair hops
    cases he
    exact ⟨_, _, hy, hl, hr⟩

theorem unary {op : UnaryOp} {e : NodeId} (hij : S.node i j)
    (hx : a.shape? i = some (.expr (.unary op e))) :
    ∃ e', b.shape? j = some (.expr (.unary op e')) ∧ (S.node e e' ∨ S.moved e e') := by
  obtain ⟨y, hy, hrel, hops⟩ := S.composed hij hx
  cases hrel with
  | unary =>
    obtain ⟨_, he, h⟩ := Kinship.forall₂_singleton hops
    cases he
    exact ⟨_, hy, h⟩

theorem index {o k : NodeId} (hij : S.node i j) (hx : a.shape? i = some (.expr (.index o k))) :
    ∃ o' k', b.shape? j = some (.expr (.index o' k')) ∧ (S.node o o' ∨ S.moved o o') ∧
      (S.node k k' ∨ S.moved k k') := by
  obtain ⟨y, hy, hrel, hops⟩ := S.composed hij hx
  cases hrel with
  | index =>
    obtain ⟨_, _, he, ho, hk⟩ := Kinship.forall₂_pair hops
    cases he
    exact ⟨_, _, hy, ho, hk⟩

theorem member {o : NodeId} {s : Symbol} (hij : S.node i j)
    (hx : a.shape? i = some (.expr (.member o s))) :
    ∃ o' s', b.shape? j = some (.expr (.member o' s')) ∧ (S.node o o' ∨ S.moved o o') ∧
      S.spelled i s s' := by
  obtain ⟨y, hy, hrel, hops⟩ := S.composed hij hx
  cases hrel with
  | member _ hs =>
    obtain ⟨_, he, ho⟩ := Kinship.forall₂_singleton hops
    cases he
    exact ⟨_, _, hy, ho, hs⟩

theorem call {g : NodeId} {args : List NodeId} (hij : S.node i j)
    (hx : a.shape? i = some (.expr (.call g args))) :
    ∃ g' args', b.shape? j = some (.expr (.call g' args')) ∧ S.place g g' ∧
      List.Forall₂ (fun c c' => S.node c c' ∨ S.moved c c') args args' := by
  obtain ⟨y, hy, hrel, hops⟩ := S.composed hij hx
  cases hrel with
  | call hg _ => exact ⟨_, _, hy, hg, hops⟩

/-- Modules whose nodes stand for each other follow each other, if the names at module scope do and
what is left open about members and calls. -/
def kinship {M M' : Frame} {F : NodeId → ExprFacts → Prop} (number : VariableId → VariableId → Prop)
    (first : number 0 0) (next : ∀ {m n}, number m n → number (m + 1) (n + 1))
    (find : ∀ {s s'}, S.name s s' → Option.Rel S.node (M.find? s) (M'.find? s'))
    (findTop : ∀ {s d}, M.find? s = some d → S.top d)
    (member : ∀ {i j o s o' s'}, S.node i j → a.shape? i = some (.expr (.member o s)) →
      b.shape? j = some (.expr (.member o' s')) → S.spelled i s s' →
      (∀ e, F i e → e.swizzle.isSome → a.nameOf s = b.nameOf s') ∧
      ∀ e, F i e → e.swizzle = none → S.name s s')
    (call : ∀ {i j g args g' args'}, S.node i j → a.shape? i = some (.expr (.call g args)) →
      b.shape? j = some (.expr (.call g' args')) → S.place g g' →
      ((∃ x, a.shape? g = some (.type x)) → S.node g g' ∧ ∃ y, b.shape? g' = some (.type y)) ∧
      ∀ s, a.shape? g = some (.expr (.ident s)) → ∃ s', b.shape? g' = some (.expr (.ident s')) ∧
        (∀ e, F i e → e.builtin = "" → S.name s s') ∧ ∀ e, F i e → e.builtin ≠ "" →
          a.nameOf s = b.nameOf s' ∧
          ((∀ d, M.find? s = some d → (a.shape? d).any Shape.isTypeDecl = false ∧
            a.function? d = none) → ∀ d, M'.find? s' = some d → (b.shape? d).any Shape.isTypeDecl =
              false ∧ b.function? d = none)) : Kinship a b M M' F where
  node := S.node
  read := S.node
  moved := S.moved
  name := S.name
  number := number
  top := S.top
  unique := S.unique
  once := S.once
  uniqueName := S.uniqueName
  absent := S.absent
  readAbsent := S.absent
  movedPresent := S.movedPresent
  zero := S.zero
  first := first
  next := next
  text := S.text
  find := find
  findTop := findTop
  plain := S.plain
  around := S.around
  named := S.named
  typeDecl := S.typeDecl
  struct := S.struct
  typeAlias := S.typeAlias
  structMember := S.structMember
  noMember := S.noMember
  value := S.value
  noValue := S.noValue
  function := S.function
  noFunction := S.noFunction
  ident := S.ident
  int hij hx := by
    obtain ⟨y, hy, hrel, _⟩ := S.composed hij hx
    cases hrel
    exact hy
  float hij hx := by
    obtain ⟨y, hy, hrel, _⟩ := S.composed hij hx
    cases hrel
    exact hy
  bool hij hx := by
    obtain ⟨y, hy, hrel, _⟩ := S.composed hij hx
    cases hrel
    exact hy
  binary := S.binary
  unary := S.unary
  index := S.index
  member hij hx := by
    obtain ⟨o', s', hy, ho, hs⟩ := S.member hij hx
    exact ⟨o', s', hy, ho, member hij hx hy hs⟩
  call hij hx := by
    obtain ⟨g', args', hy, hg, hargs⟩ := S.call hij hx
    exact ⟨g', args', hy, hargs, call hij hx hy hg⟩

/-- The same where all names are kept and the targets of calls stand for each other like other
nodes. -/
def kinshipOfSame {M M' : Frame} {F : NodeId → ExprFacts → Prop}
    (number : VariableId → VariableId → Prop) (first : number 0 0)
    (next : ∀ {m n}, number m n → number (m + 1) (n + 1))
    (find : ∀ {s s'}, S.name s s' → Option.Rel S.node (M.find? s) (M'.find? s'))
    (findTop : ∀ {s d}, M.find? s = some d → S.top d)
    (spelled : ∀ {i s s'}, S.spelled i s s' → S.name s s' ∧ a.nameOf s = b.nameOf s')
    (target : ∀ {i j g args g'}, S.node i j → a.shape? i = some (.expr (.call g args)) →
      S.place g g' → S.node g g') : Kinship a b M M' F :=
  S.kinship number first next find findTop (fun _ _ _ hs =>
    ⟨fun _ _ _ => (spelled hs).2, fun _ _ _ => (spelled hs).1⟩) fun hij hi hj hg => by
    have hgg := target hij hi hg
    refine ⟨fun ⟨x, hx⟩ => ⟨hgg, ?_⟩, fun s hs => ?_⟩
    · obtain ⟨y, hy, hrel⟩ := S.rel hgg hx rfl
      cases hrel <;> exact ⟨_, hy⟩
    · obtain ⟨y, hy, hrel⟩ := S.rel hgg hs rfl
      cases hrel with
      | ident hss => exact ⟨_, hy, fun _ _ _ => (spelled hss).1,
          fun _ _ _ => ⟨(spelled hss).2, S.notCallable (find (spelled hss).1)⟩⟩

end Standing
end ShaderLoom
