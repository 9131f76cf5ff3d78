import ShaderLoom.Proofs.Copy.Trim
import ShaderLoom.Proofs.Pass.Builtins
import ShaderLoom.Proofs.Pass.Registration
import ShaderLoom.Proofs.Symbols

/-! What reading the number of workgroups from a buffer makes of a program. The pass never fails on
a valid program of a document. Where no compute entry point takes the number, its result reads the
same. Otherwise the result declares a buffer under new names and goes on as the program does,
without what goes away and with reads of the buffer in place of all uses that resolution
recorded. -/
namespace ShaderLoom

namespace Builder

variable {b b' b'' : Builder} {gs gs' : List NodeId}

/-- The second builder has more nodes and names, and more declarations. -/
structure Adds (b b' : Builder) (gs : List NodeId) : Prop extends b.Extends b' where
  globals : b'.globals = b.globals ++ gs

theorem Adds.trans (h : b.Adds b' gs) (h' : b'.Adds b'' gs') : b.Adds b'' (gs ++ gs') :=
  ⟨h.toExtends.trans h'.toExtends, by rw [h'.globals, h.globals, List.append_assoc]⟩

end Builder

namespace Build

variable {b b' b'' : Builder} {i : NodeId} {shape : Shape Symbol NodeId} {span : Span}

theorem bind_ok {α β : Type} {step : Build α} {next : α → Build β} {y : β} :
    (step >>= next) b = .ok y b'' ↔ ∃ x b', step b = .ok x b' ∧ next x b' = .ok y b'' := by
  simp only [bind, EStateM.bind]
  cases step b <;> simp

theorem push_ok (h : push shape span b = .ok i b') : b'.shape? i = some shape ∧ b.Adds b' [] := by
  cases h
  exact ⟨Builder.Mode.shape?_push b shape span, Builder.Mode.extends_push b shape span,
    (List.append_nil _).symm⟩

theorem global_ok (h : global (push shape span) b = .ok i b') :
    b'.shape? i = some shape ∧ b.Adds b' [i] := by
  obtain ⟨j, b₁, hpush, h⟩ := bind_ok.1 h
  obtain ⟨hshape, hadds⟩ := push_ok hpush
  cases h
  exact ⟨hshape, ⟨hadds.nodes, hadds.names, hadds.span, hadds.diagnostics⟩, by simp [hadds.globals]⟩

theorem symbol_ok {s : Symbol} {name : String} (h : symbol name b = .ok s b') :
    b'.symbols.Names s name ∧ b.Adds b' [] := by
  have hrun : symbol name b = .ok (b.symbols.register name).1
      { b with symbols := (b.symbols.register name).2 } := rfl
  rw [hrun] at h
  cases h
  exact ⟨SymbolTable.names_of_register _ _,
    ⟨⟨#[], Array.append_empty.symm⟩, b.symbols.register_extends name, rfl, rfl⟩,
    (List.append_nil _).symm⟩

theorem freshSymbol_ok {s : Symbol} {hint : String} (h : freshSymbol hint b = .ok s b') :
    (∃ name, b'.symbols.Names s name ∧ name ∉ b.symbols.names.toList) ∧ b.Adds b' [] := by
  have hrun : freshSymbol hint b =
      .ok (b.symbols.fresh hint).1 { b with symbols := (b.symbols.fresh hint).2 } := rfl
  obtain ⟨name, hnew, hsymbol, hnames⟩ := b.symbols.fresh_new hint
  rw [hrun, hsymbol] at h
  cases h
  exact ⟨⟨name, SymbolTable.names_push hnames, hnew⟩,
    ⟨⟨#[], Array.append_empty.symm⟩, ⟨#[name], hnames.trans Array.push_eq_append⟩, rfl, rfl⟩,
    (List.append_nil _).symm⟩

end Build

namespace Workgroups

open Copy Build

variable {p q : Program} {plan : Plan} {point : BindingPoint}

section Uses

variable {a a' : Arena} {buffer : Symbol} {i : NodeId}

/-- A read of the buffer. -/
def IsRead (a : Arena) (buffer : Symbol) (i : NodeId) : Prop :=
  ∃ o s, a.shape? i = some (.expr (.member o s)) ∧ a.shape? o = some (.expr (.ident buffer)) ∧
    a.symbols.Names s field

/-- The node is what a use becomes. -/
def Use.Made (a : Arena) (i : NodeId) : Use → Prop
  | .read buffer => IsRead a buffer i
  | .construct struct buffer => ∃ t r, a.shape? i = some (.expr (.call t [r])) ∧
      a.shape? t = some (.type (.named struct)) ∧ IsRead a buffer r

theorem IsRead.mono (hshapes : ∀ {k s}, a.shape? k = some s → a'.shape? k = some s)
    (hnames : ∃ more, a'.symbols.names = a.symbols.names ++ more) (h : IsRead a buffer i) :
    IsRead a' buffer i := by
  obtain ⟨o, s, hi, ho, hs⟩ := h
  exact ⟨o, s, hshapes hi, hshapes ho, hs.extend hnames⟩

theorem Use.Made.mono (hshapes : ∀ {k s}, a.shape? k = some s → a'.shape? k = some s)
    (hnames : ∃ more, a'.symbols.names = a.symbols.names ++ more) {use : Use} (h : use.Made a i) :
    use.Made a' i := by
  cases use with
  | read buffer => exact IsRead.mono hshapes hnames h
  | construct struct buffer =>
    obtain ⟨t, r, hi, ht, hr⟩ := h
    exact ⟨t, r, hshapes hi, hshapes ht, hr.mono hshapes hnames⟩

variable {b b' : Builder}

theorem isRead_readBuffer (h : readBuffer buffer b = .ok i b') :
    IsRead b'.toArena buffer i ∧ b.Adds b' [] := by
  obtain ⟨s, b₁, h₁, h⟩ := bind_ok.1 h
  obtain ⟨o, b₂, h₂, h₃⟩ := bind_ok.1 h
  obtain ⟨hs, a₁⟩ := symbol_ok h₁
  obtain ⟨ho, a₂⟩ := push_ok h₂
  obtain ⟨hi, a₃⟩ := push_ok h₃
  exact ⟨⟨o, s, hi, a₃.shape? ho, hs.extend (a₂.trans a₃).names⟩, (a₁.trans a₂).trans a₃⟩

theorem made_construct {struct : Symbol} (h : (do
      let type ← Build.type (.named struct)
      let value ← readBuffer buffer
      Build.construct type [.node value] : Build NodeId) b = .ok i b') :
    (Use.construct struct buffer).Made b'.toArena i := by
  obtain ⟨t, b₁, h₁, h⟩ := bind_ok.1 h
  obtain ⟨r, b₂, h₂, h⟩ := bind_ok.1 h
  obtain ⟨args, b₃, h₃, h₄⟩ := bind_ok.1 h
  cases h₃
  obtain ⟨ht, _⟩ := push_ok h₁
  obtain ⟨hr, a₂⟩ := isRead_readBuffer h₂
  obtain ⟨hi, a₄⟩ := push_ok h₄
  exact ⟨t, r, hi, (a₂.trans a₄).shape? ht, hr.mono a₄.shape? a₄.names⟩

end Uses

section Copied

/-- The session that is copied: its target, the elements that are left out and the uses that are
replaced. -/
def marked (p : Program) (b : Builder) (ds : List NodeId) (rs : List (NodeId × Use)) :
    Session Use Unit :=
  ({ Session.start p () with target := b }).mark ds rs

variable {b : Builder} {ds : List NodeId} {rs : List (NodeId × Use)} {origin : NodeId → NodeId}

/-- The account of a copy with other uses. -/
def account (p : Program) (b : Builder) (ds : List NodeId) (rs : List (NodeId × Use)) :
    Account Use Unit where
  mode := ⟨⟨True, False, False⟩, True⟩
  base := marked p b ds rs
  name w s t := s = t ∧ ∃ x, p.symbols.Names s x ∧ w.1.target.symbols.Names t x
  side _ _ _ := True
  extra _ _ := False
  special w i j := ∃ use, rs.lookup i = some use ∧ use.Made w.1.target.toArena j
  parts i := rs.lookup i = none
  state w := w.1.symbols = [] ∧ ∃ more, w.1.target.symbols.names = p.symbols.names ++ more

theorem replacements_marked (i : NodeId) :
    (marked p b ds rs).replacements i = (rs.lookup i).map .handler := by
  simp [marked, Session.mark, Session.start]

theorem gone_account : (account p b ds rs).gone = (· ∈ ds) := by
  funext i
  simp [Account.gone, account, marked, Session.mark, Session.start]

theorem account_stable : (account p b ds rs).Stable where
  name h := fun ⟨hs, x, hp, hx⟩ => ⟨hs, x, hp, hx.extend h.target.names⟩
  side _ _ := trivial
  extra _ h := h
  special h := fun ⟨use, hi, hm⟩ => ⟨use, hi, hm.mono h.target.shape? h.target.names⟩
  state h _ hs := fun ⟨hn, more, hm⟩ => by
    obtain ⟨more', hm'⟩ := h.target.names
    exact ⟨hs.trans hn, more ++ more', by rw [hm', hm, Array.append_assoc]⟩

theorem account_plain (hp : p.Fit) (hk : p.Known) : (account p b ds rs).Plain fun _ => False where
  source := hp
  front := rfl
  back := rfl
  name {i node} ht hn _ s hs := by
    obtain ⟨x, hx⟩ := hk i node ht hn s hs
    exact Account.turns_keep rfl hx.1 fun w ⟨hnone, hmore⟩ => ⟨hnone, rfl, x, hx, hx.extend hmore⟩

theorem account_handled : (account p b ds rs).Handled (fun _ => False) (within p) act where
  replaced n i use node _ hi h0 ht hn hr := by
    have hlookup : rs.lookup i = some use := by
      have hr : (marked p b ds rs).replacements i = some (.handler use) := hr
      simpa [replacements_marked] using hr
    cases use with
    | read buffer =>
      exact (Account.turns_make account_stable (yields_readBuffer buffer) h0 ht fun _ _ _ hs =>
        ⟨⟨_, hlookup, (isRead_readBuffer hs).1⟩, trivial⟩).weaken (by simp)
    | construct struct buffer =>
      exact (Account.turns_make account_stable (yields_construct struct buffer) h0 ht
        fun _ _ _ hs =>
        ⟨⟨_, hlookup, made_construct hs⟩, trivial⟩).weaken (by simp)
  family _ _ _ _ _ _ _ _ _ _ _ hfind := nomatch hfind
  anew _ i _ _ _ _ hr _ := by
    have hr : (marked p b ds rs).replacements i = none := hr
    rwa [replacements_marked, Option.map_eq_none_iff] at hr
  side _ _ _ _ _ _ _ _ := trivial

/-- The second program has some declarations of its own first and then is the first one: every node
that comes from a node of the first program is what its use becomes, or else a copy without the
elements that are left out. -/
structure Replaces (gs ds : List NodeId) (rs : List (NodeId × Use)) (origin : NodeId → NodeId)
    (p q : Program) : Prop where
  fit : q.Fit
  node : ∀ k, origin k ≠ 0 → p.inTree (origin k) = true ∧ match rs.lookup (origin k) with
    | some use => use.Made q.toArena k
    | none =>
      ∃ n m, p.node? (origin k) = some n ∧ q.node? k = some m ∧
        m.span = (if n.span.valid then n.span else {}) ∧
        Shape.Rel (fun s t => s = t ∧ p.symbols.nameFor s = q.symbols.nameFor t)
        (Program.Comes origin)
          (Program.ComeLists (· ∈ ds) origin) n.shape m.shape
  globals : ∃ ys, q.globals = gs ++ ys ∧ Program.ComeLists (· ∈ ds) origin p.globals ys

/-- Copying with other uses succeeds. -/
theorem copyModule_replaces (hp : p.Fit) (hk : p.Known) (hb : b.Fit)
    (honce : ∀ x, x ≠ 0 → b.held x ≤ 1) (hnames : ∃ more, b.symbols.names = p.symbols.names ++ more)
    (ds : List NodeId) (rs : List (NodeId × Use)) :
    ∃ (s : Session Use Unit) (origin : NodeId → NodeId),
      Edit.copyModule (Edit.copy act) (marked p b ds rs) = .ok () s ∧
      s.copied = true ∧ b.Extends s.target ∧ Replaces b.globals ds rs origin p s.target.build := by
  have hgood : (account p b ds rs).mode.Good b [] :=
    ⟨hb, by simp, fun _ x hx => by simpa using honce x hx⟩
  have hstart := Account.Holds.begin (A := account p b ds rs) hgood
    (fun _ => ⟨False.elim, False.elim, False.elim⟩)
    (fun _ => rfl) (fun _ => rfl) (fun _ => rfl) (fun i j h => ?_) ⟨rfl, hnames⟩
  swap
  · have h : (marked p b ds rs).replacements i = some (.fixed j) := h
    simp [replacements_marked] at h
  obtain ⟨_, s, origin, hs, hw, hgrown, hcopied, hglobals⟩ :=
    (Account.copyModule account_stable (account_plain hp hk)
    (reach_within hp) account_handled (fun _ => within_global hp)
    (fun h => absurd h (by simp [account, marked, Session.mark, Session.start])) hstart).succeeds
  have hcome : ∀ x y, (account p b ds rs).Out (s, origin) x y → Program.Comes origin x y :=
    fun _ _ h => h.imp_right fun h => ⟨h.1, h.2.1⟩
  have hlists : ∀ xs ys, (account p b ds rs).Lists (s, origin) xs ys →
      Program.ComeLists (· ∈ ds) origin xs ys := by
    intro xs ys h
    have hlisted := h.listed.mono (fun _ h => h.2) hcome
    rwa [gone_account] at hlisted
  refine ⟨s, origin, hs, hcopied, hgrown.target, hw.good.toFit.build, fun k hk => ?_, ?_⟩
  · obtain ⟨htree, hdescribed⟩ := hw.traced k hk
    refine ⟨htree, ?_⟩
    rcases hdescribed with ⟨hparts, n, m, hn, hm, hspan, hrel⟩ | ⟨use, huse, hmade⟩
    · rw [show rs.lookup (origin k) = none from hparts]
      refine ⟨n, m, hn, Builder.node?_build_of hm, hspan, hrel.mono ?_ hcome hlists⟩
      rintro x y ⟨rfl, name, hx, hy⟩
      exact ⟨rfl, hx.nameFor.trans hy.nameFor.symm⟩
    · rw [huse]
      exact hmade.mono Builder.shape?_build_of ⟨#[], by simp [Builder.symbols_build]⟩
  · obtain ⟨ys, hys, _, hlist⟩ := hglobals trivial fun _ _ => ⟨rfl, rfl⟩
    refine ⟨ys, (Builder.globals_build _).trans hys, ?_⟩
    have hlisted := (hlist trivial).mono (fun _ h => h) hcome
    rwa [gone_account] at hlisted

/-- A copy with nothing of its own, from which nothing is left out and in which nothing is replaced,
reads the same. -/
theorem Replaces.reads (h : Replaces [] [] [] origin p q) (hp : p.Fit) : p.Reads q := by
  have hgone : ∀ x : NodeId, x ∉ ([] : List NodeId) := fun _ => List.not_mem_nil
  obtain ⟨ys, hys, hlist⟩ := h.globals
  rw [List.nil_append] at hys
  refine hp.reads h.fit (R := Program.Comes origin) (fun i j hij => hij.imp_right fun hij => ?_)
    (hys ▸ Listed.forall₂ hlist (fun _ h => h) hgone)
  obtain ⟨hi, rfl⟩ := hij
  obtain ⟨_, n, m, hn, hm, hspan, hrel⟩ := h.node j hi
  refine ⟨n, m, hn, hm, ?_, hrel.mono (fun _ _ h => h.2) (fun _ _ h => h) fun _ _ h =>
    Listed.forall₂ h (fun _ h => h) hgone⟩
  rw [hspan]
  exact Span.same_ofValid n.span

end Copied

section Params

/-- The parameters of compute entry points. -/
def computeParams (p : Program) : List VariableFacts :=
  p.facts.variablesOf ((p.facts.entryPointFacts.filter (·.stage == .compute)).flatMap (·.params))

/-- Does a parameter take the number of workgroups, or a structure of it? -/
def takesNumber (p : Program) (v : VariableFacts) : Bool :=
  v.builtin == .numWorkgroups || match v.type with
    | some (.struct d _) =>
      p.facts.structs[d]?.any fun st => st.members.any (·.builtin == .numWorkgroups)
    | _ => false

theorem takesNumber_iff {v : VariableFacts} : takesNumber p v = true ↔ v.builtin = .numWorkgroups ∨
    ∃ d n st, v.type = some (.struct d n) ∧ p.facts.structs[d]? = some st ∧ ∃ m ∈ st.members,
      m.builtin = .numWorkgroups := by
  rw [takesNumber, Bool.or_eq_true, beq_iff_eq]
  refine or_congr_right ⟨fun h => ?_, ?_⟩
  · split at h
    · next d n htype =>
      obtain ⟨st, hst, hany⟩ := (Option.any_eq_true _ _).1 h
      obtain ⟨m, hm, hb⟩ := List.any_eq_true.1 hany
      exact ⟨d, n, st, htype, hst, m, hm, by simpa using hb⟩
    · cases h
  · rintro ⟨d, n, st, htype, hst, m, hm, hb⟩
    simpa [htype, hst] using ⟨m, hm, hb⟩

/-- The parameter goes away, or a member of its structure with the number of workgroups does. -/
def Plan.Drops (p : Program) (plan : Plan) (v : VariableFacts) : Prop :=
  (∃ param ∈ plan.params, param.decl = v.decl) ∨ ∃ d n st, v.type = some (.struct d n) ∧
    p.facts.structs[d]? = some st ∧
    ∃ m ∈ st.members, m.builtin = .numWorkgroups ∧ m.decl ∈ plan.members

theorem addParam_grows (p : Program) (plan : Plan) (v : VariableFacts) :
    plan.params ⊆ (plan.addParam p v).params ∧ plan.members ⊆ (plan.addParam p v).members := by
  unfold Plan.addParam
  grind

theorem Plan.Drops.addParam {v : VariableFacts} (h : plan.Drops p v) (u : VariableFacts) :
    (plan.addParam p u).Drops p v := by
  obtain ⟨hparams, hmembers⟩ := addParam_grows p plan u
  rcases h with ⟨param, hparam, hdecl⟩ | ⟨d, n, st, htype, hst, m, hm, hb, hgone⟩
  · exact .inl ⟨param, hparams hparam, hdecl⟩
  · exact .inr ⟨d, n, st, htype, hst, m, hm, hb, hmembers hgone⟩

/-- A plan drops what it is told of. -/
theorem drops_addParam (plan : Plan) {v : VariableFacts} (hv : takesNumber p v = true) :
    (plan.addParam p v).Drops p v := by
  rw [takesNumber_iff] at hv
  unfold Plan.addParam
  split
  · next hany =>
    obtain ⟨param, hparam, hdecl⟩ := List.any_eq_true.1 hany
    exact .inl ⟨param, hparam, by simpa using hdecl⟩
  split
  · exact .inl ⟨_, List.mem_append_right _ (List.mem_singleton.2 rfl), rfl⟩
  next hnot =>
  obtain ⟨d, n, st, htype, hst, m, hm, hb⟩ := hv.resolve_left hnot
  simp only [htype, hst]
  split
  · next hnone => simpa [hb] using List.find?_eq_none.1 hnone m (List.mem_reverse.2 hm)
  next m' hfind =>
  have hm' : m' ∈ st.members := List.mem_reverse.1 (List.mem_of_find?_eq_some hfind)
  have hb' : m'.builtin = .numWorkgroups := by simpa using List.find?_some hfind
  split
  · exact .inl ⟨_, List.mem_append_right _ (List.mem_singleton.2 rfl), rfl⟩
  · exact .inr ⟨d, n, st, htype, hst, m', hm', hb',
      List.mem_append_right _ (List.mem_singleton.2 rfl)⟩

/-- A plan is not changed by other parameters. -/
theorem addParam_eq (plan : Plan) {v : VariableFacts} (hv : takesNumber p v = false) :
    plan.addParam p v = plan := by
  rw [← Bool.not_eq_true, takesNumber_iff] at hv
  unfold Plan.addParam
  split
  · rfl
  split
  · next hb => exact absurd (.inl hb) hv
  split
  · next d n htype =>
    split
    · rfl
    next st hst =>
    split
    · rfl
    next m hfind =>
    exact absurd (.inr ⟨d, n, st, htype, hst, m,
      List.mem_reverse.1 (List.mem_of_find?_eq_some hfind),
      by simpa using List.find?_some hfind⟩) hv
  · rfl

theorem drops_planned {v : VariableFacts} (hv : v ∈ computeParams p)
    (htakes : takesNumber p v = true) : (planned p).Drops p v := by
  have hall : ∀ (vs : List VariableFacts) (plan : Plan), v ∈ vs ∨ plan.Drops p v →
      (vs.foldl (Plan.addParam p) plan).Drops p v := by
    intro vs
    induction vs with
    | nil => exact fun _ h => h.resolve_left List.not_mem_nil
    | cons u vs ih =>
      intro plan h
      refine ih _ ?_
      rcases h with h | h
      · rcases List.mem_cons.1 h with rfl | h
        · exact .inr (drops_addParam plan htakes)
        · exact .inl h
      · exact .inr (h.addParam u)
  exact hall _ {} (.inl hv)

theorem planned_eq_nil (h : ∀ v ∈ computeParams p, takesNumber p v = false) : planned p = {} := by
  have hall : ∀ vs : List VariableFacts, (∀ v ∈ vs, takesNumber p v = false) →
      vs.foldl (Plan.addParam p) {} = {} := by
    intro vs
    induction vs with
    | nil => exact fun _ => rfl
    | cons v vs ih =>
      intro h
      rw [List.foldl_cons, addParam_eq _ (h v List.mem_cons_self)]
      exact ih fun u hu => h u (List.mem_cons_of_mem _ hu)
  exact hall _ h

end Params

section Buffer

/-- The declarations of a uniform buffer: its symbols and its nodes. -/
structure Buffer where
  struct : Symbol
  field : Symbol
  symbol : Symbol
  elem : NodeId
  vector : NodeId
  member : NodeId
  decl : NodeId
  type : NodeId
  group : NodeId
  binding : NodeId
  var : NodeId

/-- The buffer holds the number of workgroups and is bound at a point. Its structure and its
variable have names that are not among given ones. -/
structure Buffer.Declared (x : Buffer) (point : BindingPoint) (names : List String) (a : Arena) :
    Prop where
  struct : ∃ name, a.symbols.Names x.struct name ∧ name ∉ names
  symbol : ∃ name, a.symbols.Names x.symbol name ∧ name ∉ names
  field : a.symbols.Names x.field Workgroups.field
  elem : a.shape? x.elem = some (.type .u32)
  vector : a.shape? x.vector = some (.type (.vector x.elem 3))
  member : a.shape? x.member = some (.structMember x.field x.vector [])
  decl : a.shape? x.decl = some (.decl (.struct x.struct [x.member] []))
  type : a.shape? x.type = some (.type (.named x.struct))
  group : a.shape? x.group = some (.attr (.group point.group))
  binding : a.shape? x.binding = some (.attr (.binding point.binding))
  var : a.shape? x.var =
    some (.decl (.value ⟨.var .uniform .undefined, x.symbol, x.type, 0, [x.group, x.binding]⟩))

theorem Buffer.Declared.mono {x : Buffer} {names : List String} {a a' : Arena}
    (hshapes : ∀ {k s}, a.shape? k = some s → a'.shape? k = some s)
    (hnames : ∃ more, a'.symbols.names = a.symbols.names ++ more) (h : x.Declared point names a) :
    x.Declared point names a' where
  struct := h.struct.imp fun _ hs => ⟨hs.1.extend hnames, hs.2⟩
  symbol := h.symbol.imp fun _ hs => ⟨hs.1.extend hnames, hs.2⟩
  field := h.field.extend hnames
  elem := hshapes h.elem
  vector := hshapes h.vector
  member := hshapes h.member
  decl := hshapes h.decl
  type := hshapes h.type
  group := hshapes h.group
  binding := hshapes h.binding
  var := hshapes h.var

variable {b b' : Builder}

/-- Declaring the buffer adds a structure and a variable. -/
theorem declareBuffer_ok {buffer : Symbol} (h : declareBuffer point b = .ok buffer b') :
    ∃ x : Buffer, x.symbol = buffer ∧
    x.Declared point b.symbols.names.toList b'.toArena ∧ b.Adds b' [x.decl, x.var] := by
  obtain ⟨struct, b₁, h₁, h⟩ := bind_ok.1 h
  obtain ⟨elem, b₂, h₂, h⟩ := bind_ok.1 h
  obtain ⟨vector, b₃, h₃, h⟩ := bind_ok.1 h
  obtain ⟨member, b₅, hmember, h⟩ := bind_ok.1 h
  obtain ⟨f, b₄, h₄, h₅⟩ := bind_ok.1 hmember
  obtain ⟨decl, b₆, h₆, h⟩ := bind_ok.1 h
  obtain ⟨symbol, b₇, h₇, h⟩ := bind_ok.1 h
  obtain ⟨type, b₈, h₈, h⟩ := bind_ok.1 h
  obtain ⟨group, b₉, h₉, h⟩ := bind_ok.1 h
  obtain ⟨binding, b₁₀, h₁₀, h⟩ := bind_ok.1 h
  obtain ⟨var, b₁₁, h₁₁, h⟩ := bind_ok.1 h
  cases h
  obtain ⟨⟨name, hstruct, hnew⟩, a₁⟩ := freshSymbol_ok h₁
  obtain ⟨helem, a₂⟩ := push_ok h₂
  obtain ⟨hvector, a₃⟩ := push_ok h₃
  obtain ⟨hfield, a₄⟩ := symbol_ok h₄
  obtain ⟨hmember, a₅⟩ := push_ok h₅
  obtain ⟨hdecl, a₆⟩ := global_ok h₆
  obtain ⟨⟨name', hsymbol, hnew'⟩, a₇⟩ := freshSymbol_ok h₇
  obtain ⟨htype, a₈⟩ := push_ok h₈
  obtain ⟨hgroup, a₉⟩ := push_ok h₉
  obtain ⟨hbinding, a₁₀⟩ := push_ok h₁₀
  obtain ⟨hvar, a₁₁⟩ := global_ok h₁₁
  have e₁₀ := a₁₁.toExtends
  have e₉ := a₁₀.toExtends.trans e₁₀
  have e₈ := a₉.toExtends.trans e₉
  have e₇ := a₈.toExtends.trans e₈
  have e₆ := a₇.toExtends.trans e₇
  have e₅ := a₆.toExtends.trans e₆
  have e₄ := a₅.toExtends.trans e₅
  have e₃ := a₄.toExtends.trans e₄
  have e₂ := a₃.toExtends.trans e₃
  have e₁ := a₂.toExtends.trans e₂
  have hbefore := ((((a₁.trans a₂).trans a₃).trans a₄).trans a₅).trans a₆
  obtain ⟨more, hmore⟩ := hbefore.names
  refine ⟨⟨struct, f, buffer, elem, vector, member, decl, type, group, binding, var⟩, rfl, ?_,
    (((hbefore.trans a₇).trans a₈).trans a₉).trans (a₁₀.trans a₁₁)⟩
  exact {
    struct := ⟨name, hstruct.extend e₁.names, hnew⟩
    symbol := ⟨name', hsymbol.extend e₇.names, fun hmem => hnew' (by simp [hmore, hmem])⟩
    field := hfield.extend e₄.names
    elem := e₂.shape? helem
    vector := e₃.shape? hvector
    member := e₅.shape? hmember
    decl := e₆.shape? hdecl
    type := e₈.shape? htype
    group := e₉.shape? hgroup
    binding := e₁₀.shape? hbinding
    var := hvar }

end Buffer

/-- The second program is the first one with the number of workgroups in a buffer. -/
structure Rereads (p : Program) (point : BindingPoint) (x : Buffer) (origin : NodeId → NodeId)
    (q : Program) : Prop
    extends Replaces [x.decl, x.var] (planned p).left ((planned p).changes p x.symbol)
    origin p q where
  declared : x.Declared point p.symbols.names.toList q.toArena
  drops : ∀ v ∈ computeParams p, takesNumber p v = true → (planned p).Drops p v

section Work

variable {inputs : Data}

theorem perform_ok (hv : p.valid = true) {s : Session Use Unit}
    (hwork : work p inputs (Session.start p ()) = .ok {} s) (hcopied : s.copied = true) :
    pass.apply p inputs = .ok ⟨s.target.build, {}⟩ := by
  have hrun : pass.run p inputs = { outputs := {}, ending := .finished s.target s.copied } := by
    simp only [pass, Work.perform, hwork]
  simp [Pass.apply, Result.outcome, hv, hrun, hcopied]

/-- Without parameters that take the number of workgroups, the program is copied. -/
theorem work_plain (hp : p.Fit) (hk : p.Known) (hpoint : inputs.get? .numWorkgroups = some point)
    (hnone : ∀ v ∈ computeParams p, takesNumber p v = false) :
    ∃ s origin, work p inputs (Session.start p ()) = .ok {} s ∧
      s.copied = true ∧ Replaces [] [] [] origin p s.target.build := by
  have hempty : (⟨⟨True, False, False⟩, True⟩ : Builder.Mode).Good
      (Session.start (κ := Use) p ()).target [] :=
    .empty rfl rfl hp.named rfl
  obtain ⟨s, origin, hs, hcopied, _, hreplaces⟩ := copyModule_replaces hp hk hempty.toFit
    (fun x hx => by simpa using hempty.once trivial x hx) ⟨#[], Array.append_empty.symm⟩ [] []
  have hstart : marked p (Session.start (κ := Use) p ()).target [] [] = Session.start p () := by
    rw [marked, Session.mark_nil]
  rw [hstart] at hs
  refine ⟨s, origin, ?_, hcopied, hreplaces⟩
  unfold work
  rw [planned_eq_nil hnone]
  simp [bind, EStateM.bind, hpoint, Work.need, Work.edit, hs, pure, EStateM.pure]

/-- Otherwise the buffer is declared, and the program is copied with what the plan registers. -/
theorem work_rereads (hp : p.Fit) (hk : p.Known) (he : p.Explained)
    (hpoint : inputs.get? .numWorkgroups = some point)
    (hsome : ∃ v ∈ computeParams p, takesNumber p v = true) :
    ∃ s x origin, work p inputs (Session.start p ()) = .ok {} s ∧ s.copied = true ∧
      Rereads p point x origin s.target.build := by
  have hempty : (⟨⟨True, False, False⟩, False⟩ : Builder.Mode).Good
      (Session.start (κ := Use) p ()).target [] :=
    .empty rfl rfl hp.named rfl
  obtain ⟨buffer, b, hdeclare, hgood, _⟩ := makes_declareBuffer (fun h => h) point _ [] hempty
  obtain ⟨x, rfl, hdeclared, hadds⟩ := declareBuffer_ok hdeclare
  have hcarry := carryOut_ok he (sensible_planned p) x.symbol
    (s := { Session.start p () with target := b }) rfl fun _ => rfl
  obtain ⟨s, origin, hs, hcopied, hgrown, hreplaces⟩ := copyModule_replaces hp hk hgood.toFit
    (fun i hi => by simpa using hgood.once trivial i hi) hadds.names (planned p).left
    ((planned p).changes p x.symbol)
  have hplan : ((planned p).params.isEmpty && (planned p).members.isEmpty) = false := by
    obtain ⟨v, hv, htakes⟩ := hsome
    rcases drops_planned hv htakes with ⟨param, hparam, _⟩ | ⟨_, _, _, _, _, m, _, _, hm⟩
    · rw [List.isEmpty_eq_false_iff_exists_mem.2 ⟨param, hparam⟩, Bool.false_and]
    · rw [List.isEmpty_eq_false_iff_exists_mem.2 ⟨m.decl, hm⟩, Bool.and_false]
  rw [show b.globals = [x.decl, x.var] from hadds.globals] at hreplaces
  refine ⟨s, x, origin, ?_, hcopied, hreplaces,
    hdeclared.mono (fun h => Builder.shape?_build_of (hgrown.shape? h)) hgrown.names,
    fun v hv htakes => drops_planned hv htakes⟩
  have hbuild : Work.build (declareBuffer point) (Session.start (κ := Use) p ()) =
      .ok x.symbol { Session.start p () with target := b } := by
    simp only [Work.build, Work.edit, Edit.build, hdeclare]
  have hedit : Work.edit (carryOut p x.symbol (planned p)) { Session.start p () with target := b } =
      .ok () (marked p b (planned p).left ((planned p).changes p x.symbol)) := by
    unfold Work.edit
    rw [hcarry]
    rfl
  have hcopy : Work.edit (Edit.copyModule (Edit.copy act))
      (marked p b (planned p).left ((planned p).changes p x.symbol)) =
      .ok () s := by
    simp only [Work.edit, hs]
  unfold work
  simp only [bind, EStateM.bind, hpoint, Work.need, pure, EStateM.pure, hplan, Bool.false_eq_true,
    if_false, hbuild, hedit, hcopy]

end Work

/-- Reading the number of workgroups from a buffer never fails on a valid program of a document. The
result reads the same if no parameter of a compute entry point takes the number, and otherwise all
of them go away, or the members of their structures with the number, and whatever uses them
according to resolution becomes a read of the new buffer. -/
theorem apply_rereads {m : Document.Module} (h : m.decode = .ok p) (hv : p.valid = true)
    {inputs : Data} (hpoint : inputs.get? .numWorkgroups = some point) :
    ∃ q, pass.apply p inputs = .ok ⟨q, {}⟩ ∧
      ((∀ v ∈ computeParams p, takesNumber p v = false) → p.Reads q) ∧
      ((∃ v ∈ computeParams p, takesNumber p v = true) →
      ∃ x origin, Rereads p point x origin q) := by
  obtain ⟨b, hgood, hknown, _, _, rfl⟩ := Document.decode_good h
  have hp := hgood.toFit.build
  by_cases hsome : ∃ v ∈ computeParams b.build, takesNumber b.build v = true
  · have he := Program.explained_build hv hgood.toFit (hp.treeShaped (hgood.counted_build trivial))
    obtain ⟨s, x, origin, hwork, hcopied, hrereads⟩ := work_rereads hp hknown.build he hpoint hsome
    exact ⟨_, perform_ok hv hwork hcopied, fun hnone => absurd hsome (by simpa using hnone),
      fun _ => ⟨x, origin, hrereads⟩⟩
  · obtain ⟨s, origin, hwork, hcopied, hreplaces⟩ :=
      work_plain hp hknown.build hpoint (by simpa using hsome)
    exact ⟨_, perform_ok hv hwork hcopied, fun _ => hreplaces.reads hp, fun h => absurd h hsome⟩

/-- The structure `Inputs` of the number of workgroups and an index, and `@compute
@workgroup_size(1) fn main(inputs : Inputs) { let copy = Inputs(inputs.count, inputs.index); }`. -/
def copying : Document.Module where
  globals := [
    some { kind := "Struct", name := "Inputs", members := [
      some (member "count" { kind := "Vector", elem := some { kind := "U32" }, width := 3 }
        "num_workgroups"),
      some (member "index" { kind := "U32" } "local_invocation_index")] },
    some { kind := "Function", name := "main"
           params := [
             some { kind := "Parameter", name := "inputs"
                    type := some { kind := "TypeName", name := "Inputs" } }]
           attributes := [some { kind := "StageAttribute", stage := "compute" },
             some { kind := "WorkgroupAttribute",
                    x := some { kind := "IntLiteral", int := some 1 } }]
           body := some { kind := "Block", statements := [
             some { kind := "VarDecl",
                    var := some { kind := "Let", name := "copy", initializer := some made } }] } }]
where
  member (name : String) (type : Document.Record) (b : String) : Document.Record :=
    { kind := "StructMember", name, type := some type,
      attributes := [some { kind := "BuiltinAttribute", builtin := b }] }
  selected (name : String) : Document.Record :=
    { kind := "Member", name, object := some { kind := "Ident", name := "inputs" } }
  made : Document.Record :=
    { kind := "Call", target := some { kind := "Ident", name := "Inputs" }
      args := [some (selected "count"), some (selected "index")] }

theorem apply_rereads_copying : ∃ p q x origin, copying.decode = .ok p ∧ p.valid = true ∧
    pass.apply p (Exchange.put {} .numWorkgroups ⟨0, 1⟩) = .ok ⟨q, {}⟩ ∧
    Rereads p ⟨0, 1⟩ x origin q := by
  have hok : (copying.decode.toOption.any fun p => p.valid &&
    (computeParams p).any (takesNumber p)) = true := by
    decide +kernel
  cases hp : copying.decode with
  | error e => simp [hp, Except.toOption] at hok
  | ok p =>
    simp only [hp, Except.toOption, Option.any_some, Bool.and_eq_true, List.any_eq_true] at hok
    have hpoint : (Exchange.put {} .numWorkgroups ⟨0, 1⟩ : Data).get? .numWorkgroups =
        some ⟨0, 1⟩ := rfl
    obtain ⟨q, happly, _, hrereads⟩ := apply_rereads hp hok.1 hpoint
    obtain ⟨x, origin, hrereads⟩ := hrereads hok.2
    exact ⟨p, q, x, origin, rfl, hok.1, happly, hrereads⟩

end Workgroups
end ShaderLoom
