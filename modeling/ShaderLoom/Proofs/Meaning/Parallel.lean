import ShaderLoom.Proofs.Meaning.SameShapes
import ShaderLoom.Proofs.Meaning.Static

/-! Modules of one shape. Where every statement stands for a statement like it and no expression is
moved, what is in scope in the one module is in scope in the other, under other names. -/
namespace ShaderLoom

/-- Parts of bodies that stand for each other. -/
inductive Part.Rel (R : NodeId → NodeId → Prop) : Part → Part → Prop
  | one {i j} : R i j → Rel R (.one i) (.one j)
  | all {is js} : List.Forall₂ R is js → Rel R (.all is) (.all js)
  | body {i j} : R i j → Rel R (.body i) (.body j)

namespace Kinship

variable {a b : Arena} {M M' : Frame} {F F' : NodeId → ExprFacts → Prop}

section Scopes

variable (K : Kinship a b M M' F)

/-- Variables in scope that stand for each other. -/
structure Locals (x y : Local) : Prop where
  name : K.name x.name y.name
  decl : K.node x.decl y.decl
  number : K.number x.number y.number
  type : Kin K.node x.type y.type

/-- Levels that declare the same. -/
abbrev Aligned (Δ Δ' : Levels) : Prop := List.Forall₂ (List.Forall₂ K.Locals) Δ Δ'

/-- Variables that were made in the same order. -/
structure Counts (V V' : List Made) : Prop where
  length : K.number V.length V'.length
  made : ∀ {n x}, V[n]? = some x → ∃ n' x', K.number n n' ∧ V'[n']? = some x' ∧ K.Variables x x'

variable {K} {Δ Δ' Δ₁ : Levels} {V V' V₁ : List Made} {E E' : Table} {s s' : Symbol}

theorem find_local {l l' : List Local} (h : List.Forall₂ K.Locals l l') (hs : K.name s s') :
    Option.Rel K.Locals (l.find? (·.name == s)) (l'.find? (·.name == s')) := by
  induction h with
  | nil => exact .none
  | @cons x y _ _ hxy _ ih =>
    have hsame : (x.name == s) = (y.name == s') := by
      rw [Bool.eq_iff_iff, beq_iff_eq, beq_iff_eq]
      exact Relator.rel_eq K.uniqueName hxy.name hs
    rw [List.find?_cons, List.find?_cons, hsame]
    split
    · exact .some hxy
    · exact ih

theorem find_aligned (h : K.Aligned Δ Δ') (hs : K.name s s') :
    Option.Rel K.Locals (Δ.find? s) (Δ'.find? s') := by
  induction h with
  | nil => exact .none
  | @cons l l' Δ Δ' hl _ ih =>
    unfold Levels.find? at ih ⊢
    rw [List.findSome?_cons, List.findSome?_cons]
    rcases rel_cases (find_local hl hs) with ⟨h₁, h₂⟩ | ⟨x, y, h₁, h₂, hxy⟩
    · rw [h₁, h₂]
      exact ih
    · rw [h₁, h₂]
      exact .some hxy

/-- A name in scope has a counterpart in scope, if the levels find related variables under it or
none. -/
theorem inScope_of_find (hE : K.Tables E E') (hfind : Option.Rel K.Locals (Δ.find? s) (Δ'.find? s'))
    (hs : K.name s s') {n : VariableId} {t : Option Ty} (hscope : inScope M E Δ s = some (n, t)) :
    ∃ n' t', inScope M' E' Δ' s' = some (n', t') ∧ K.number n n' ∧ Kin K.node t t' := by
  unfold inScope at hscope ⊢
  rcases rel_cases hfind with ⟨h₁, h₂⟩ | ⟨x, y, h₁, h₂, hxy⟩
  · simp only [h₁] at hscope
    simp only [h₂]
    obtain ⟨d, hd, hlatest⟩ := Option.bind_eq_some_iff.1 hscope
    obtain ⟨m, hm, hpair⟩ := Option.map_eq_some_iff.1 hlatest
    obtain ⟨rfl, rfl⟩ := Prod.mk.inj hpair
    obtain ⟨d', hd', hdd⟩ := find_follows hs hd
    obtain ⟨_, m', hm₁, hm', hnum, x, y, hx, hy, hxy⟩ :=
      (rel_cases (hE.latest hdd)).resolve_left fun h => by simp [hm] at h
    cases hm.symm.trans hm₁
    refine ⟨m', E'.typeAt m', by simp [hd', hm'], hnum, ?_⟩
    simpa [Table.typeAt, hx, hy] using hxy.type
  · simp only [h₁, Option.some.injEq, Prod.mk.injEq] at hscope
    obtain ⟨rfl, rfl⟩ := hscope
    exact ⟨y.number, y.type, by simp [h₂], hxy.number, hxy.type⟩

theorem inScope_follows (hE : K.Tables E E') (h : K.Aligned Δ Δ') (hs : K.name s s')
    {n : VariableId} {t : Option Ty} (hscope : inScope M E Δ s = some (n, t)) :
    ∃ n' t', inScope M' E' Δ' s' = some (n', t') ∧ K.number n n' ∧ Kin K.node t t' :=
  inScope_of_find hE (find_aligned h hs) hs hscope

theorem enter_aligned (h : K.Aligned Δ Δ') {x y : Local} (hxy : K.Locals x y)
    (hx : Δ.enter x = some Δ₁) : ∃ Δ₁', Δ'.enter y = some Δ₁' ∧ K.Aligned Δ₁ Δ₁' := by
  cases h with
  | nil =>
    cases hx
    exact ⟨[], rfl, .nil⟩
  | @cons l l' Δ Δ' hl hrest =>
    rw [Levels.enter] at hx
    split at hx
    · cases hx
    · next hnew =>
      cases hx
      refine ⟨(y :: l') :: Δ', ?_, .cons (.cons hxy hl) hrest⟩
      rw [Levels.enter, if_neg]
      rwa [← isSome_eq_of_rel (find_local hl hxy.name)]

theorem Counts.add (h : K.Counts V V') {x y : Made} (hxy : K.Variables x y) :
    K.Counts (V ++ [x]) (V' ++ [y]) := by
  refine ⟨by simpa using K.next h.length, fun {n z} hz => ?_⟩
  rw [List.getElem?_append] at hz
  split at hz
  · obtain ⟨n', z', hnum, hz', hzz⟩ := h.made hz
    refine ⟨n', z', hnum, ?_, hzz⟩
    rw [List.getElem?_append_left (List.getElem?_eq_some_iff.1 hz').1]
    exact hz'
  · next hn =>
    have hlt : n - V.length < [x].length := (List.getElem?_eq_some_iff.1 hz).1
    obtain rfl : n = V.length :=
      Nat.le_antisymm (Nat.le_of_sub_eq_zero (Nat.lt_one_iff.1 hlt)) (Nat.le_of_not_lt hn)
    obtain rfl : x = z := by simpa using hz
    exact ⟨V'.length, y, h.length, List.getElem?_concat_length, hxy⟩

end Scopes

/-- Statements stand for statements like them, and no expression is moved. -/
structure Parallel (K : Kinship a b M M' F) : Prop where
  read : ∀ {i j}, K.node i j → K.read i j
  unmoved : ∀ {i j}, ¬ K.moved i j
  stmt : ∀ {i j s}, K.node i j → a.shape? i = some (.stmt s) → ∃ t, b.shape? j = some (.stmt t) ∧
    Shape.Rel (fun _ _ : Symbol => True) K.node (List.Forall₂ K.node) (.stmt s) (.stmt t)
  noBlock : ∀ {i j}, K.node i j → a.block? i = none → b.block? j = none
  body : ∀ {d d' f f'}, K.node d d' → a.function? d = some f → b.function? d' = some f' →
    K.node f.body f'.body

namespace Parallel

variable {K : Kinship a b M M' F} {Δ Δ' Δ₁ : Levels} {V V' V₁ : List Made} {E E' : Table}
    (P : K.Parallel)
  (hF : K.Allows F') (hE : K.Tables E E')
include P hF hE

theorem reads (hΔ : K.Aligned Δ Δ') {i j : NodeId} (hij : K.node i j) {t : Option Ty}
    (h : Reads a M E F Δ (.one i t)) : ∃ u, Reads b M' E' F' Δ' (.one j u) ∧ Kin K.node t u :=
  reads_follow hF hE (fun _ => True) (fun _ => True) (fun h => h) (fun _ _ _ _ => trivial)
    (fun _ _ _ _ hs hscope _ => inScope_follows hE hΔ hs hscope) (fun _ h => absurd h P.unmoved) h j
    (.inl ⟨P.read hij, trivial⟩)

theorem readsAll (hΔ : K.Aligned Δ Δ') {is js : List NodeId} (hij : List.Forall₂ K.node is js)
    {ts : List (Option Ty)} (h : Reads a M E F Δ (.all is ts)) :
    ∃ us, Reads b M' E' F' Δ' (.all js us) := by
  induction hij generalizing ts with
  | nil => exact ⟨[], .nil⟩
  | cons hij _ ih =>
    cases h with
    | cons h hs =>
      obtain ⟨u, hu, _⟩ := P.reads hF hE hΔ hij h
      obtain ⟨us, hus⟩ := ih hs
      exact ⟨u :: us, .cons hu hus⟩

theorem declares (hΔ : K.Aligned Δ Δ') (hV : K.Counts V V') {d d' : NodeId} (hdd : K.node d d')
    {v v' : VariableShape Symbol NodeId} (hv : a.asVariable? d = some v)
    (hv' : b.asVariable? d' = some v') (h : Declares a M E F d v Δ V Δ₁ V₁) :
    ∃ Δ₁' V₁', Declares b M' E' F' d' v' Δ' V' Δ₁' V₁' ∧ K.Aligned Δ₁ Δ₁' ∧ K.Counts V₁ V₁' := by
  obtain ⟨hinit, hval, henter⟩ := h
  obtain ⟨w, hw, hname, htype, hplace, _⟩ := K.value hdd hv
  cases hv'.symm.trans hw
  have hread : K.read v.initializer v'.initializer := hplace.resolve_right P.unmoved
  obtain ⟨u₀, hinit', h₀⟩ := reads_follow hF hE (fun _ => True) (fun _ => True) (fun h => h)
    (fun _ _ _ _ => trivial) (fun _ _ _ _ hs hscope _ => inScope_follows hE hΔ hs hscope)
    (fun _ h => absurd h P.unmoved) hinit v'.initializer (.inl ⟨hread, trivial⟩)
  obtain ⟨u, hval', htu⟩ :=
    valueOf_follows hE htype (fun h h' => h ((K.readAbsent hread).2 h')) hval h₀
  obtain ⟨Δ₁', henter', hΔ₁⟩ :=
    enter_aligned hΔ (y := ⟨v'.name, d', V'.length, u⟩) ⟨hname, hdd, hV.length, htu⟩ henter
  exact ⟨Δ₁', _, .intro hinit' hval' henter', hΔ₁, hV.add ⟨hdd, htu⟩⟩

omit hF hE in
/-- The expressions of simple statements stand for each other. -/
theorem reads? {i j : NodeId} {s : StmtShape NodeId} {es : List NodeId} (hij : K.node i j)
    (hs : a.shape? i = some (.stmt s)) (hes : s.reads? = some es) :
    ∃ t es', b.shape? j = some (.stmt t) ∧ t.reads? = some es' ∧ List.Forall₂ K.node es es' := by
  obtain ⟨t, ht, hrel⟩ := P.stmt hij hs
  cases hrel with
  | assign hl hr =>
    cases hes
    exact ⟨_, _, ht, rfl, .cons hl (.cons hr .nil)⟩
  | increment he | callStatement he | ret he =>
    cases hes
    exact ⟨_, _, ht, rfl, .cons he .nil⟩
  | breakLoop | continueLoop | discard =>
    cases hes
    exact ⟨_, _, ht, rfl, .nil⟩
  | _ => cases hes

theorem ranges {part part' : Part} (hpart : part.Rel K.node part') (hΔ : K.Aligned Δ Δ')
    (hV : K.Counts V V') (h : Ranges a M E F Δ V part Δ₁ V₁) :
    ∃ Δ₁' V₁', Ranges b M' E' F' Δ' V' part' Δ₁' V₁' ∧ K.Aligned Δ₁ Δ₁' ∧ K.Counts V₁ V₁' := by
  induction h generalizing part' Δ' V' with
  | absent =>
    cases hpart with
    | one hij =>
      cases (K.absent hij).1 rfl
      exact ⟨Δ', V', .absent, hΔ, hV⟩
  | simple hs hes hread =>
    cases hpart with
    | one hij =>
      obtain ⟨t, es', ht, hes', hall⟩ := P.reads? hij hs hes
      obtain ⟨us, hus⟩ := P.readsAll hF hE hΔ hall hread
      exact ⟨Δ', V', .simple ht hes' hus, hΔ, hV⟩
  | varDecl hs hv hd =>
    cases hpart with
    | one hij =>
      obtain ⟨t, ht, hrel⟩ := P.stmt hij hs
      cases hrel with
      | varDecl hdd =>
        obtain ⟨v', hv', _⟩ := K.value hdd hv
        obtain ⟨Δ₁', V₁', hd', h'⟩ := P.declares hF hE hΔ hV hdd hv hv' hd
        exact ⟨Δ₁', V₁', .varDecl ht hv' hd', h'⟩
  | stray hs hv =>
    cases hpart with
    | one hij =>
      obtain ⟨t, ht, hrel⟩ := P.stmt hij hs
      cases hrel with
      | varDecl hdd => exact ⟨Δ', V', .stray ht (K.noValue hdd hv), hΔ, hV⟩
  | block hs _ ih =>
    cases hpart with
    | one hij =>
      obtain ⟨t, ht, hrel⟩ := P.stmt hij hs
      cases hrel with
      | block hss =>
        obtain ⟨Δ₁', V₁', hss', hΔ₁, hV₁⟩ := ih (.all hss) (.cons .nil hΔ) hV
        exact ⟨_, V₁', .block ht hss', List.forall₂_drop 1 hΔ₁, hV₁⟩
  | ifElse hs hcond _ _ ih₁ ih₂ =>
    cases hpart with
    | one hij =>
      obtain ⟨t, ht, hrel⟩ := P.stmt hij hs
      cases hrel with
      | ifElse hc hb he =>
        obtain ⟨u, hu, _⟩ := P.reads hF hE hΔ hc hcond
        obtain ⟨Δ₁', V₁', hb', hΔ₁, hV₁⟩ := ih₁ (.one hb) hΔ hV
        obtain ⟨Δ₂', V₂', he', hΔ₂, hV₂⟩ := ih₂ (.one he) hΔ₁ hV₁
        exact ⟨Δ₂', V₂', .ifElse ht hu hb' he', hΔ₂, hV₂⟩
  | forLoop hs _ hcond _ _ ih₁ ih₂ ih₃ =>
    cases hpart with
    | one hij =>
      obtain ⟨t, ht, hrel⟩ := P.stmt hij hs
      cases hrel with
      | forLoop hi hc hk hb =>
        obtain ⟨Δ₁', V₁', hi', hΔ₁, hV₁⟩ := ih₁ (.one hi) (.cons .nil hΔ) hV
        obtain ⟨u, hu, _⟩ := P.reads hF hE hΔ₁ hc hcond
        obtain ⟨Δ₂', V₂', hb', hΔ₂, hV₂⟩ := ih₂ (.one hb) hΔ₁ hV₁
        obtain ⟨Δ₃', V₃', hk', hΔ₃, hV₃⟩ := ih₃ (.one hk) hΔ₂ hV₂
        exact ⟨_, V₃', .forLoop ht hi' hu hb' hk', List.forall₂_drop 1 hΔ₃, hV₃⟩
  | whileLoop hs hcond _ ih =>
    cases hpart with
    | one hij =>
      obtain ⟨t, ht, hrel⟩ := P.stmt hij hs
      cases hrel with
      | whileLoop hc hb =>
        obtain ⟨u, hu, _⟩ := P.reads hF hE hΔ hc hcond
        obtain ⟨Δ₁', V₁', hb', hΔ₁, hV₁⟩ := ih (.one hb) hΔ hV
        exact ⟨Δ₁', V₁', .whileLoop ht hu hb', hΔ₁, hV₁⟩
  | loop hs _ _ ih₁ ih₂ =>
    cases hpart with
    | one hij =>
      obtain ⟨t, ht, hrel⟩ := P.stmt hij hs
      cases hrel with
      | loop hb hk =>
        obtain ⟨Δ₁', V₁', hb', hΔ₁, hV₁⟩ := ih₁ (.body hb) (.cons .nil hΔ) hV
        obtain ⟨Δ₂', V₂', hk', hΔ₂, hV₂⟩ := ih₂ (.one hk) hΔ₁ hV₁
        exact ⟨_, V₂', .loop ht hb' hk', List.forall₂_drop 1 hΔ₂, hV₂⟩
  | opened hb _ ih =>
    cases hpart with
    | body hij =>
      obtain ⟨t, ht, hrel⟩ := P.stmt hij (Arena.shape?_of_block? hb)
      cases hrel with
      | block hss =>
        obtain ⟨Δ₁', V₁', hss', h'⟩ := ih (.all hss) hΔ hV
        exact ⟨Δ₁', V₁', .opened (by simp [Arena.block?, ht, Shape.block?]) hss', h'⟩
  | lacking hb =>
    cases hpart with
    | body hij => exact ⟨Δ', V', .lacking (P.noBlock hij hb), hΔ, hV⟩
  | nil =>
    cases hpart with
    | all hss =>
      cases hss
      exact ⟨Δ', V', .nil, hΔ, hV⟩
  | cons _ _ ih₁ ih₂ =>
    cases hpart with
    | all hss =>
      cases hss with
      | cons hs hss =>
        obtain ⟨Δ₁', V₁', hs', hΔ₁, hV₁⟩ := ih₁ (.one hs) hΔ hV
        obtain ⟨Δ₂', V₂', hss', hΔ₂, hV₂⟩ := ih₂ (.all hss) hΔ₁ hV₁
        exact ⟨Δ₂', V₂', .cons hs' hss', hΔ₂, hV₂⟩

theorem takes {ds ds' : List NodeId} (hds : List.Forall₂ K.node ds ds') (hΔ : K.Aligned Δ Δ')
    (hV : K.Counts V V') (h : Takes a M E F ds Δ V Δ₁ V₁) :
    ∃ Δ₁' V₁', Takes b M' E' F' ds' Δ' V' Δ₁' V₁' ∧ K.Aligned Δ₁ Δ₁' ∧ K.Counts V₁ V₁' := by
  induction h generalizing ds' Δ' V' with
  | nil =>
    cases hds
    exact ⟨Δ', V', .nil, hΔ, hV⟩
  | cons hv hkind hd _ ih =>
    cases hds with
    | cons hdd hds =>
      obtain ⟨v', hv', _, _, _, hkind'⟩ := K.value hdd hv
      obtain ⟨Δ₁', V₁', hd', hΔ₁, hV₁⟩ := P.declares hF hE hΔ hV hdd hv hv' hd
      obtain ⟨Δ₂', V₂', hds', hΔ₂, hV₂⟩ := ih hds hΔ₁ hV₁
      exact ⟨Δ₂', V₂', .cons hv' (hkind' hkind) hd' hds', hΔ₂, hV₂⟩

theorem holds {d d' : NodeId} (hdd : K.node d d') (hV : K.Counts V V') (h : Holds a M E F d V V₁) :
    ∃ V₁', Holds b M' E' F' d' V' V₁' ∧ K.Counts V₁ V₁' := by
  cases h with
  | function hf hparams hbody =>
    obtain ⟨f', hf', _, hps⟩ := K.function hdd hf
    obtain ⟨Δ₁', V₁', hparams', hΔ₁, hV₁⟩ := P.takes hF hE hps (.cons .nil .nil) hV hparams
    obtain ⟨_, V₂', hbody', _, hV₂⟩ := P.ranges hF hE (.one (P.body hdd hf hf')) hΔ₁ hV₁ hbody
    exact ⟨V₂', .function hf' hparams' hbody', hV₂⟩
  | other hf => exact ⟨V', .other (K.noFunction hdd hf), hV⟩

theorem bodies {gs gs' : List NodeId} (hgs : List.Forall₂ K.node gs gs') (hV : K.Counts V V')
    (h : Along (Holds a M E F) gs V V₁) :
    ∃ V₁', Along (Holds b M' E' F') gs' V' V₁' ∧ K.Counts V₁ V₁' := by
  induction h generalizing gs' V' with
  | nil =>
    cases hgs
    exact ⟨V', .nil, hV⟩
  | cons hd _ ih =>
    cases hgs with
    | cons hdd hgs =>
      obtain ⟨V₁', hd', hV₁⟩ := P.holds hF hE hdd hV hd
      obtain ⟨V₂', hds', hV₂⟩ := ih hgs hV₁
      exact ⟨V₂', .cons hd' hds', hV₂⟩

omit hE in
/-- A module that stands for a well typed one is well typed, and its variables are made in the same
order. -/
theorem static {gs gs' : List NodeId} (htop : ∀ d ∈ gs, K.top d) (hgs : List.Forall₂ K.node gs gs')
    (hnames : gs'.foldl (Resolve.collect b) ([], []) = (M', [])) (h : Static a F gs M E V) :
    ∃ E' V', Static b F' gs' M' E' V' ∧ K.Tables E E' ∧ K.Counts V V' := by
  obtain ⟨_, ⟨T, h₁, h₂⟩, V₀, hV₀, h₃⟩ := h
  have hstays : K.Stays fun _ => True :=
    ⟨fun _ h => (h.resolve_right P.unmoved), fun _ _ _ _ => trivial, fun _ _ => trivial⟩
  obtain ⟨T', E', h₁', h₂', hE⟩ := heads_follow hF hstays htop hgs (fun _ _ _ _ => trivial) h₁ h₂
  obtain ⟨V₀', hV₀'⟩ : ∃ V₀', E'.Numbered V₀' :=
    (Along.grows Introducing.grows h₁').trans (Along.grows Heading.grows h₂') |>.numbered []
      ⟨fun _ => rfl, rfl, fun _ _ h => by cases h⟩
  have hcounts : K.Counts V₀ V₀' := by
    refine ⟨?_, fun {n x} hx => ?_⟩
    · rw [← hV₀.size, ← hV₀'.size]
      exact hE.size
    · rw [← hV₀.vars] at hx
      obtain ⟨n', x', hnum, hx', hxx⟩ := hE.vars hx
      exact ⟨n', x', hnum, by rw [← hV₀'.vars, hx'], hxx⟩
  obtain ⟨V', h₃', hV'⟩ := P.bodies hF hE hgs hcounts h₃
  exact ⟨E', V', ⟨hnames, ⟨T', h₁', h₂'⟩, V₀', hV₀', h₃'⟩, hE, hV'⟩

end Parallel
end Kinship
end ShaderLoom
