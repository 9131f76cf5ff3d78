import Mathlib.Data.List.Basic
import ShaderLoom.Proofs.Meaning.Typed
import ShaderLoom.Proofs.TreeShape

/-! Bodies of functions in a module whose declarations are known. Nothing is found out about the
module any more, so that what holds of an expression or statement depends on what is in scope alone:
the rules here have no tables that change, and for programs that are trees they say the same as
those with tables. -/
namespace ShaderLoom

/-- A variable in scope inside a function. -/
structure Local where
  name : Symbol
  decl : NodeId
  number : VariableId
  type : Option Ty

/-- What is in scope inside a function, the innermost level first. -/
abbrev Levels := List (List Local)

namespace Levels

/-- The names and declarations of the levels. -/
def frames (Δ : Levels) : List Frame := Δ.map (·.map fun x => (x.name, x.decl))

def find? (Δ : Levels) (s : Symbol) : Option Local := Δ.findSome? (·.find? (·.name == s))

/-- The levels after a declaration at the innermost one, which may not have the name already. -/
def enter : Levels → Local → Option Levels
  | [], _ => some []
  | top :: rest, x =>
    if (top.find? (·.name == x.name)).isSome then none else some ((x :: top) :: rest)

theorem find?_level (l : List Local) (s : Symbol) :
    Frame.find? (l.map fun x => (x.name, x.decl)) s = (l.find? (·.name == s)).map (·.decl) := by
  induction l with
  | nil => rfl
  | cons x l ih =>
    unfold Frame.find? at ih ⊢
    rw [List.map_cons, List.find?_cons, List.find?_cons]
    cases x.name == s with
    | true => rfl
    | false => exact ih

theorem findSome?_frames (Δ : Levels) (s : Symbol) :
    Δ.frames.findSome? (Frame.find? · s) = (Δ.find? s).map (·.decl) := by
  induction Δ with
  | nil => rfl
  | cons l Δ ih =>
    have ih : List.findSome? (Frame.find? · s) (Δ.map (·.map fun x => (x.name, x.decl))) =
        (Δ.findSome? (·.find? (·.name == s))).map (·.decl) := ih
    rw [frames, find?, List.map_cons, List.findSome?_cons, List.findSome?_cons, find?_level, ih]
    cases l.find? (·.name == s) <;> rfl

theorem declareIn_frames (Δ : Levels) (x : Local) :
    declareIn Δ.frames x.name x.decl = (Δ.enter x).map frames := by
  cases Δ with
  | nil => rfl
  | cons top rest =>
    rw [frames, List.map_cons, declareIn, enter, find?_level, Option.isSome_map]
    split <;> rfl

@[simp] theorem frames_cons_nil (Δ : Levels) : frames ([] :: Δ) = [] :: Δ.frames := rfl

@[simp] theorem frames_drop (Δ : Levels) (n : Nat) : frames (Δ.drop n) = Δ.frames.drop n :=
  List.map_drop

theorem mem_of_find? {Δ : Levels} {s : Symbol} {x : Local} (h : Δ.find? s = some x) :
    (∃ l ∈ Δ, x ∈ l) ∧ x.name = s := by
  obtain ⟨l, hl, hx⟩ := List.exists_of_findSome?_eq_some h
  exact ⟨⟨l, hl, List.mem_of_find?_eq_some hx⟩, by simpa using List.find?_some hx⟩

/-- What is in scope after a declaration was so before, or is what was declared. -/
theorem mem_enter {Δ Δ' : Levels} {x : Local} (h : Δ.enter x = some Δ') {l : List Local}
    (hl : l ∈ Δ') {y : Local} (hy : y ∈ l) : y = x ∨ ∃ l ∈ Δ, y ∈ l := by
  cases Δ with
  | nil =>
    cases h
    cases hl
  | cons top rest =>
    rw [enter] at h
    split at h
    · cases h
    · cases h
      rcases List.mem_cons.1 hl with rfl | hl
      · rcases List.mem_cons.1 hy with rfl | hy
        · exact .inl rfl
        · exact .inr ⟨top, List.mem_cons_self, hy⟩
      · exact .inr ⟨l, List.mem_cons_of_mem _ hl, hy⟩

end Levels

section

variable (a : Arena) (M : Frame) (E : Table)

/-- The type that a node stands for, given those of structures and aliases. -/
inductive TypeOf : NodeId → Option Ty → Prop
  | absent : TypeOf 0 none
  | plain {i x t} : a.shape? i = some (.type x) → x.plain? = some t → TypeOf i (some t)
  | around {i x e f t} : a.shape? i = some (.type x) → x.around? = some (e, f) → TypeOf e t →
    TypeOf i (t.map f)
  | named {i s d t} : a.shape? i = some (.type (.named s)) → M.find? s = some d →
    (a.shape? d).any Shape.isTypeDecl = true → E.types d = some t → TypeOf i (some t)

/-- What the target of a call is. -/
inductive Calls : NodeId → Callee → Prop
  | typed {g x t} : a.shape? g = some (.type x) → TypeOf a M E g t → Calls g (.constructor t)
  | declared {g s d t} : a.shape? g = some (.expr (.ident s)) → M.find? s = some d →
    (a.shape? d).any Shape.isTypeDecl = true → E.types d = some t → Calls g (.constructor (some t))
  | function {g s d f t} : a.shape? g = some (.expr (.ident s)) → M.find? s = some d →
    a.function? d = some f →
    E.results d = some t → Calls g (.function d t)
  | builtin {g s rule} : a.shape? g = some (.expr (.ident s)) →
    (∀ d, M.find? s = some d → (a.shape? d).any Shape.isTypeDecl = false ∧ a.function? d = none) →
    builtinRule? (a.nameOf s) = some rule → Calls g (.builtin (a.nameOf s) rule)

/-- The number and the type of the variable that a name stands for. -/
def inScope (Δ : Levels) (s : Symbol) : Option (VariableId × Option Ty) :=
  match Δ.find? s with
  | some x => some (x.number, x.type)
  | none => (M.find? s).bind fun d => (E.latest d).map fun n => (n, E.typeAt n)

inductive ValueOf (v : VariableShape Symbol NodeId) (t₀ : Option Ty) : Option Ty → Prop
  | named {t} : v.type ≠ 0 → TypeOf a M E v.type t → ValueOf v t₀ t
  | inferred : v.type = 0 → v.initializer ≠ 0 → ValueOf v t₀ t₀

variable (F : NodeId → ExprFacts → Prop)

/-- Expressions. -/
inductive Reads (Δ : Levels) : ExprFinding → Prop
  | absent : Reads Δ (.one 0 none)
  | ident {i s n t} : a.shape? i = some (.expr (.ident s)) → inScope M E Δ s = some (n, t) →
    F i { variableId := some n, type := t } → Reads Δ (.one i t)
  | plain {i x ts o} : a.shape? i = some (.expr x) → Reads Δ (.all x.operands ts) →
    E.compose a x ts = some o →
    F i (o.getD {}) → Reads Δ (.one i (o.bind (·.type)))
  | call {i g args ts k} : a.shape? i = some (.expr (.call g args)) → Reads Δ (.all args ts) →
    Calls a M E g k →
    F i (k.sense ts) → Reads Δ (.one i (k.sense ts).type)
  | nil : Reads Δ (.all [] [])
  | cons {e t es ts} : Reads Δ (.one e t) → Reads Δ (.all es ts) →
    Reads Δ (.all (e :: es) (t :: ts))

/-- Declarations of local variables and parameters, which are numbered in the order in which they
are made. -/
inductive Declares (d : NodeId) (v : VariableShape Symbol NodeId) :
    Levels → List Made → Levels → List Made → Prop
  | intro {Δ Δ' V t₀ t} : Reads a M E F Δ (.one v.initializer t₀) → ValueOf a M E v t₀ t →
    Δ.enter ⟨v.name, d, V.length, t⟩ = some Δ' → Declares d v Δ V Δ' (V ++ [⟨d, t⟩])

/-- Statements, what is in scope before and after them, and the variables made by then. -/
inductive Ranges : Levels → List Made → Part → Levels → List Made → Prop
  | absent {Δ V} : Ranges Δ V (.one 0) Δ V
  | simple {Δ V i s es ts} : a.shape? i = some (.stmt s) → s.reads? = some es →
    Reads a M E F Δ (.all es ts) →
    Ranges Δ V (.one i) Δ V
  | varDecl {Δ Δ' V V' i d v} : a.shape? i = some (.stmt (.varDecl d)) → a.asVariable? d = some v →
    Declares a M E F d v Δ V Δ' V' → Ranges Δ V (.one i) Δ' V'
  | stray {Δ V i d} : a.shape? i = some (.stmt (.varDecl d)) → a.asVariable? d = none →
    Ranges Δ V (.one i) Δ V
  | block {Δ Δ' V V' i ss} : a.shape? i = some (.stmt (.block ss)) →
    Ranges ([] :: Δ) V (.all ss) Δ' V' →
    Ranges Δ V (.one i) (Δ'.drop 1) V'
  | ifElse {Δ Δ₁ Δ₂ V V₁ V₂ i c b e t} : a.shape? i = some (.stmt (.ifElse c b e)) →
    Reads a M E F Δ (.one c t) →
    Ranges Δ V (.one b) Δ₁ V₁ → Ranges Δ₁ V₁ (.one e) Δ₂ V₂ → Ranges Δ V (.one i) Δ₂ V₂
  | forLoop {Δ Δ₁ Δ₂ Δ₃ V V₁ V₂ V₃ i init c cont b t} :
    a.shape? i = some (.stmt (.forLoop init c cont b)) →
    Ranges ([] :: Δ) V (.one init) Δ₁ V₁ → Reads a M E F Δ₁ (.one c t) →
    Ranges Δ₁ V₁ (.one b) Δ₂ V₂ →
    Ranges Δ₂ V₂ (.one cont) Δ₃ V₃ → Ranges Δ V (.one i) (Δ₃.drop 1) V₃
  | whileLoop {Δ Δ₁ V V₁ i c b t} : a.shape? i = some (.stmt (.whileLoop c b)) →
    Reads a M E F Δ (.one c t) →
    Ranges Δ V (.one b) Δ₁ V₁ → Ranges Δ V (.one i) Δ₁ V₁
  | loop {Δ Δ₁ Δ₂ V V₁ V₂ i b cont} : a.shape? i = some (.stmt (.loop b cont)) →
    Ranges ([] :: Δ) V (.body b) Δ₁ V₁ →
    Ranges Δ₁ V₁ (.one cont) Δ₂ V₂ → Ranges Δ V (.one i) (Δ₂.drop 1) V₂
  | opened {Δ Δ' V V' b ss} : a.block? b = some ss → Ranges Δ V (.all ss) Δ' V' →
    Ranges Δ V (.body b) Δ' V'
  | lacking {Δ V b} : a.block? b = none → Ranges Δ V (.body b) Δ V
  | nil {Δ V} : Ranges Δ V (.all []) Δ V
  | cons {Δ Δ₁ Δ₂ V V₁ V₂ s ss} : Ranges Δ V (.one s) Δ₁ V₁ → Ranges Δ₁ V₁ (.all ss) Δ₂ V₂ →
    Ranges Δ V (.all (s :: ss)) Δ₂ V₂

/-- Parameters, one after another. -/
inductive Takes : List NodeId → Levels → List Made → Levels → List Made → Prop
  | nil {Δ V} : Takes [] Δ V Δ V
  | cons {Δ Δ₁ Δ₂ V V₁ V₂ d v ds} : a.asVariable? d = some v → v.kind = .parameter →
    Declares a M E F d v Δ V Δ₁ V₁ →
    Takes ds Δ₁ V₁ Δ₂ V₂ → Takes (d :: ds) Δ V Δ₂ V₂

/-- The inside of a function. -/
inductive Holds (d : NodeId) : List Made → List Made → Prop
  | function {Δ Δ' V V₁ V₂ f} : a.function? d = some f → Takes a M E F f.params [[]] V Δ V₁ →
    Ranges a M E F Δ V₁ (.one f.body) Δ' V₂ → Holds d V V₂
  | other {V} : a.function? d = none → Holds d V V

end

/-- Every type and variable of the module is known. -/
structure Table.Settled (E : Table) (a : Arena) (M : Frame) : Prop where
  types : ∀ s d, M.find? s = some d → (a.shape? d).any Shape.isTypeDecl = true → (E.types d).isSome
  values : ∀ s d, M.find? s = some d → (a.asVariable? d).isSome → (E.latest d).isSome
  numbered : ∀ d n, E.latest d = some n → (E.vars n).isSome

/-- A table that says of the module what `E` says, and of what is in scope what the levels say. -/
structure Table.Reflects (T : Table) (a : Arena) (M : Frame) (E : Table) (Δ : Levels)
    (V : List Made) : Prop where
  types : ∀ d, (a.shape? d).any Shape.isTypeDecl = true → T.types d = E.types d
  structs : T.structs = E.structs
  results : T.results = E.results
  globals : ∀ s d, M.find? s = some d → T.latest d = E.latest d
  kept : ∀ n x, E.vars n = some x → V[n]? = some x
  vars : ∀ n, T.vars n = V[n]?
  size : T.size = V.length
  locals : ∀ l ∈ Δ, ∀ x ∈ l, T.latest x.decl = some x.number ∧ V[x.number]? = some ⟨x.decl, x.type⟩

section

variable {a : Arena} {M : Frame} {E T T' : Table} {F : NodeId → ExprFacts → Prop} {Δ Δ' : Levels}
    {V V' : List Made}

namespace Table.Reflects

variable (h : T.Reflects a M E Δ V)
include h

theorem keepType {i : NodeId} {x : TypeShape Symbol NodeId} (hi : a.shape? i = some (.type x))
    (t : Option Ty) : (T.keepType i t).Reflects a M E Δ V := by
  cases t with
  | none => exact h
  | some t =>
    refine { h with types := fun d hd => ?_ }
    have hne : d ≠ i := by
      rintro rfl
      rw [hi] at hd
      cases hd
    exact (Function.update_of_ne hne _ _).trans (h.types d hd)

theorem setName (i d : NodeId) : (T.setName i d).Reflects a M E Δ V := { h with }

theorem note (i : NodeId) (e : ExprFacts) : (T.note i e).Reflects a M E Δ V := { h with }

theorem keepSense (i : NodeId) (o : Option ExprFacts) : (T.keepSense i o).Reflects a M E Δ V := by
  cases o with
  | none => exact h
  | some e => exact h.note i e

theorem opened : T.Reflects a M E ([] :: Δ) V := by
  refine { h with locals := fun l hl x hx => ?_ }
  rcases List.mem_cons.1 hl with rfl | hl
  · cases hx
  · exact h.locals l hl x hx

theorem closed (n : Nat) : T.Reflects a M E (Δ.drop n) V :=
  { h with locals := fun l hl x hx => h.locals l (List.mem_of_mem_drop hl) x hx }

/-- One more variable, which the module does not have and which is not in scope yet. -/
theorem addValue {d : NodeId} {t : Option Ty} {s : Symbol} (hM : ∀ s, M.find? s ≠ some d)
    (hΔ : ∀ l ∈ Δ, ∀ x ∈ l, x.decl ≠ d) (henter : Δ.enter ⟨s, d, V.length, t⟩ = some Δ') :
    (T.addValue d t).Reflects a M E Δ' (V ++ [⟨d, t⟩]) where
  types := h.types
  structs := h.structs
  results := h.results
  globals s d' hd' := by
    have hne : d' ≠ d := by
      rintro rfl
      exact hM s hd'
    exact (Function.update_of_ne hne _ _).trans (h.globals s d' hd')
  kept n x hx := by
    have hV := h.kept n x hx
    rw [List.getElem?_append_left (List.getElem?_eq_some_iff.1 hV).1]
    exact hV
  vars n := by
    change Function.update T.vars T.size _ n = _
    rw [h.size]
    by_cases hn : n = V.length
    · rw [hn, Function.update_self, List.getElem?_concat_length]
    · rw [Function.update_of_ne hn, h.vars]
      rcases Nat.lt_or_gt_of_ne hn with hlt | hgt
      · rw [List.getElem?_append_left hlt]
      · rw [List.getElem?_eq_none (Nat.le_of_lt hgt),
          List.getElem?_eq_none (by rw [List.length_append]; exact hgt)]
  size := by simp [Table.addValue, h.size]
  locals l hl x hx := by
    rcases Levels.mem_enter henter hl hx with rfl | ⟨l', hl', hx'⟩
    · exact ⟨by simp [h.size], List.getElem?_concat_length⟩
    · obtain ⟨hlatest, hV⟩ := h.locals l' hl' x hx'
      refine ⟨(Function.update_of_ne (hΔ l' hl' x hx') _ _).trans hlatest, ?_⟩
      rw [List.getElem?_append_left (List.getElem?_eq_some_iff.1 hV).1]
      exact hV

/-- What is visible under a name is in scope under it. -/
theorem inScope_iff (hE : E.Settled a M) {s : Symbol} {n : VariableId} {t : Option Ty} :
    inScope M E Δ s = some (n, t) ↔
      ∃ d, visible M Δ.frames s = some d ∧ T.latest d = some n ∧
        T.vars n = some ⟨(T.vars n).elim 0 (·.decl), t⟩ := by
  unfold inScope visible
  rw [Levels.findSome?_frames]
  cases hx : Δ.find? s with
  | some x =>
    obtain ⟨⟨l, hl, hmem⟩, _⟩ := Levels.mem_of_find? hx
    obtain ⟨hlatest, hV⟩ := h.locals l hl x hmem
    simp only [Option.map_some, Option.some_or, Option.some.injEq, Prod.mk.injEq, h.vars]
    constructor
    · rintro ⟨rfl, rfl⟩
      exact ⟨x.decl, rfl, hlatest, by rw [hV]; rfl⟩
    · rintro ⟨d, rfl, hn, ht⟩
      cases hlatest.symm.trans hn
      rw [hV] at ht
      exact ⟨rfl, congrArg Made.type (Option.some.inj ht)⟩
  | none =>
    simp only [Option.map_none, Option.none_or, h.vars]
    constructor
    · intro hs
      obtain ⟨d, hd, hd'⟩ := Option.bind_eq_some_iff.1 hs
      obtain ⟨m, hm, hpair⟩ := Option.map_eq_some_iff.1 hd'
      obtain ⟨rfl, rfl⟩ := Prod.mk.inj hpair
      obtain ⟨y, hy⟩ := Option.isSome_iff_exists.1 (hE.numbered d m hm)
      refine ⟨d, hd, (h.globals s d hd).trans hm, ?_⟩
      rw [h.kept m y hy]
      simp [Table.typeAt, hy]
    · rintro ⟨d, hd, hn, ht⟩
      rw [h.globals s d hd] at hn
      obtain ⟨y, hy⟩ := Option.isSome_iff_exists.1 (hE.numbered d n hn)
      rw [h.kept n y hy] at ht
      simp [hd, hn, Table.typeAt, hy, congrArg Made.type (Option.some.inj ht)]

end Table.Reflects

/-- A structure or alias that is known is not resolved again. -/
theorem Typing.eq_of_known {P : List NodeId} {d : NodeId} {t : Option Ty}
    (h : Typing a M P T (.decl d t) T') (hd : (T.types d).isSome) : T' = T ∧ T.types d = t := by
  cases h with
  | known ht => exact ⟨rfl, ht⟩
  | struct _ hnone _ _ => simp [hnone] at hd
  | typeAlias _ hnone _ _ => simp [hnone] at hd

theorem Typing.typeOf {P : List NodeId} {f : TypeFinding} (h : Typing a M P T f T')
    (hE : E.Settled a M) (hT : T.Reflects a M E Δ V) {i : NodeId} {t : Option Ty}
    (hf : f = .node i t) : TypeOf a M E i t ∧ T'.Reflects a M E Δ V := by
  induction h generalizing i t with
  | absent =>
    cases hf
    exact ⟨.absent, hT⟩
  | plain hx ht =>
    cases hf
    exact ⟨.plain hx ht, hT.keepType hx (some _)⟩
  | around hx he _ ih =>
    cases hf
    obtain ⟨hof, hT'⟩ := ih hT rfl
    exact ⟨.around hx he hof, hT'.keepType hx _⟩
  | @named P T T' i s d t hx hs hd hdecl ih =>
    cases hf
    have hknown : ((T.setName i d).types d).isSome := by
      rw [(hT.setName i d).types d hd]
      exact hE.types s d hs hd
    obtain ⟨rfl, ht⟩ := hdecl.eq_of_known hknown
    obtain ⟨u, hu⟩ := Option.isSome_iff_exists.1 (hE.types s d hs hd)
    have htu : t = some u := by rw [← ht, (hT.setName i d).types d hd, hu]
    subst htu
    exact ⟨.named hx hs hd hu, (hT.setName i d).keepType hx _⟩
  | _ => cases hf

theorem TypeOf.typing {i : NodeId} {t : Option Ty} (h : TypeOf a M E i t)
    (hT : T.Reflects a M E Δ V) (P : List NodeId) :
    ∃ T', Typing a M P T (.node i t) T' ∧ T'.Reflects a M E Δ V := by
  induction h with
  | absent => exact ⟨T, .absent, hT⟩
  | plain hx ht => exact ⟨_, .plain hx ht, hT.keepType hx (some _)⟩
  | around hx he _ ih =>
    obtain ⟨T', hof, hT'⟩ := ih
    exact ⟨_, .around hx he hof, hT'.keepType hx _⟩
  | @named i s d t hx hs hd ht =>
    refine ⟨_, .named hx hs hd (.known (t := t) ?_), (hT.setName i d).keepType hx _⟩
    rw [(hT.setName i d).types d hd, ht]

theorem Calling.calls {g : NodeId} {k : Callee} (h : Calling a M T g k T') (hE : E.Settled a M)
    (hT : T.Reflects a M E Δ V) : Calls a M E g k ∧ T'.Reflects a M E Δ V := by
  cases h with
  | typed hx ht =>
    obtain ⟨hof, hT'⟩ := ht.typeOf hE hT rfl
    exact ⟨.typed hx hof, hT'⟩
  | @declared _ _ s d t hg hs hd hdecl =>
    obtain ⟨u, hu⟩ := Option.isSome_iff_exists.1 (hE.types s d hs hd)
    obtain ⟨rfl, ht⟩ := hdecl.eq_of_known (by rw [hT.types d hd, hu]; rfl)
    have htu : t = some u := by rw [← ht, hT.types d hd, hu]
    subst htu
    exact ⟨.declared hg hs hd hu, hT⟩
  | function hg hs hf ht => exact ⟨.function hg hs hf (hT.results ▸ ht), hT⟩
  | builtin hg hs hrule => exact ⟨.builtin hg hs hrule, hT⟩

theorem Calls.calling {g : NodeId} {k : Callee} (h : Calls a M E g k) (hT : T.Reflects a M E Δ V) :
    ∃ T', Calling a M T g k T' ∧ T'.Reflects a M E Δ V := by
  cases h with
  | typed hx hof =>
    obtain ⟨T', ht, hT'⟩ := hof.typing hT []
    exact ⟨T', .typed hx ht, hT'⟩
  | declared hg hs hd ht => exact ⟨T, .declared hg hs hd (.known (by rw [hT.types _ hd, ht])), hT⟩
  | function hg hs hf ht => exact ⟨T, .function hg hs hf (hT.results ▸ ht), hT⟩
  | builtin hg hs hrule => exact ⟨T, .builtin hg hs hrule, hT⟩

theorem Table.compose_congr (h : T.structs = E.structs) (x : ExprShape Symbol NodeId)
    (ts : List (Option Ty)) : T.compose a x ts = E.compose a x ts := by
  have hselect : ∀ name t, T.select name t = E.select name t := by
    intro name t
    simp only [Table.select, h]
  unfold Table.compose
  split <;> simp only [hselect]

theorem Valued.valueOf {v : VariableShape Symbol NodeId} {t₀ t : Option Ty}
    (h : Valued a M v t₀ T t T') (hE : E.Settled a M) (hT : T.Reflects a M E Δ V) :
    ValueOf a M E v t₀ t ∧ T'.Reflects a M E Δ V := by
  cases h with
  | named hv ht =>
    obtain ⟨hof, hT'⟩ := ht.typeOf hE hT rfl
    exact ⟨.named hv hof, hT'⟩
  | inferred hv hi => exact ⟨.inferred hv hi, hT⟩

theorem ValueOf.valued {v : VariableShape Symbol NodeId} {t₀ t : Option Ty}
    (h : ValueOf a M E v t₀ t) (hT : T.Reflects a M E Δ V) :
    ∃ T', Valued a M v t₀ T t T' ∧ T'.Reflects a M E Δ V := by
  cases h with
  | named hv hof =>
    obtain ⟨T', ht, hT'⟩ := hof.typing hT []
    exact ⟨T', .named hv ht, hT'⟩
  | inferred hv hi => exact ⟨T, .inferred hv hi, hT⟩

/-- In a settled module, what tables lead to holds without them. -/
theorem Sensing.reads {f : ExprFinding} {Γ : List Frame} (h : Sensing a M F Γ T f T')
    (hE : E.Settled a M) (hΓ : Γ = Δ.frames) (hT : T.Reflects a M E Δ V) :
    Reads a M E F Δ f ∧ T'.Reflects a M E Δ V := by
  have hident : ∀ {T : Table} {s d n}, T.Reflects a M E Δ V → visible M Γ s = some d →
      T.latest d = some n →
      inScope M E Δ s = some (n, T.typeAt n) ∧
      T.identifier? n = some { variableId := some n, type := T.typeAt n } := by
    intro T s d n hT hd hn
    rw [hΓ] at hd
    have hvar : (T.vars n).isSome := by
      have hd' := hd
      unfold visible at hd'
      rw [Levels.findSome?_frames] at hd'
      cases hx : Δ.find? s with
      | some x =>
        obtain ⟨⟨l, hl, hmem⟩, _⟩ := Levels.mem_of_find? hx
        obtain ⟨hlatest, hV⟩ := hT.locals l hl x hmem
        rw [hx] at hd'
        cases hd'
        cases hlatest.symm.trans hn
        simp [hT.vars, hV]
      | none =>
        rw [hx, Option.map_none, Option.none_or] at hd'
        rw [hT.globals s d hd'] at hn
        obtain ⟨y, hy⟩ := Option.isSome_iff_exists.1 (hE.numbered d n hn)
        simp [hT.vars, hT.kept n y hy]
    obtain ⟨y, hy⟩ := Option.isSome_iff_exists.1 hvar
    refine ⟨(hT.inScope_iff hE).2 ⟨d, hd, hn, ?_⟩, ?_⟩
    · simp [hy, Table.typeAt]
    · simp [Table.identifier?, Table.typeAt, hy]
  induction h with
  | absent => exact ⟨.absent, hT⟩
  | @known T i s d n hs hd hn hF =>
    obtain ⟨hscope, hid⟩ := hident hT hd hn
    rw [hid] at hF
    exact ⟨.ident hs hscope hF, (hT.note i {}).keepSense i _⟩
  | @entered T T₁ T₂ i s d v t₀ t hs hd hnone hv _ _ _ _ =>
    -- whatever is visible is known
    have hd' := hd
    unfold visible at hd'
    rw [hΓ, Levels.findSome?_frames] at hd'
    cases hx : Δ.find? s with
    | some x =>
      obtain ⟨⟨l, hl, hmem⟩, _⟩ := Levels.mem_of_find? hx
      rw [hx] at hd'
      cases hd'
      rw [(hT.locals l hl x hmem).1] at hnone
      cases hnone
    | none =>
      rw [hx, Option.map_none, Option.none_or] at hd'
      have hknown := hE.values s d hd' (by simp [hv])
      rw [← hT.globals s d hd', hnone] at hknown
      cases hknown
  | @plain T T₁ i x ts o hx _ hcompose hF ih =>
    obtain ⟨hall, hT₁⟩ := ih (hT.note i {})
    rw [Table.compose_congr hT₁.structs] at hcompose
    exact ⟨.plain hx hall hcompose hF, hT₁.keepSense i o⟩
  | @call T T₁ T₂ i g args ts k hx _ hk hF ih =>
    obtain ⟨hall, hT₁⟩ := ih (hT.note i {})
    obtain ⟨hk', hT₂⟩ := hk.calls hE hT₁
    exact ⟨.call hx hall hk' hF, hT₂.note i _⟩
  | nil => exact ⟨.nil, hT⟩
  | cons _ _ ih₁ ih₂ =>
    obtain ⟨he, hT₁⟩ := ih₁ hT
    obtain ⟨hes, hT₂⟩ := ih₂ hT₁
    exact ⟨.cons he hes, hT₂⟩

/-- What holds in a settled module, tables that agree with it lead to. -/
theorem Reads.sensing {f : ExprFinding} (h : Reads a M E F Δ f) (hE : E.Settled a M)
    (hT : T.Reflects a M E Δ V) : ∃ T', Sensing a M F Δ.frames T f T' ∧ T'.Reflects a M E Δ V := by
  induction h generalizing T with
  | absent => exact ⟨T, .absent, hT⟩
  | @ident i s n t hs hscope hF =>
    obtain ⟨d, hd, hn, hvar⟩ := (hT.inScope_iff hE).1 hscope
    have hid : T.identifier? n = some { variableId := some n, type := t } := by
      unfold Table.identifier?
      rw [hvar]
      rfl
    have ht : T.typeAt n = t := by
      unfold Table.typeAt
      rw [hvar]
      rfl
    refine ⟨_, ?_, (hT.note i {}).keepSense i ((T.note i {}).identifier? n)⟩
    have hknown := Sensing.known hs hd hn (by rwa [hid] : F i ((T.identifier? n).getD {}))
    rwa [ht] at hknown
  | @plain i x ts o hx _ hcompose hF ih =>
    obtain ⟨T₁, hall, hT₁⟩ := ih (hT.note i {})
    exact ⟨_, .plain hx hall ((Table.compose_congr hT₁.structs x ts).trans hcompose) hF,
      hT₁.keepSense i o⟩
  | @call i g args ts k hx _ hk hF ih =>
    obtain ⟨T₁, hall, hT₁⟩ := ih (hT.note i {})
    obtain ⟨T₂, hk', hT₂⟩ := hk.calling hT₁
    exact ⟨_, .call hx hall hk' hF, hT₂.note i _⟩
  | nil => exact ⟨T, .nil, hT⟩
  | cons _ _ ih₁ ih₂ =>
    obtain ⟨T₁, he, hT₁⟩ := ih₁ hT
    obtain ⟨T₂, hes, hT₂⟩ := ih₂ hT₁
    exact ⟨T₂, .cons he hes, hT₂⟩

end

/-- The nodes that a part of a body is made of. -/
@[simp] def Part.nodes : Part → List NodeId
  | one i => [i]
  | all is => is
  | body i => [i]

namespace Program

variable {p : Program} {M : Frame} {Δ Δ' : Levels} {i : NodeId} {is : List NodeId}

/-- Nodes of the tree that lie apart from each other, from what is in scope and from what the module
declares. -/
structure Clear (p : Program) (M : Frame) (Δ : Levels) (is : List NodeId) : Prop where
  inTree : ∀ i ∈ is, i ≠ 0 → p.inTree i = true
  apart : is.Pairwise fun i j => i ≠ 0 → j ≠ 0 → ∀ x, p.Below i x → ¬ p.Below j x
  levels : ∀ l ∈ Δ, ∀ x ∈ l, ∀ i ∈ is, i ≠ 0 → ¬ p.Below i x.decl
  module : ∀ s d, M.find? s = some d → ∀ i ∈ is, i ≠ 0 → ¬ p.Below i d

/-- What is in scope at the end was so at the start, or is declared below the nodes. -/
def Enters (p : Program) (Δ : Levels) (is : List NodeId) (Δ' : Levels) : Prop :=
  ∀ l ∈ Δ', ∀ x ∈ l, (∃ l ∈ Δ, x ∈ l) ∨ ∃ i ∈ is, i ≠ 0 ∧ p.Below i x.decl

theorem mem_children_of_slot {s : Shape Symbol NodeId} {c : NodeId} (hs : p.shape? i = some s)
    (hc : c ∈ s.slots) (h0 : c ≠ 0) : c ∈ p.children i := by
  obtain ⟨n, hn, rfl⟩ := Option.map_eq_some_iff.1 hs
  exact Arena.mem_children.2 ⟨n, hn, hc, h0⟩

namespace Clear

theorem sublist (h : p.Clear M Δ is) {js : List NodeId} (hjs : js.Sublist is) : p.Clear M Δ js :=
  ⟨fun i hi => h.inTree i (hjs.subset hi), h.apart.sublist hjs,
    fun l hl x hx i hi => h.levels l hl x hx i (hjs.subset hi), fun s d hd i hi =>
      h.module s d hd i (hjs.subset hi)⟩

theorem perm (h : p.Clear M Δ is) {js : List NodeId} (hjs : is.Perm js) : p.Clear M Δ js := by
  refine ⟨fun i hi => h.inTree i (hjs.mem_iff.2 hi), (hjs.pairwise_iff ?_).1 h.apart,
    fun l hl x hx i hi => h.levels l hl x hx i (hjs.mem_iff.2 hi), fun s d hd i hi =>
      h.module s d hd i (hjs.mem_iff.2 hi)⟩
  exact fun {i j} hij hj hi x hxj hxi => hij hi hj x hxi hxj

theorem opened (h : p.Clear M Δ is) : p.Clear M ([] :: Δ) is := by
  refine { h with levels := fun l hl x hx => ?_ }
  rcases List.mem_cons.1 hl with rfl | hl
  · cases hx
  · exact h.levels l hl x hx

/-- The children of a node are as far apart as the node is. -/
theorem children (ht : p.TreeShaped) (h : p.Clear M Δ [i]) {s : Shape Symbol NodeId}
    (hs : p.shape? i = some s) {cs : List NodeId} (hcs : cs.Sublist s.slots) : p.Clear M Δ cs := by
  have h0 := Arena.ne_zero_of_shape hs
  have hi := h.inTree i (List.mem_singleton.2 rfl) h0
  have hchild : ∀ c ∈ cs, c ≠ 0 → c ∈ p.children i :=
    fun c hc hc0 => mem_children_of_slot hs (hcs.subset hc) hc0
  refine ⟨fun c hc hc0 => ht.inTree_child hi (hchild c hc hc0), ?_, fun l hl x hx c hc hc0 hb => ?_,
    fun s d hd c hc hc0 hb => ?_⟩
  · have hnodup : s.slots.Pairwise fun c d => c ≠ 0 → d ≠ 0 → c ≠ d := by
      obtain ⟨n, hn, rfl⟩ := Option.map_eq_some_iff.1 hs
      have hone := ht.once hi
      simp only [Arena.children, hn, Option.map_some, Option.getD_some, Node.children] at hone
      exact (List.pairwise_filter.1 hone).imp fun h hc hd =>
        h (by simpa using hc) (by simpa using hd)
    refine (hnodup.sublist hcs).imp_of_mem fun {c d} hc hd hne hc0 hd0 x hx => ?_
    exact ht.disjoint hi (hchild c hc hc0) (hchild d hd hd0) (hne hc0 hd0) hx
  · exact h.levels l hl x hx i (List.mem_singleton.2 rfl) h0 (.of_child (hchild c hc hc0) hb)
  · exact h.module s d hd i (List.mem_singleton.2 rfl) h0 (.of_child (hchild c hc hc0) hb)

/-- What the first nodes declare lies apart from the others. -/
theorem steps {js : List NodeId} (h : p.Clear M Δ (is ++ js)) (hΔ : p.Enters Δ is Δ') :
    p.Clear M Δ' js := by
  have hsub := h.sublist (List.sublist_append_right is js)
  refine ⟨hsub.inTree, hsub.apart, fun l hl x hx j hj hj0 hb => ?_, hsub.module⟩
  rcases hΔ l hl x hx with ⟨l', hl', hx'⟩ | ⟨k, hk, hk0, hbelow⟩
  · exact hsub.levels l' hl' x hx' j hj hj0 hb
  · exact (List.pairwise_append.1 h.apart).2.2 k hk j hj hk0 hj0 _ hbelow hb

theorem step (h : p.Clear M Δ (i :: is)) (hΔ : p.Enters Δ [i] Δ') : p.Clear M Δ' is := steps h hΔ

end Clear

namespace Enters

theorem refl (Δ : Levels) (is : List NodeId) : p.Enters Δ is Δ := fun l hl _ hx => .inl ⟨l, hl, hx⟩

theorem trans {Δ₁ Δ₂ : Levels} {js : List NodeId} (h : p.Enters Δ is Δ₁) (h' : p.Enters Δ₁ js Δ₂) :
    p.Enters Δ (is ++ js) Δ₂ := by
  intro l hl x hx
  rcases h' l hl x hx with ⟨l', hl', hx'⟩ | ⟨j, hj, hj'⟩
  · rcases h l' hl' x hx' with h | ⟨i, hi, hi'⟩
    · exact .inl h
    · exact .inr ⟨i, List.mem_append_left _ hi, hi'⟩
  · exact .inr ⟨j, List.mem_append_right _ hj, hj'⟩

theorem drop (h : p.Enters Δ is Δ') (n : Nat) : p.Enters Δ is (Δ'.drop n) :=
  fun l hl => h l (List.mem_of_mem_drop hl)

theorem of_opened (h : p.Enters ([] :: Δ) is Δ') : p.Enters Δ is Δ' := by
  intro l hl x hx
  rcases h l hl x hx with ⟨l', hl', hx'⟩ | h
  · rcases List.mem_cons.1 hl' with rfl | hl'
    · cases hx'
    · exact .inl ⟨l', hl', hx'⟩
  · exact .inr h

theorem of_children {s : Shape Symbol NodeId} (hs : p.shape? i = some s)
    (his : ∀ c ∈ is, c ∈ s.slots) (h : p.Enters Δ is Δ') : p.Enters Δ [i] Δ' := by
  intro l hl x hx
  rcases h l hl x hx with h | ⟨c, hc, hc0, hb⟩
  · exact .inl h
  · exact .inr ⟨i, List.mem_singleton.2 rfl, Arena.ne_zero_of_shape hs,
      .of_child (mem_children_of_slot hs (his c hc) hc0) hb⟩

end Enters

end Program

section

variable {p : Program} {M : Frame} {E T T' : Table} {F : NodeId → ExprFacts → Prop} {Δ Δ' : Levels}
    {V V' : List Made}

theorem Declares.enters {d : NodeId} {v : VariableShape Symbol NodeId}
    (hv : p.asVariable? d = some v) (h : Declares p.toArena M E F d v Δ V Δ' V') :
    p.Enters Δ [d] Δ' := by
  obtain ⟨_, _, henter⟩ := h
  intro l hl x hx
  rcases Levels.mem_enter henter hl hx with rfl | h
  · exact .inr ⟨d, List.mem_singleton.2 rfl,
      Arena.ne_zero_of_shape (Arena.shape?_of_asVariable? hv), .self⟩
  · exact .inl h

theorem Ranges.enters {part : Part} (h : Ranges p.toArena M E F Δ V part Δ' V') :
    p.Enters Δ part.nodes Δ' := by
  induction h with
  | absent => exact .refl _ _
  | simple => exact .refl _ _
  | varDecl hi hv hd => exact hd.enters hv |>.of_children hi (by simp [Shape.slots])
  | stray => exact .refl _ _
  | block hi _ ih => exact (ih.of_opened.drop 1).of_children hi (by simp [Shape.slots])
  | ifElse hi _ _ _ ih₁ ih₂ => exact (ih₁.trans ih₂).of_children hi (by simp [Shape.slots])
  | forLoop hi _ _ _ _ ih₁ ih₂ ih₃ =>
    exact (((ih₁.of_opened.trans ih₂).trans ih₃).drop 1).of_children hi (by simp [Shape.slots])
  | whileLoop hi _ _ ih => exact ih.of_children hi (by simp [Shape.slots])
  | loop hi _ _ ih₁ ih₂ =>
    exact ((ih₁.of_opened.trans ih₂).drop 1).of_children hi (by simp [Shape.slots])
  | opened hb _ ih => exact ih.of_children (Arena.shape?_of_block? hb) (by simp [Shape.slots])
  | lacking => exact .refl _ _
  | nil => exact .refl _ _
  | cons _ _ ih₁ ih₂ => exact ih₁.trans ih₂

/-- What one node of a tree declares is not in scope yet, and not the module's. -/
theorem Program.Clear.fresh {d : NodeId} (h : p.Clear M Δ [d]) (hd : d ≠ 0) :
    (∀ s, M.find? s ≠ some d) ∧ ∀ l ∈ Δ, ∀ x ∈ l, x.decl ≠ d :=
  ⟨fun s hs => h.module s d hs d (List.mem_singleton.2 rfl) hd .self,
    fun l hl x hx he => h.levels l hl x hx d (List.mem_singleton.2 rfl) hd (he ▸ .self)⟩

theorem Declaring.declares {d : NodeId} {v : VariableShape Symbol NodeId} {Γ Γ' : List Frame}
    (h : Declaring p.toArena M F d v Γ T Γ' T') (hE : E.Settled p.toArena M)
    (hv : p.asVariable? d = some v) (hc : p.Clear M Δ [d]) (hΓ : Γ = Δ.frames)
    (hT : T.Reflects p.toArena M E Δ V) : ∃ Δ' V', Γ' = Δ'.frames ∧
      Declares p.toArena M E F d v Δ V Δ' V' ∧ T'.Reflects p.toArena M E Δ' V' := by
  obtain ⟨hinit, hval, hdeclare⟩ := h
  obtain ⟨hread, hT₁⟩ := hinit.reads hE hΓ hT
  obtain ⟨hof, hT₂⟩ := hval.valueOf hE hT₁
  obtain ⟨hM, hΔ⟩ := hc.fresh (Arena.ne_zero_of_shape (Arena.shape?_of_asVariable? hv))
  rw [hΓ] at hdeclare
  obtain ⟨Δ', henter, rfl⟩ := Option.map_eq_some_iff.1
    ((Levels.declareIn_frames Δ ⟨v.name, d, V.length, _⟩).symm.trans hdeclare)
  exact ⟨Δ', _, rfl, .intro hread hof henter, hT₂.addValue hM hΔ henter⟩

theorem Declares.declaring {d : NodeId} {v : VariableShape Symbol NodeId}
    (h : Declares p.toArena M E F d v Δ V Δ' V') (hE : E.Settled p.toArena M)
    (hv : p.asVariable? d = some v) (hc : p.Clear M Δ [d]) (hT : T.Reflects p.toArena M E Δ V) :
    ∃ T', Declaring p.toArena M F d v Δ.frames T Δ'.frames T' ∧
      T'.Reflects p.toArena M E Δ' V' := by
  obtain ⟨hread, hof, henter⟩ := h
  obtain ⟨T₁, hinit, hT₁⟩ := hread.sensing hE hT
  obtain ⟨T₂, hval, hT₂⟩ := hof.valued hT₁
  obtain ⟨hM, hΔ⟩ := hc.fresh (Arena.ne_zero_of_shape (Arena.shape?_of_asVariable? hv))
  refine ⟨_, .intro hinit hval ?_, hT₂.addValue hM hΔ henter⟩
  exact (Levels.declareIn_frames Δ ⟨v.name, d, V.length, _⟩).trans (by rw [henter]; rfl)

theorem Scoping.ranges (ht : p.TreeShaped) {Γ Γ' : List Frame} {part : Part}
    (h : Scoping p.toArena M F Γ T part Γ' T') (hE : E.Settled p.toArena M)
    (hc : p.Clear M Δ part.nodes) (hΓ : Γ = Δ.frames) (hT : T.Reflects p.toArena M E Δ V) :
    ∃ Δ' V', Γ' = Δ'.frames ∧
      Ranges p.toArena M E F Δ V part Δ' V' ∧ T'.Reflects p.toArena M E Δ' V' := by
  induction h generalizing Δ V with
  | absent => exact ⟨Δ, V, hΓ, .absent, hT⟩
  | simple hi hes hread =>
    obtain ⟨hread, hT'⟩ := hread.reads hE hΓ hT
    exact ⟨Δ, V, hΓ, .simple hi hes hread, hT'⟩
  | varDecl hi hv hd =>
    obtain ⟨Δ', V', hΓ', hd', hT'⟩ :=
      hd.declares hE hv (hc.children ht hi (by simp [Shape.slots])) hΓ hT
    exact ⟨Δ', V', hΓ', .varDecl hi hv hd', hT'⟩
  | stray hi hv => exact ⟨Δ, V, hΓ, .stray hi hv, hT⟩
  | block hi _ ih =>
    obtain ⟨Δ', V', rfl, hss, hT'⟩ :=
      ih (hc.children ht hi (.refl _)).opened (by rw [hΓ]; rfl) hT.opened
    exact ⟨Δ'.drop 1, V', (Levels.frames_drop Δ' 1).symm, .block hi hss, hT'.closed 1⟩
  | @ifElse _ _ _ _ _ _ _ i c b e t hi hcond _ _ ih₁ ih₂ =>
    have hc' : p.Clear M _ [b, e] := hc.children ht hi (by simp [Shape.slots])
    obtain ⟨hread, hT₁⟩ := hcond.reads hE hΓ hT
    obtain ⟨Δ₁, V₁, hΓ₁, hb, hT₂⟩ := ih₁ (hc'.sublist (by simp)) hΓ hT₁
    obtain ⟨Δ₂, V₂, hΓ₂, he, hT₃⟩ := ih₂ (hc'.step hb.enters) hΓ₁ hT₂
    exact ⟨Δ₂, V₂, hΓ₂, .ifElse hi hread hb he, hT₃⟩
  | @forLoop _ _ _ _ _ _ _ _ _ i init c cont b t hi _ hcond _ _ ih₁ ih₂ ih₃ =>
    have hslots : p.Clear M _ [init, cont, b] := hc.children ht hi (by simp [Shape.slots])
    have hc' := hslots.perm (.cons init (.swap b cont []))
    obtain ⟨Δ₁, V₁, hΓ₁, hr₁, hT₁⟩ := ih₁ (hc'.sublist (by simp)).opened (by rw [hΓ]; rfl) hT.opened
    obtain ⟨hread, hT₂⟩ := hcond.reads hE hΓ₁ hT₁
    have hc₁ := hc'.step hr₁.enters.of_opened
    obtain ⟨Δ₂, V₂, hΓ₂, hr₂, hT₃⟩ := ih₂ (hc₁.sublist (by simp)) hΓ₁ hT₂
    obtain ⟨Δ₃, V₃, hΓ₃, hr₃, hT₄⟩ := ih₃ (hc₁.step hr₂.enters) hΓ₂ hT₃
    exact ⟨Δ₃.drop 1,
      V₃, by rw [hΓ₃, Levels.frames_drop], .forLoop hi hr₁ hread hr₂ hr₃, hT₄.closed 1⟩
  | @whileLoop _ _ _ _ _ i c b t hi hcond _ ih =>
    obtain ⟨hread, hT₁⟩ := hcond.reads hE hΓ hT
    obtain ⟨Δ₁, V₁, hΓ₁, hb, hT₂⟩ := ih (hc.children ht hi (by simp [Shape.slots])) hΓ hT₁
    exact ⟨Δ₁, V₁, hΓ₁, .whileLoop hi hread hb, hT₂⟩
  | @loop _ _ _ _ _ _ i b cont hi _ _ ih₁ ih₂ =>
    have hc' : p.Clear M _ [b, cont] := hc.children ht hi (by simp [Shape.slots])
    obtain ⟨Δ₁, V₁, hΓ₁, hb, hT₁⟩ := ih₁ (hc'.sublist (by simp)).opened (by rw [hΓ]; rfl) hT.opened
    obtain ⟨Δ₂, V₂, hΓ₂, hk, hT₂⟩ := ih₂ (hc'.step hb.enters.of_opened) hΓ₁ hT₁
    exact ⟨Δ₂.drop 1, V₂, by rw [hΓ₂, Levels.frames_drop], .loop hi hb hk, hT₂.closed 1⟩
  | opened hb _ ih =>
    obtain ⟨Δ', V', hΓ', hss, hT'⟩ :=
      ih (hc.children ht (Arena.shape?_of_block? hb) (.refl _)) hΓ hT
    exact ⟨Δ', V', hΓ', .opened hb hss, hT'⟩
  | lacking hb => exact ⟨Δ, V, hΓ, .lacking hb, hT⟩
  | nil => exact ⟨Δ, V, hΓ, .nil, hT⟩
  | cons _ _ ih₁ ih₂ =>
    obtain ⟨Δ₁, V₁, hΓ₁, hs, hT₁⟩ := ih₁ (hc.sublist (by simp)) hΓ hT
    obtain ⟨Δ₂, V₂, hΓ₂, hss, hT₂⟩ := ih₂ (Program.Clear.step hc hs.enters) hΓ₁ hT₁
    exact ⟨Δ₂, V₂, hΓ₂, .cons hs hss, hT₂⟩

theorem Ranges.scoping (ht : p.TreeShaped) {part : Part} (h : Ranges p.toArena M E F Δ V part Δ' V')
    (hE : E.Settled p.toArena M) (hc : p.Clear M Δ part.nodes) (hT : T.Reflects p.toArena M E Δ V) :
    ∃ T', Scoping p.toArena M F Δ.frames T part Δ'.frames T' ∧ T'.Reflects p.toArena M E Δ' V' := by
  induction h generalizing T with
  | absent => exact ⟨T, .absent, hT⟩
  | simple hi hes hread =>
    obtain ⟨T', hread, hT'⟩ := hread.sensing hE hT
    exact ⟨T', .simple hi hes hread, hT'⟩
  | varDecl hi hv hd =>
    obtain ⟨T', hd', hT'⟩ := hd.declaring hE hv (hc.children ht hi (by simp [Shape.slots])) hT
    exact ⟨T', .varDecl hi hv hd', hT'⟩
  | stray hi hv => exact ⟨T, .stray hi hv, hT⟩
  | block hi _ ih =>
    obtain ⟨T', hss, hT'⟩ := ih (hc.children ht hi (.refl _)).opened hT.opened
    refine ⟨T', ?_, hT'.closed 1⟩
    rw [Levels.frames_drop]
    exact .block hi hss
  | @ifElse _ _ _ _ _ _ i c b e t hi hcond hb _ ih₁ ih₂ =>
    have hc' : p.Clear M _ [b, e] := hc.children ht hi (by simp [Shape.slots])
    obtain ⟨T₁, hread, hT₁⟩ := hcond.sensing hE hT
    obtain ⟨T₂, hb', hT₂⟩ := ih₁ (hc'.sublist (by simp)) hT₁
    obtain ⟨T₃, he', hT₃⟩ := ih₂ (hc'.step hb.enters) hT₂
    exact ⟨T₃, .ifElse hi hread hb' he', hT₃⟩
  | @forLoop _ _ _ _ _ _ _ _ i init c cont b t hi hinit hcond hb _ ih₁ ih₂ ih₃ =>
    have hslots : p.Clear M _ [init, cont, b] := hc.children ht hi (by simp [Shape.slots])
    have hc' := hslots.perm (.cons init (.swap b cont []))
    obtain ⟨T₁, hinit', hT₁⟩ := ih₁ (hc'.sublist (by simp)).opened hT.opened
    obtain ⟨T₂, hread, hT₂⟩ := hcond.sensing hE hT₁
    have hc₁ := hc'.step hinit.enters.of_opened
    obtain ⟨T₃, hb', hT₃⟩ := ih₂ (hc₁.sublist (by simp)) hT₂
    obtain ⟨T₄, hk', hT₄⟩ := ih₃ (hc₁.step hb.enters) hT₃
    refine ⟨T₄, ?_, hT₄.closed 1⟩
    rw [Levels.frames_drop]
    exact .forLoop hi hinit' hread hb' hk'
  | @whileLoop _ _ _ _ i c b t hi hcond _ ih =>
    obtain ⟨T₁, hread, hT₁⟩ := hcond.sensing hE hT
    obtain ⟨T₂, hb', hT₂⟩ := ih (hc.children ht hi (by simp [Shape.slots])) hT₁
    exact ⟨T₂, .whileLoop hi hread hb', hT₂⟩
  | @loop _ _ _ _ _ _ i b cont hi hb _ ih₁ ih₂ =>
    have hc' : p.Clear M _ [b, cont] := hc.children ht hi (by simp [Shape.slots])
    obtain ⟨T₁, hb', hT₁⟩ := ih₁ (hc'.sublist (by simp)).opened hT.opened
    obtain ⟨T₂, hk', hT₂⟩ := ih₂ (hc'.step hb.enters.of_opened) hT₁
    refine ⟨T₂, ?_, hT₂.closed 1⟩
    rw [Levels.frames_drop]
    exact .loop hi hb' hk'
  | opened hb _ ih =>
    obtain ⟨T', hss, hT'⟩ := ih (hc.children ht (Arena.shape?_of_block? hb) (.refl _)) hT
    exact ⟨T', .opened hb hss, hT'⟩
  | lacking hb => exact ⟨T, .lacking hb, hT⟩
  | nil => exact ⟨T, .nil, hT⟩
  | cons hs _ ih₁ ih₂ =>
    obtain ⟨T₁, hs', hT₁⟩ := ih₁ (hc.sublist (by simp)) hT
    obtain ⟨T₂, hss', hT₂⟩ := ih₂ (Program.Clear.step hc hs.enters) hT₁
    exact ⟨T₂, .cons hs' hss', hT₂⟩

theorem Takes.enters {ds : List NodeId} (h : Takes p.toArena M E F ds Δ V Δ' V') :
    p.Enters Δ ds Δ' := by
  induction h with
  | nil => exact .refl _ _
  | cons hv _ hd _ ih => exact (hd.enters hv).trans ih

theorem Parameters.takes {ds : List NodeId} {Γ Γ' : List Frame}
    (h : Parameters p.toArena M F ds Γ T Γ' T') (hE : E.Settled p.toArena M) (hc : p.Clear M Δ ds)
    (hΓ : Γ = Δ.frames) (hT : T.Reflects p.toArena M E Δ V) :
    ∃ Δ' V', Γ' = Δ'.frames ∧ Takes p.toArena M E F ds Δ V Δ' V' ∧
      T'.Reflects p.toArena M E Δ' V' := by
  induction h generalizing Δ V with
  | nil => exact ⟨Δ, V, hΓ, .nil, hT⟩
  | cons hv hkind hd _ ih =>
    obtain ⟨Δ₁, V₁, hΓ₁, hd', hT₁⟩ := hd.declares hE hv (hc.sublist (by simp)) hΓ hT
    obtain ⟨Δ₂, V₂, hΓ₂, hds, hT₂⟩ := ih (hc.step (hd'.enters hv)) hΓ₁ hT₁
    exact ⟨Δ₂, V₂, hΓ₂, .cons hv hkind hd' hds, hT₂⟩

theorem Takes.parameters {ds : List NodeId} (h : Takes p.toArena M E F ds Δ V Δ' V')
    (hE : E.Settled p.toArena M) (hc : p.Clear M Δ ds) (hT : T.Reflects p.toArena M E Δ V) :
    ∃ T', Parameters p.toArena M F ds Δ.frames T Δ'.frames T' ∧
      T'.Reflects p.toArena M E Δ' V' := by
  induction h generalizing T with
  | nil => exact ⟨T, .nil, hT⟩
  | cons hv hkind hd _ ih =>
    obtain ⟨T₁, hd', hT₁⟩ := hd.declaring hE hv (hc.sublist (by simp)) hT
    obtain ⟨T₂, hds, hT₂⟩ := ih (hc.step (hd.enters hv)) hT₁
    exact ⟨T₂, .cons hv hkind hd' hds, hT₂⟩

/-- The parameters and the body of a function of the module lie apart. -/
theorem Program.Clear.function (ht : p.TreeShaped) {d : NodeId} {f : FunctionShape Symbol NodeId}
    (hf : p.function? d = some f) (hd : d ∈ p.children p.root)
    (hM : ∀ s g, M.find? s = some g → g ∈ p.children p.root) :
    p.Clear M [[]] (f.params ++ [f.body]) := by
  have hs := Arena.shape?_of_function? hf
  have hroot := p.inTree_root
  have hin := ht.inTree_child hroot hd
  have hself : p.Clear [] [[]] [d] := by
    refine ⟨by simpa using fun _ => hin, by simp, by simp, fun s g hg => ?_⟩
    cases hg
  have hsub : (f.params ++ [f.body]).Sublist (Shape.slots (.decl (.function f))) := by
    refine List.Sublist.append ?_ (by simp)
    exact ((List.sublist_append_right f.attributes f.params).trans (List.sublist_append_left _ _))
  have hc := hself.children ht hs hsub
  refine { hc with module := fun s g hg c hmem h0 hb => ?_ }
  have hchild := Program.mem_children_of_slot hs (hsub.subset hmem) h0
  by_cases hgd : g = d
  · exact ht.not_below_child hin hchild (hgd ▸ hb)
  · exact ht.disjoint hroot (hM s g hg) hd hgd .self (.of_child hchild hb)

end

end ShaderLoom
