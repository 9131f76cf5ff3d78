import ShaderLoom.Proofs.Meaning.Pairing

/-! Resolution goes through two arenas that hold the same module under different numbers in step:
whatever it finds out about a node of the one it finds out about the node of the other that stands
for it, and it reports the same problems in the same order. -/
namespace ShaderLoom

namespace Resolve

variable {a b : Arena} {P : a.Pairing b} {α β γ δ : Type} {A : α → β → Prop} {B : γ → δ → Prop}

/-- Two steps that go in step: from alike states they come to alike states and answers related by
`A`. -/
def Pair (P : a.Pairing b) (A : α → β → Prop) (m : Resolve α) (n : Resolve β) : Prop :=
  ∀ r q, Resolver.Alike P r q → A (m r).1 (n q).1 ∧ Resolver.Alike P (m r).2 (n q).2

namespace Pair

theorem pure {x : α} {y : β} (h : A x y) : Pair P A (pure x) (pure y) := fun _ _ hr => ⟨h, hr⟩

theorem bind {m : Resolve α} {n : Resolve β} {k : α → Resolve γ} {l : β → Resolve δ}
    (h : Pair P A m n) (hk : ∀ x y, A x y → Pair P B (k x) (l y)) :
    Pair P B (m >>= k) (n >>= l) := by
  intro r q hr
  obtain ⟨hxy, hr'⟩ := h r q hr
  exact hk _ _ hxy _ _ hr'

theorem mono {A' : α → β → Prop} {m : Resolve α} {n : Resolve β} (h : Pair P A m n)
    (hA : ∀ x y, A x y → A' x y) : Pair P A' m n := by
  intro r q hr
  obtain ⟨hxy, hr'⟩ := h r q hr
  exact ⟨hA _ _ hxy, hr'⟩

theorem get : Pair P (Resolver.Alike P) get get := fun _ _ hr => ⟨hr, hr⟩

theorem modify {f g : Resolver → Resolver}
    (h : ∀ r q, Resolver.Alike P r q → Resolver.Alike P (f r) (g q)) :
    Pair P (fun _ _ => True) (modify f) (modify g) := fun r q hr => ⟨trivial, h r q hr⟩

theorem mapFacts {f g : Facts → Facts}
    (h : ∀ x y, Facts.Alike P.node x y → Facts.Alike P.node (f x) (g y)) :
    Pair P (fun _ _ => True) (mapFacts f) (mapFacts g) :=
  .modify fun _ _ hr =>
    ⟨h _ _ hr.facts, hr.diagnostics, hr.frames, hr.function, hr.stmt, hr.pending, hr.seenGlobals,
    hr.seenCallees⟩

theorem mapM {R : γ → δ → Prop} {m : γ → Resolve α} {n : δ → Resolve β} {xs : List γ} {ys : List δ}
    (hxs : List.Forall₂ R xs ys) (h : ∀ x y, R x y → Pair P A (m x) (n y)) :
    Pair P (List.Forall₂ A) (xs.mapM m) (ys.mapM n) := by
  induction hxs with
  | nil =>
    rw [List.mapM_nil, List.mapM_nil]
    exact .pure .nil
  | cons hxy _ ih =>
    rw [List.mapM_cons, List.mapM_cons]
    exact (h _ _ hxy).bind fun _ _ hx => ih.bind fun _ _ hxs => .pure (.cons hx hxs)

theorem forM {R : γ → δ → Prop} {m : γ → Resolve PUnit} {n : δ → Resolve PUnit} {xs : List γ}
    {ys : List δ} (hxs : List.Forall₂ R xs ys)
    (h : ∀ x y, R x y → Pair P (fun _ _ => True) (m x) (n y)) :
    Pair P (fun _ _ => True) (xs.forM m) (ys.forM n) := by
  induction hxs with
  | nil => exact .pure trivial
  | cons hxy _ ih => exact (h _ _ hxy).bind fun _ _ _ => ih

theorem filterMapM {R : γ → δ → Prop} {m : γ → Resolve (Option α)} {n : δ → Resolve (Option β)}
    {xs : List γ} {ys : List δ} (hxs : List.Forall₂ R xs ys)
    (h : ∀ x y, R x y → Pair P (Option.Rel A) (m x) (n y)) :
    Pair P (List.Forall₂ A) (xs.filterMapM m) (ys.filterMapM n) := by
  induction hxs with
  | nil =>
    rw [List.filterMapM_nil, List.filterMapM_nil]
    exact .pure .nil
  | cons hxy _ ih =>
    rw [List.filterMapM_cons, List.filterMapM_cons]
    refine (h _ _ hxy).bind fun _ _ ho => ?_
    cases ho with
    | none => exact ih
    | some hx => exact ih.bind fun _ _ hxs => .pure (.cons hx hxs)

/-- Loops without a state of their own. -/
theorem forIn {R : γ → δ → Prop} {m : γ → PUnit → Resolve (ForInStep PUnit)}
    {n : δ → PUnit → Resolve (ForInStep PUnit)} {xs : List γ} {ys : List δ}
    (hxs : List.Forall₂ R xs ys)
    (h : ∀ x y, R x y → Pair P (fun s t => s = .yield ⟨⟩ ∧ t = .yield ⟨⟩) (m x ⟨⟩) (n y ⟨⟩)) :
    Pair P (fun _ _ => True) (forIn xs PUnit.unit m) (forIn ys PUnit.unit n) := by
  induction hxs with
  | nil =>
    rw [List.forIn_nil, List.forIn_nil]
    exact .pure trivial
  | cons hxy _ ih =>
    rw [List.forIn_cons, List.forIn_cons]
    refine (h _ _ hxy).bind fun s t hst => ?_
    obtain ⟨rfl, rfl⟩ := hst
    exact ih

end Pair
end Resolve

/-- Two modules to resolve that are alike, with the same bound. -/
structure Scene.Paired {c d : Scene} (P : c.arena.Pairing d.arena) : Prop where
  module : P.Frames c.module d.module
  fuel : c.fuel = d.fuel

namespace Resolve

variable {c d : Scene} {P : c.arena.Pairing d.arena} {i j : NodeId}

/-- Types, or none, that differ in the numbers of declarations only. -/
abbrev Types {a b : Arena} (P : a.Pairing b) : Option Ty → Option Ty → Prop :=
  Option.Rel (Ty.Alike P.node)

section Steps

theorem pair_report (h : P.node i j) (message : String) :
    Pair P (fun _ _ => True) (report c i message) (report d j message) := by
  refine .modify fun r q hr =>
    ⟨hr.facts, ?_, hr.frames, hr.function, hr.stmt, hr.pending, hr.seenGlobals, hr.seenCallees⟩
  rw [hr.diagnostics, Arena.Pairing.spanOf h]

theorem pair_refuse (h : P.node i j) (message : String) :
    Pair P (Types P) (refuse c i message) (refuse d j message) :=
  (pair_report h message).bind fun _ _ _ => .pure .none

theorem pair_setType (h : P.node i j) {t u : Ty} (ht : Ty.Alike P.node t u) :
    Pair P (fun _ _ => True) (setType i t) (setType j u) :=
  .mapFacts fun _ _ hf => { hf with types := hf.types.insert P.uniqueNode h ht }

theorem pair_setExpr (h : P.node i j) {e f : ExprFacts} (he : e.Alike P.node f) :
    Pair P (fun _ _ => True) (setExpr i e) (setExpr j f) :=
  .mapFacts fun _ _ hf => { hf with exprs := hf.exprs.insert P.uniqueNode h he }

theorem pair_updateFunction (h : P.node i j) {f g : FunctionFacts → FunctionFacts}
    (hfg : ∀ x y, x.Alike P.node y → (f x).Alike P.node (g y)) :
    Pair P (fun _ _ => True) (updateFunction i f) (updateFunction j g) :=
  .mapFacts fun _ _ hf => { hf with functions := hf.functions.modify P.uniqueNode h hfg }

theorem pair_lookup (hc : Scene.Paired P) {s t : Symbol} (h : P.name s t) :
    Pair P (Option.Rel P.node) (lookup c s) (lookup d t) := by
  refine Pair.get.bind fun r q hr => .pure ?_
  have hmodule := Arena.Pairing.find? hc.module h
  have hframes : Option.Rel P.node (r.frames.findSome? (Frame.find? · s))
      (q.frames.findSome? (Frame.find? · t)) := by
    have hlist := hr.frames
    generalize r.frames = fs at hlist ⊢
    generalize q.frames = gs at hlist ⊢
    induction hlist with
    | nil => exact .none
    | cons hfg _ ih =>
      rw [List.findSome?_cons, List.findSome?_cons]
      rcases rel_cases (Arena.Pairing.find? hfg h) with ⟨h₁, h₂⟩ | ⟨x, y, h₁, h₂, hxy⟩
      · rw [h₁, h₂]
        exact ih
      · rw [h₁, h₂]
        exact .some hxy
  rcases rel_cases hframes with ⟨h₁, h₂⟩ | ⟨x, y, h₁, h₂, hxy⟩
  · rw [h₁, h₂]
    exact hmodule
  · rw [h₁, h₂]
    exact .some hxy

theorem pair_declareLocal {s t : Symbol} (hst : P.name s t) (h : P.node i j) :
    Pair P Eq (declareLocal s i) (declareLocal t j) := by
  intro r q hr
  have hframes := hr.frames
  unfold declareLocal
  simp only [modifyGet, MonadStateOf.modifyGet, StateT.modifyGet]
  generalize hfs : r.frames = fs at hframes
  generalize hgs : q.frames = gs at hframes
  cases hframes with
  | nil => exact ⟨rfl, hr⟩
  | cons htop hrest =>
    dsimp only
    rw [isSome_eq_of_rel (Arena.Pairing.find? htop hst)]
    split
    · exact ⟨rfl, hr⟩
    · exact ⟨rfl, { hr with frames := .cons (.cons ⟨hst, h⟩ htop) hrest }⟩

theorem pair_keepType (h : P.node i j) {t u : Option Ty} (ht : Types P t u) :
    Pair P (Types P) (keepType i t) (keepType j u) := by
  cases ht with
  | none => exact .pure .none
  | some ht => exact (pair_setType h ht).bind fun _ _ _ => .pure (.some ht)

theorem pair_finish (h : P.node i j) {e f : ExprFacts} (he : e.Alike P.node f) :
    Pair P (Types P) (finish i e) (finish j f) :=
  (pair_setExpr h he).bind fun _ _ _ => .pure he.type

theorem pair_pushFrame : Pair P (fun _ _ => True) pushFrame pushFrame :=
  .modify fun _ _ hr => { hr with frames := .cons .nil hr.frames }

theorem pair_popFrame : Pair P (fun _ _ => True) popFrame popFrame :=
  .modify fun _ _ hr => { hr with frames := List.forall₂_drop 1 hr.frames }

end Steps

section TypeNodes

theorem pair_memberFacts {one two : NodeId → Resolve (Option Ty)}
    (hone : ∀ i j, P.node i j → Pair P (Types P) (one i) (two j)) (h : P.node i j) (k : Nat) :
    Pair P (Option.Rel (MemberFacts.Alike P.node)) (memberFacts c one i k)
    (memberFacts d two j k) := by
  unfold memberFacts
  rcases Arena.Pairing.shape? h with ⟨rfl, rfl⟩ | ⟨_, s, u, access, hs, hu, hrel⟩
  · exact .pure .none
  rw [hs, hu]
  cases hrel with
  | structMember hname ht has =>
    refine (hone _ _ ht).bind fun t u htu =>
      .pure (.some ⟨h, P.text hname, htu, rfl, Arena.Pairing.builtinOf has⟩)
  | _ => exact .pure .none

theorem forall₂_zipIdx {α β : Type} {R : α → β → Prop} {xs : List α} {ys : List β}
    (h : List.Forall₂ R xs ys) (k : Nat) :
    List.Forall₂ (fun x y => R x.1 y.1 ∧ x.2 = y.2) (xs.zipIdx k) (ys.zipIdx k) := by
  induction h generalizing k with
  | nil => exact .nil
  | cons hxy _ ih => exact .cons ⟨hxy, rfl⟩ (ih (k + 1))

theorem pair_declared {one two : NodeId → Resolve (Option Ty)}
    (hone : ∀ i j, P.node i j → Pair P (Types P) (one i) (two j)) (h : P.node i j) :
    Pair P (Types P) (declared c one i) (declared d two j) := by
  unfold declared
  rcases Arena.Pairing.shape? h with ⟨rfl, rfl⟩ | ⟨_, s, u, access, hs, hu, hrel⟩
  · exact .pure .none
  rw [hs, hu]
  cases hrel with
  | struct hname hms has =>
    replace hname := P.text hname
    refine Pair.bind (A := fun _ _ => True) (.mapFacts fun _ _ hf => ?_) fun _ _ _ => ?_
    · exact { hf with
        structs := hf.structs.insert P.uniqueNode h ⟨h, hname, .nil⟩
        types := hf.types.insert P.uniqueNode h (by rw [hname]; exact .struct _ h) }
    refine (Pair.filterMapM (A := MemberFacts.Alike P.node) (forall₂_zipIdx hms 0) fun x y hxy =>
      ?_).bind
      fun ms ns hmembers => ?_
    · obtain ⟨m, k⟩ := x
      obtain ⟨m', k'⟩ := y
      obtain ⟨hm, rfl⟩ := hxy
      exact pair_memberFacts hone hm k
    refine Pair.bind (A := fun _ _ => True) (.mapFacts fun _ _ hf => ?_) fun _ _ _ =>
      .pure (.some ?_)
    · exact { hf with structs := hf.structs.insert P.uniqueNode h ⟨h, hname, hmembers⟩ }
    · rw [hname]
      exact .struct _ h
  | typeAlias _ ht => exact (hone _ _ ht).bind fun _ _ htu => pair_keepType h htu
  | _ => exact .pure .none

theorem pair_types (hc : Scene.Paired P) (n : Nat) :
    (∀ i j, P.node i j → Pair P (Types P) (type c n i) (type d n j)) ∧
    ∀ i j, P.node i j → Pair P (Types P) (typeDecl c n i) (typeDecl d n j) := by
  induction n with
  | zero =>
    refine ⟨fun i j h => ?_, fun i j h => ?_⟩
    · unfold type
      exact pair_refuse h _
    · unfold typeDecl
      exact pair_refuse h _
  | succ n ih =>
    obtain ⟨ihType, ihDecl⟩ := ih
    refine ⟨fun i j h => ?_, fun i j h => ?_⟩
    · unfold type
      rcases Arena.Pairing.shape? h with ⟨rfl, rfl⟩ | ⟨⟨hi, hj⟩, s, u, access, hs, hu, hrel⟩
      · exact .pure .none
      rw [if_neg hi, if_neg hj, hs, hu]
      cases hrel with
      | bool => exact pair_keepType h (.some .bool)
      | i32 => exact pair_keepType h (.some .i32)
      | u32 => exact pair_keepType h (.some .u32)
      | f32 => exact pair_keepType h (.some .f32)
      | vector he =>
        exact (ihType _ _ he).bind fun _ _ ht =>
          pair_keepType h (rel_map ht fun _ _ ht => .vector _ ht)
      | matrix he =>
        exact (ihType _ _ he).bind fun _ _ ht =>
          pair_keepType h (rel_map ht fun _ _ ht => .matrix _ _ ht)
      | array he =>
        exact (ihType _ _ he).bind fun _ _ ht =>
          pair_keepType h (rel_map ht fun _ _ ht => .array _ ht)
      | sampledTexture he =>
        exact (ihType _ _ he).bind fun _ _ ht =>
          pair_keepType h (rel_map ht fun _ _ ht => .sampledTexture _ ht)
      | sampler => exact pair_keepType h (.some (.sampler _))
      | externalTexture => exact pair_keepType h (.some .externalTexture)
      | named hname =>
        dsimp only [Shape.withAccess]
        rw [P.text hname]
        rcases rel_cases (Arena.Pairing.find? hc.module hname) with ⟨h₁, h₂⟩ | ⟨x, y, h₁, h₂, hxy⟩
        · rw [h₁, h₂]
          exact pair_refuse h _
        rw [h₁, h₂]
        dsimp only
        rw [Arena.Pairing.isTypeDecl hxy]
        split
        · refine Pair.bind (A := fun _ _ => True) (.mapFacts fun _ _ hf => ?_) fun _ _ _ =>
            (ihDecl _ _ hxy).bind fun _ _ ht => pair_keepType h ht
          exact { hf with typeDecls := hf.typeDecls.insert P.uniqueNode h hxy }
        · exact pair_refuse h _
      | _ => exact pair_refuse h _
    · unfold typeDecl
      refine Pair.get.bind fun r q hr => ?_
      rcases rel_cases (hr.facts.types i j h) with ⟨h₁, h₂⟩ | ⟨x, y, h₁, h₂, hxy⟩
      · rw [h₁, h₂]
        dsimp only
        rw [contains_eq_of_forall₂ P.uniqueNode hr.pending h]
        split
        · exact pair_refuse h _
        refine Pair.bind (A := fun _ _ => True)
          (.modify fun _ _ hr => { hr with pending := .cons h hr.pending }) fun _ _ _ => ?_
        refine (pair_declared ihType h).bind fun t u ht => ?_
        refine Pair.bind (A := fun _ _ => True) (.modify fun _ _ hr => ?_) fun _ _ _ => .pure ht
        exact { hr with pending := forall₂_erase P.uniqueNode hr.pending h }
      · rw [h₁, h₂]
        exact .pure (.some hxy)

end TypeNodes

section Variables

variable {v w : VariableShape Symbol NodeId} {t u : Option Ty}

theorem defaultSpace_eq (h : Types P t u) (scope : VariableScope) :
    defaultSpace t scope = defaultSpace u scope := by
  cases h with
  | none => rfl
  | some h => cases h <;> rfl

theorem variableFacts_alike (h : P.node i j) (hv : P.Variables v w) (scope : VariableScope)
    (ht : Types P t u) :
    (variableFacts c.arena i v scope t).Alike P.node (variableFacts d.arena j w scope u) := by
  obtain ⟨access, hkind⟩ := hv.kind
  have hname := P.text hv.name
  have hbuiltin := Arena.Pairing.builtinOf hv.attributes
  have hpoint := Arena.Pairing.bindingPointOf hv.attributes
  unfold variableFacts
  rw [hkind, hname, hbuiltin, hpoint]
  cases v.kind with
  | var space _ =>
    exact ⟨h, rfl, rfl,
      ht, by simp only [defaultSpace_eq ht, VariableKind.withAccess], rfl, rfl, .nil⟩
  | _ => exact ⟨h, rfl, rfl, ht, rfl, rfl, rfl, .nil⟩

theorem pair_variableType (hc : Scene.Paired P) (h : P.node i j) (hv : P.Variables v w)
    (ht : Types P t u) : Pair P (Types P) (variableType c i v t) (variableType d j w u) := by
  unfold variableType
  simp only [Arena.Pairing.ne_zero hv.type, Arena.Pairing.ne_zero hv.initializer]
  rw [P.text hv.name, hc.fuel]
  split
  · exact (pair_types hc _).1 _ _ hv.type
  split
  · exact .pure ht
  · exact pair_refuse h _

theorem pair_makeVariable (h : P.node i j) (hv : P.Variables v w) (scope : VariableScope)
    (ht : Types P t u) : Pair P Eq (makeVariable c i v scope t) (makeVariable d j w scope u) := by
  have hmake : Pair P Eq (do
      let number := (← get).facts.vars.size
      mapFacts (·.addVariable (variableFacts c.arena i v scope t))
      return some number) (do
      let number := (← get).facts.vars.size
      mapFacts (·.addVariable (variableFacts d.arena j w scope u))
      return some number) := by
    refine Pair.get.bind fun r q hr => ?_
    refine Pair.bind (A := fun _ _ => True) (.mapFacts fun _ _ hf => ?_) fun _ _ _ => .pure ?_
    · exact hf.addVariable P.uniqueNode (variableFacts_alike h hv scope ht)
    · rw [hr.facts.size_vars]
  unfold makeVariable
  split
  · refine (pair_declareLocal hv.name h).bind fun x y hxy => ?_
    subst hxy
    rw [P.text hv.name]
    split
    · exact hmake
    · exact (pair_report h _).bind fun _ _ _ => hmake
  · exact hmake

theorem pair_useGlobal (number : VariableId) :
    Pair P (fun _ _ => True) (useGlobal number) (useGlobal number) := by
  refine Pair.get.bind fun r q hr => ?_
  rcases rel_cases hr.function with ⟨h₁, h₂⟩ | ⟨x, y, h₁, h₂, hxy⟩
  · rw [h₁, h₂]
    exact .pure trivial
  rw [h₁, h₂, hr.seenGlobals]
  dsimp only
  split
  · exact .pure trivial
  refine Pair.bind (A := fun _ _ => True) (.modify fun _ _ hr => ?_) fun _ _ _ =>
    pair_updateFunction hxy fun f g hf => ?_
  · exact { hr with seenGlobals := by rw [hr.seenGlobals] }
  · exact { hf with directGlobals := by rw [hf.directGlobals] }

theorem pair_useVariable (h : P.node i j) {e f : ExprFacts} (he : e.Alike P.node f)
    (number : VariableId) : Pair P (Types P) (useVariable i e number) (useVariable j f number) := by
  refine Pair.get.bind fun r q hr => ?_
  rcases rel_cases (hr.facts.vars number) with ⟨h₁, h₂⟩ | ⟨v, w, h₁, h₂, hv⟩
  · rw [h₁, h₂]
    exact .pure .none
  rw [h₁, h₂]
  refine (pair_setExpr (e := { e with variableId := some number, type := v.type })
    (f := { f with variableId := some number, type := w.type }) h ⟨hv.type, he.stmt, rfl, he.target,
      he.builtin, he.member, he.swizzle⟩).bind fun _ _ _ => ?_
  refine Pair.bind (A := fun _ _ => True) (.mapFacts fun x y hf => ?_) fun _ _ _ => ?_
  · refine { hf with vars := fun n => ?_ }
    rw [Array.getElem?_modify, Array.getElem?_modify]
    split
    · exact rel_map (hf.vars n) fun v w hv =>
        { hv with users := forall₂_append hv.users (.cons h .nil) }
    · exact hf.vars n
  rw [hv.scope]
  split
  · exact (pair_useGlobal number).bind fun _ _ _ => .pure hv.type
  · exact .pure hv.type

theorem pair_useCallee (h : P.node i j) : Pair P (fun _ _ => True) (useCallee i) (useCallee j) := by
  refine Pair.get.bind fun r q hr => ?_
  rcases rel_cases hr.function with ⟨h₁, h₂⟩ | ⟨x, y, h₁, h₂, hxy⟩
  · rw [h₁, h₂]
    exact .pure trivial
  rw [h₁, h₂, contains_eq_of_forall₂ P.uniqueNode hr.seenCallees h]
  dsimp only
  split
  · exact .pure trivial
  refine Pair.bind (A := fun _ _ => True) (.modify fun _ _ hr => ?_) fun _ _ _ =>
    pair_updateFunction hxy fun f g hf => ?_
  · exact { hr with seenCallees := .cons h hr.seenCallees }
  · exact { hf with callees := forall₂_append hf.callees (.cons h .nil) }

end Variables

section Expressions

variable {e f : ExprFacts}

theorem binaryType_alike (op : BinaryOp) {l l' r r' : Option Ty} (hl : Types P l l')
    (hr : Types P r r') : Types P (binaryType op l r) (binaryType op l' r') := by
  cases hl with
  | none =>
    cases hr <;> exact .none
  | some hl =>
    cases hr with
    | none => exact .none
    | some hr =>
      unfold binaryType
      dsimp only
      split
      · cases hl with
        | vector w _ => exact Option.Rel.some (Ty.Alike.vector w .bool)
        | _ => exact Option.Rel.some Ty.Alike.bool
      split
      · exact .some .bool
      have hl' := hl
      cases hl with
      | matrix _ _ he =>
        cases hr with
        | vector _ hf =>
          dsimp only
          split
          · exact .some (.vector _ hf)
          · exact .some hl'
        | _ => exact .some hl'
      | vector _ he =>
        cases hr with
        | matrix _ _ hf =>
          dsimp only
          split
          · exact .some (.vector _ he)
          · exact .some hl'
        | _ => exact .some hl'
      | _ =>
        cases hr with
        | vector _ hf => exact .some (.vector _ hf)
        | matrix _ _ hf => exact .some (.matrix _ _ hf)
        | _ => exact .some hl'

/-- Builtin functions have no structures for results of their own. -/
theorem fixed_alike {R : NodeId → NodeId → Prop} {name : String} {t : Ty}
    (h : builtinRule? name = some (.fixed t)) : t.Alike R t := by
  unfold builtinRule? at h
  repeat' split at h
  all_goals cases h
  all_goals repeat constructor

theorem result_alike {name : String} {rule : BuiltinRule} (hrule : builtinRule? name = some rule)
    {ts us : List (Option Ty)} (h : List.Forall₂ (Types P) ts us) :
    Types P (rule.result ts) (rule.result us) := by
  have hhead : Types P (ts.head?.getD none) (us.head?.getD none) := by
    cases h with
    | nil => exact .none
    | cons h _ => exact h
  cases rule with
  | firstArgument => exact hhead
  | elementOfFirst =>
    refine rel_map hhead fun _ _ h => ?_
    have h' := h
    cases h <;> assumption
  | fixed t => exact .some (fixed_alike hrule)
  | texel =>
    simp only [BuiltinRule.result]
    generalize ts.head?.getD none = t at hhead
    generalize us.head?.getD none = u at hhead
    cases hhead with
    | none => exact .some (.vector 4 .f32)
    | some h =>
      cases h with
      | sampledTexture _ he => exact Option.Rel.some (Ty.Alike.vector 4 he)
      | _ => exact Option.Rel.some (Ty.Alike.vector 4 .f32)
  | truthLike =>
    simp only [BuiltinRule.result]
    generalize ts.head?.getD none = t at hhead
    generalize us.head?.getD none = u at hhead
    cases hhead with
    | none => exact .some .bool
    | some h =>
      cases h with
      | vector w _ => exact Option.Rel.some (Ty.Alike.vector w .bool)
      | _ => exact Option.Rel.some Ty.Alike.bool

theorem pair_callBuiltin (h : P.node i j) (he : e.Alike P.node f) (name : String)
    {ts us : List (Option Ty)} (hts : List.Forall₂ (Types P) ts us) :
    Pair P (Types P) (callBuiltin c i e name ts) (callBuiltin d j f name us) := by
  unfold callBuiltin
  cases hrule : builtinRule? name with
  | none => exact pair_refuse h _
  | some rule =>
    exact pair_finish h ⟨result_alike hrule hts, he.stmt, he.variableId, he.target, rfl,
      he.member, he.swizzle⟩

theorem pair_callFunction (h : P.node i j) (he : e.Alike P.node f) (name : String) {k l : NodeId}
    (hkl : P.node k l) :
    Pair P (Types P) (callFunction c i e name k) (callFunction d j f name l) := by
  refine Pair.get.bind fun r q hr => ?_
  rcases rel_cases (hr.facts.functions k l hkl) with ⟨h₁, h₂⟩ | ⟨x, y, h₁, h₂, hxy⟩
  · rw [h₁, h₂]
    exact pair_refuse h _
  rw [h₁, h₂]
  refine (pair_finish (e := { e with target := some k, type := x.returnType })
    (f := { f with target := some l, type := y.returnType }) h
    ⟨hxy.returnType, he.stmt, he.variableId, .some hkl, he.builtin, he.member, he.swizzle⟩).bind
    fun t u ht => (pair_useCallee hkl).bind fun _ _ _ => .pure ht

/-- Alike results of what may go wrong: the same message, or alike values. -/
def Outcomes {α β : Type} (A : α → β → Prop) (x : Except String α) (y : Except String β) : Prop :=
  (∃ m, x = .error m ∧ y = .error m) ∨ ∃ a b, x = .ok a ∧ y = .ok b ∧ A a b

theorem text_eq {R : NodeId → NodeId → Prop} {t u : Ty} (h : t.Alike R u) : t.text = u.text := by
  induction h with
  | array count _ ih => by_cases h0 : count = 0 <;> simp [Ty.text, ih, h0]
  | _ => simp_all [Ty.text]

theorem indexed_alike {t u : Ty} (h : t.Alike P.node u) :
    Outcomes (Ty.Alike P.node) (indexed t) (indexed u) := by
  have htext := text_eq h
  cases h with
  | vector _ he => exact .inr ⟨_, _, rfl, rfl, he⟩
  | matrix _ _ he => exact .inr ⟨_, _, rfl, rfl, .vector _ he⟩
  | array _ he => exact .inr ⟨_, _, rfl, rfl, he⟩
  | _ => exact .inl ⟨_, rfl,
      congrArg (fun t => Except.error s!"cannot index a value of type {t}") htext.symm⟩

theorem find_member {xs ys : List MemberFacts} (h : List.Forall₂ (MemberFacts.Alike P.node) xs ys)
    (name : String) :
    Option.Rel (MemberFacts.Alike P.node) (xs.find? (·.name == name))
    (ys.find? (·.name == name)) := by
  induction h with
  | nil => exact .none
  | cons hxy _ ih =>
    rw [List.find?_cons, List.find?_cons, hxy.name]
    split
    · exact .some hxy
    · exact ih

theorem selected_alike {x y : Facts} (hxy : x.Alike P.node y) (name : String) {t u : Ty}
    (h : t.Alike P.node u) :
    Outcomes (fun g g' => ∀ e f, ExprFacts.Alike P.node e f → ExprFacts.Alike P.node (g e) (g' f))
      (selected x name t) (selected y name u) := by
  have htext := text_eq h
  cases h with
  | @struct k l structName hkl =>
    have hmember : Option.Rel (MemberFacts.Alike P.node) (x.structs[k]?.bind (·.member? name))
        (y.structs[l]?.bind (·.member? name)) :=
      rel_bind (hxy.structs k l hkl) fun _ _ hs => find_member hs.members name
    unfold selected
    dsimp only
    rcases rel_cases hmember with ⟨h₁, h₂⟩ | ⟨m, n, h₁, h₂, hm⟩
    · rw [h₁, h₂]
      exact .inl ⟨_, rfl, rfl⟩
    · rw [h₁, h₂]
      exact .inr ⟨_, _, rfl, rfl, fun e f he =>
        ⟨hm.type, he.stmt, he.variableId, he.target, he.builtin, .some hm, he.swizzle⟩⟩
  | vector width hel =>
    unfold selected
    dsimp only
    split
    · exact .inr ⟨_, _, rfl, rfl, fun e f he =>
        ⟨.some hel, he.stmt, he.variableId, he.target, he.builtin, he.member, rfl⟩⟩
    · exact .inr ⟨_, _, rfl, rfl, fun e f he =>
        ⟨.some (.vector _ hel), he.stmt, he.variableId, he.target, he.builtin, he.member, rfl⟩⟩
    · exact .inl ⟨_, rfl, rfl⟩
  | _ =>
    exact .inl ⟨_, rfl, congrArg (fun t => Except.error s!"type {t} has no members") htext.symm⟩

theorem pair_expressions (hc : Scene.Paired P) (n : Nat) :
    (∀ i j, P.node i j → Pair P (Types P) (expr c n i) (expr d n j)) ∧
    (∀ i j e f k l xs ys, P.node i j → ExprFacts.Alike P.node e f → P.node k l →
      List.Forall₂ P.node xs ys →
      Pair P (Types P) (call c n i e k xs) (call d n j f l ys)) ∧
    ∀ i j v w scope, P.node i j → P.Variables v w →
      Pair P Eq (resolveVariable c n i v scope) (resolveVariable d n j w scope) := by
  induction n with
  | zero =>
    refine ⟨fun i j h => ?_, fun i j _ _ _ _ _ _ h _ _ _ => ?_, fun i j _ _ _ h _ => ?_⟩
    · unfold expr
      exact pair_refuse h _
    · unfold call
      exact pair_refuse h _
    · unfold resolveVariable
      exact (pair_refuse h _).bind fun _ _ _ => .pure rfl
  | succ n ih =>
    obtain ⟨ihExpr, ihCall, ihVar⟩ := ih
    refine ⟨fun i j h => ?_, fun i j e f k l xs ys h he hkl hxs => ?_, fun i j v w scope h hv => ?_⟩
    · unfold expr
      rcases Arena.Pairing.shape? h with ⟨rfl, rfl⟩ | ⟨⟨hi, hj⟩, s, u, access, hs, hu, hrel⟩
      · exact .pure .none
      rw [if_neg hi, if_neg hj, hs, hu]
      refine Pair.get.bind fun r q hr => ?_
      have he : ExprFacts.Alike P.node { stmt := r.stmt } { stmt := q.stmt } :=
        ⟨.none, hr.stmt, rfl, .none, rfl, .none, rfl⟩
      refine (pair_setExpr h he).bind fun _ _ _ => ?_
      cases hrel with
      | ident hname =>
        dsimp only [Shape.withAccess]
        refine (pair_lookup hc hname).bind fun x y hxy => ?_
        rw [P.text hname]
        cases hxy with
        | none => exact pair_refuse h _
        | @some x y hdecl =>
          refine Pair.get.bind fun r q hr => ?_
          rw [eq_of_rel (hr.facts.latest x y hdecl)]
          generalize q.facts.latest[y]? = found
          cases found with
          | some number => exact pair_useVariable h he number
          | none =>
            rcases rel_cases (Arena.Pairing.asVariable? hdecl) with ⟨h₁, h₂⟩ | ⟨v, w, h₁, h₂, hv⟩
            · rw [h₁, h₂]
              exact pair_refuse h _
            · rw [h₁, h₂]
              refine (ihVar _ _ v w .global hdecl hv).bind fun x y hxy => ?_
              subst hxy
              cases x with
              | none => exact .pure .none
              | some number => exact pair_useVariable h he number
      | int => exact pair_finish h (he.typed (.some (by split <;> constructor)))
      | float => exact pair_finish h (he.typed (.some .f32))
      | boolean => exact pair_finish h (he.typed (.some .bool))
      | binary hl hr' =>
        refine (ihExpr _ _ hl).bind fun _ _ hl => (ihExpr _ _ hr').bind fun _ _ hr => ?_
        exact pair_finish h (he.typed (binaryType_alike _ hl hr))
      | unary ho => exact (ihExpr _ _ ho).bind fun _ _ ht => pair_finish h (he.typed ht)
      | call ht has => exact ihCall _ _ _ _ _ _ _ _ h he ht has
      | index ho hi' =>
        refine (ihExpr _ _ ho).bind fun _ _ ht => (ihExpr _ _ hi').bind fun _ _ _ => ?_
        cases ht with
        | none => exact .pure .none
        | some ht =>
          rcases indexed_alike ht with ⟨m, h₁, h₂⟩ | ⟨x, y, h₁, h₂, hxy⟩
          · rw [Option.map_some, Option.map_some, h₁, h₂]
            exact pair_refuse h _
          · rw [Option.map_some, Option.map_some, h₁, h₂]
            exact pair_finish h (he.typed (.some hxy))
      | member ho hname =>
        dsimp only [Shape.withAccess]
        rw [P.text hname]
        refine (ihExpr _ _ ho).bind fun _ _ ht => Pair.get.bind fun r q hr => ?_
        cases ht with
        | none => exact .pure .none
        | some ht =>
          rcases selected_alike hr.facts (d.arena.nameOf _) ht with ⟨m, h₁, h₂⟩
            | ⟨x, y, h₁, h₂, hxy⟩
          · rw [Option.map_some, Option.map_some, h₁, h₂]
            exact pair_refuse h _
          · rw [Option.map_some, Option.map_some, h₁, h₂]
            exact pair_finish h (hxy _ _ he)
      | _ =>
        refine Pair.bind (A := fun _ _ => True) (.mapFacts fun _ _ hf => ?_) fun _ _ _ =>
          pair_refuse h _
        exact { hf with exprs := hf.exprs.erase P.uniqueNode h }
    · unfold call
      refine (Pair.mapM hxs fun x y hxy => ihExpr x y hxy).bind fun ts us hts => ?_
      rcases Arena.Pairing.shape? hkl with ⟨rfl, rfl⟩ | ⟨_, s, u, access, hs, hu, hrel⟩
      · exact pair_refuse h _
      rw [hs, hu]
      have htype : Pair P (Types P) (do finish i { e with type := ← type c c.fuel k })
          (do finish j { f with type := ← type d d.fuel l }) := by
        rw [hc.fuel]
        exact ((pair_types hc _).1 k l hkl).bind fun _ _ ht => pair_finish h (he.typed ht)
      cases hrel
      case ident s t hname =>
        dsimp only [Shape.withAccess]
        rw [P.text hname]
        rcases rel_cases (Arena.Pairing.find? hc.module hname) with ⟨h₁, h₂⟩ | ⟨x, y, h₁, h₂, hxy⟩
        · rw [h₁, h₂]
          exact pair_callBuiltin h he _ hts
        rw [h₁, h₂]
        have hdecl : Pair P (Types P) (do finish i { e with type := ← typeDecl c c.fuel x })
            (do finish j { f with type := ← typeDecl d d.fuel y }) := by
          rw [hc.fuel]
          exact ((pair_types hc _).2 x y hxy).bind fun _ _ ht => pair_finish h (he.typed ht)
        rcases Arena.Pairing.shape? hxy with ⟨rfl, rfl⟩ | ⟨_, s, u, access, hs, hu, hrel⟩
        · exact pair_callBuiltin h he _ hts
        dsimp only
        rw [hs, hu]
        cases hrel with
        | function => exact pair_callFunction h he _ hxy
        | struct => exact hdecl
        | typeAlias => exact hdecl
        | _ => exact pair_callBuiltin h he _ hts
      case bool | i32 | u32 | f32 | vector | matrix | array | sampler | sampledTexture
        | externalTexture | named => exact htype
      all_goals exact pair_refuse h _
    · unfold resolveVariable
      refine (ihExpr _ _ hv.initializer).bind fun t u ht => ?_
      exact (pair_variableType hc h hv ht).bind fun t u ht => pair_makeVariable h hv scope ht

end Expressions

section Statements

variable {one two : NodeId → Bool → Resolve Behaviors}

theorem pair_setStmt (h : P.node i j) (reachable : Bool) :
    Pair P (fun _ _ => True) (setStmt i reachable) (setStmt j reachable) :=
  .modify fun _ _ hr => { hr with
    facts :=
      { hr.facts with stmts := hr.facts.stmts.insert P.uniqueNode h ⟨hr.function, rfl, rfl⟩ } }

theorem pair_setBehaviors (h : P.node i j) (b : Behaviors) :
    Pair P (fun _ _ => True) (setBehaviors i b) (setBehaviors j b) :=
  .mapFacts fun _ _ hf =>
    { hf with stmts := hf.stmts.modify P.uniqueNode h fun _ _ hs => { hs with behaviors := rfl } }

theorem pair_inOrder (hone : ∀ i j live, P.node i j → Pair P Eq (one i live) (two j live))
    (reachable : Bool) {xs ys : List NodeId} (h : List.Forall₂ P.node xs ys) (sofar : Behaviors) :
    Pair P Eq (inOrder one reachable xs sofar) (inOrder two reachable ys sofar) := by
  induction h generalizing sofar with
  | nil => exact .pure rfl
  | cons hxy _ ih =>
    refine (hone _ _ _ hxy).bind fun b b' hb => ?_
    subst hb
    exact ih _

theorem pair_localVariable (hc : Scene.Paired P) (h : P.node i j) :
    Pair P (fun _ _ => True) (localVariable c i) (localVariable d j) := by
  unfold localVariable
  rcases rel_cases (Arena.Pairing.asVariable? h) with ⟨h₁, h₂⟩ | ⟨v, w, h₁, h₂, hv⟩
  · rw [h₁, h₂]
    exact .pure trivial
  · rw [h₁, h₂, hc.fuel]
    exact ((pair_expressions hc _).2.2 i j v w .local h hv).bind fun _ _ _ => .pure trivial

theorem pair_openBody (hone : ∀ i j live, P.node i j → Pair P Eq (one i live) (two j live))
    (h : P.node i j) (reachable : Bool) :
    Pair P Eq (openBody c one i reachable) (openBody d two j reachable) := by
  unfold openBody
  rcases rel_cases (Arena.Pairing.block? h) with ⟨h₁, h₂⟩ | ⟨xs, ys, h₁, h₂, hxs⟩
  · rw [h₁, h₂]
    exact .pure rfl
  · rw [h₁, h₂]
    refine (pair_setStmt h reachable).bind fun _ _ _ =>
      (pair_inOrder hone reachable hxs _).bind fun b b' hb => ?_
    subst hb
    exact (pair_setBehaviors h b).bind fun _ _ _ => .pure rfl

theorem pair_inside (hc : Scene.Paired P)
    (hone : ∀ i j live, P.node i j → Pair P Eq (one i live) (two j live)) (h : P.node i j)
    (reachable : Bool) {s u : Shape Symbol NodeId} {access : Access} (hrel : P.Shapes s u) :
    Pair P Eq (inside c one i reachable (some s))
    (inside d two j reachable (some (u.withAccess access))) := by
  have hexpr : ∀ {k l}, P.node k l →
      Pair P (fun _ _ => True) (expr c c.fuel k) (expr d d.fuel l) := by
    intro k l hkl
    rw [hc.fuel]
    exact ((pair_expressions hc _).1 k l hkl).mono fun _ _ _ => trivial
  cases hrel with
  | block hss =>
    refine pair_pushFrame.bind fun _ _ _ =>
      (pair_inOrder hone reachable hss _).bind fun b b' hb => ?_
    exact pair_popFrame.bind fun _ _ _ => .pure hb
  | varDecl hv => exact (pair_localVariable hc hv).bind fun _ _ _ => .pure rfl
  | assign hl hr => exact (hexpr hl).bind fun _ _ _ => (hexpr hr).bind fun _ _ _ => .pure rfl
  | increment hl => exact (hexpr hl).bind fun _ _ _ => .pure rfl
  | callStatement he => exact (hexpr he).bind fun _ _ _ => .pure rfl
  | ifElse hcond hb he =>
    refine (hexpr hcond).bind fun _ _ _ => (hone _ _ reachable hb).bind fun b b' hb => ?_
    exact (hone _ _ reachable he).bind fun e e' he => .pure (by rw [hb, he])
  | forLoop hi hcond ht hb =>
    refine pair_pushFrame.bind fun _ _ _ => (hone _ _ reachable hi).bind fun _ _ _ =>
      (hexpr hcond).bind fun _ _ _ => ?_
    refine (hone _ _ reachable hb).bind fun b b' hb => (hone _ _ reachable ht).bind fun _ _ _ => ?_
    refine pair_popFrame.bind fun _ _ _ => .pure ?_
    rw [hb]
    simp only [Arena.Pairing.ne_zero hcond]
  | whileLoop hcond hb =>
    exact (hexpr hcond).bind fun _ _ _ => (hone _ _ reachable hb).bind fun b b' hb =>
      .pure (by rw [hb])
  | loop hb ht =>
    refine pair_pushFrame.bind fun _ _ _ => (pair_openBody hone hb reachable).bind fun b b' hb => ?_
    refine (hone _ _ reachable ht).bind fun _ _ _ => pair_popFrame.bind fun _ _ _ =>
      .pure (by rw [hb])
  | breakLoop => exact .pure rfl
  | continueLoop => exact .pure rfl
  | discard => exact .pure rfl
  | ret hv => exact (hexpr hv).bind fun _ _ _ => .pure rfl
  | _ => exact (pair_report h _).bind fun _ _ _ => .pure rfl

theorem pair_statement (hc : Scene.Paired P) (n : Nat) (h : P.node i j) (reachable : Bool) :
    Pair P Eq (statement c n i reachable) (statement d n j reachable) := by
  induction n generalizing i j reachable with
  | zero =>
    unfold statement
    exact (pair_refuse h _).bind fun _ _ _ => .pure rfl
  | succ n ih =>
    unfold statement
    rcases Arena.Pairing.shape? h with ⟨rfl, rfl⟩ | ⟨⟨hi, hj⟩, s, u, access, hs, hu, hrel⟩
    · exact .pure rfl
    rw [if_neg hi, if_neg hj, hs, hu]
    refine Pair.get.bind fun r q hr => ?_
    refine Pair.bind (A := fun _ _ => True) (.modify fun _ _ hr => { hr with stmt := h })
      fun _ _ _ => ?_
    refine (pair_setStmt h reachable).bind fun _ _ _ => ?_
    refine (pair_inside hc (fun _ _ live h => ih h live) h reachable hrel).bind fun b b' hb => ?_
    subst hb
    refine (pair_setBehaviors h b).bind fun _ _ _ => ?_
    exact Pair.bind (A := fun _ _ => True) (.modify fun _ _ hr' => { hr' with stmt := hr.stmt })
      fun _ _ _ => .pure rfl

end Statements

section Modules

theorem pair_declaration (hc : Scene.Paired P) (h : P.node i j) :
    Pair P (fun _ _ => True) (declaration c i) (declaration d j) := by
  unfold declaration
  rcases Arena.Pairing.shape? h with ⟨rfl, rfl⟩ | ⟨_, s, u, access, hs, hu, hrel⟩
  · exact .pure trivial
  rw [hs, hu]
  have hdecl : Pair P (fun _ _ => True) (do let _ ← typeDecl c c.fuel i)
      (do let _ ← typeDecl d d.fuel j) := by
    rw [hc.fuel]
    exact ((pair_types hc _).2 i j h).bind fun _ _ _ => .pure trivial
  cases hrel with
  | struct => exact hdecl
  | typeAlias => exact hdecl
  | @value k s s' t t' e e' as as' hname ht hi has =>
    refine Pair.get.bind fun r q hr => ?_
    rw [Std.TreeMap.contains_eq_isSome_getElem?, Std.TreeMap.contains_eq_isSome_getElem?,
      isSome_eq_of_rel (hr.facts.latest i j h)]
    split
    · exact .pure trivial
    · rw [hc.fuel]
      exact ((pair_expressions hc _).2.2 i j _ _ .global h ⟨⟨access, rfl⟩, hname, ht, hi, has⟩).bind
        fun _ _ _ => .pure trivial
  | _ => exact .pure trivial

variable {f g : FunctionShape Symbol NodeId}

theorem pair_signature (hc : Scene.Paired P) (h : P.node i j) (hf : P.Functions f g) :
    Pair P (fun _ _ => True) (signature c i f) (signature d j g) := by
  unfold signature
  rw [P.text hf.name, Arena.Pairing.stageOf hf.attributes, Arena.Pairing.workgroupOf hf.attributes]
  simp only [Arena.Pairing.ne_zero hf.returnType]
  refine Pair.bind (A := fun _ _ => True) (.mapFacts fun _ _ hx => ?_) fun _ _ _ => ?_
  · have hnew : FunctionFacts.Alike P.node { decl := i, name := d.arena.nameOf g.name }
        { decl := j, name := d.arena.nameOf g.name } :=
      ⟨h, rfl, rfl, rfl, rfl, .some .void, rfl, rfl, rfl, .nil, .nil⟩
    exact { hx with functions := hx.functions.insert P.uniqueNode h hnew }
  have hend : ∀ t u, Types P t u → Pair P (fun _ _ => True)
      (updateFunction i fun x => { x with
        returnType := t
        stage := stageOf d.arena g.attributes
        workgroup := workgroupOf d.arena g.attributes })
      (updateFunction j fun x => { x with
        returnType := u
        stage := stageOf d.arena g.attributes
        workgroup := workgroupOf d.arena g.attributes }) := fun t u ht =>
    pair_updateFunction h fun _ _ hx => { hx with returnType := ht, stage := rfl, workgroup := rfl }
  split
  · rw [hc.fuel]
    exact ((pair_types hc _).1 _ _ hf.returnType).bind hend
  · exact (Pair.pure (.some .void)).bind hend

theorem pair_parameter (hc : Scene.Paired P) {k l : NodeId} (hkl : P.node k l) (h : P.node i j) :
    Pair P (fun _ _ => True) (parameter c k i) (parameter d l j) := by
  unfold parameter
  rcases rel_cases (Arena.Pairing.asVariable? h) with ⟨h₁, h₂⟩ | ⟨v, w, h₁, h₂, hv⟩
  · rw [h₁, h₂]
    exact pair_report h _
  · rw [h₁, h₂]
    obtain ⟨access, hkind⟩ := hv.kind
    simp only [hkind, VariableKind.withAccess_eq_parameter]
    split
    · rw [hc.fuel]
      refine ((pair_expressions hc _).2.2 i j v w .parameter h hv).bind fun x y hxy => ?_
      subst hxy
      exact pair_updateFunction hkl fun _ _ hx => { hx with params := by rw [hx.params] }
    · exact pair_report h _

theorem pair_body (hc : Scene.Paired P) (h : P.node i j) (hf : P.Functions f g) :
    Pair P (fun _ _ => True) (body c i f) (body d j g) := by
  unfold body
  refine Pair.bind (A := fun _ _ => True) (.modify fun _ _ hr => ?_) fun _ _ _ => ?_
  · exact { hr with function := .some h, seenGlobals := rfl, seenCallees := .nil,
                    frames := .cons .nil .nil }
  refine (Pair.forM hf.params fun _ _ hp => pair_parameter hc h hp).bind fun _ _ _ => ?_
  rw [hc.fuel]
  refine (pair_statement hc _ hf.body true).bind fun b b' hb => ?_
  subst hb
  refine Pair.bind (A := fun _ _ => True) ?_ fun _ _ _ => ?_
  · exact pair_updateFunction h fun _ _ hx => { hx with behaviors := rfl }
  exact .modify fun _ _ hr => { hr with function := .none, frames := .nil }

/-- The loop over the functions of a module goes in step if what it does for each of them does. -/
theorem pair_each {one : NodeId → FunctionShape Symbol NodeId → Resolve Unit}
    {two : NodeId → FunctionShape Symbol NodeId → Resolve Unit}
    (hone : ∀ i j f g, P.node i j → P.Functions f g → Pair P (fun _ _ => True) (one i f) (two j g))
    {gs hs : List NodeId} (h : List.Forall₂ P.node gs hs) :
    Pair P (fun _ _ => True)
      (for id in gs do if let some f := c.arena.function? id then one id f)
      (for id in hs do if let some f := d.arena.function? id then two id f) := by
  refine Pair.forIn h fun i j hij => ?_
  rcases rel_cases (Arena.Pairing.function? hij) with ⟨h₁, h₂⟩ | ⟨f, g, h₁, h₂, hfg⟩
  · rw [h₁, h₂]
    exact .pure ⟨rfl, rfl⟩
  · rw [h₁, h₂]
    exact (hone i j f g hij hfg).bind fun _ _ _ => .pure ⟨rfl, rfl⟩

theorem pair_module (hc : Scene.Paired P) {gs hs : List NodeId} (h : List.Forall₂ P.node gs hs) :
    Pair P (fun _ _ => True) (module c gs) (module d hs) := by
  unfold module
  refine (Pair.forIn h fun i j hij => ?_).bind fun _ _ _ => ?_
  · rcases rel_cases (Arena.Pairing.function? hij) with ⟨h₁, h₂⟩ | ⟨f, g, h₁, h₂, -⟩
    · rw [h₁, h₂]
      exact (pair_declaration hc hij).bind fun _ _ _ => .pure ⟨rfl, rfl⟩
    · rw [h₁, h₂]
      exact .pure ⟨rfl, rfl⟩
  refine (pair_each (fun i j f g hij hfg => pair_signature hc hij hfg) h).bind fun _ _ _ => ?_
  refine (pair_each (fun i j f g hij hfg => pair_body hc hij hfg) h).bind fun _ _ _ => ?_
  exact .mapFacts fun _ _ hxy => Facts.Alike.summarize P.uniqueNode h hxy

end Modules

/-- Names are taken into alike frames, with the same complaints. -/
theorem collect_alike {a b : Arena} {P : a.Pairing b} {gs hs : List NodeId}
    (h : List.Forall₂ P.node gs hs) {x y : Frame × Diagnostics}
    (hxy : P.Frames x.1 y.1 ∧ x.2 = y.2) :
    P.Frames (gs.foldl (collect a) x).1 (hs.foldl (collect b) y).1 ∧
      (gs.foldl (collect a) x).2 = (hs.foldl (collect b) y).2 := by
  induction h generalizing x y with
  | nil => exact hxy
  | @cons i j _ _ hij _ ih =>
    refine ih ?_
    unfold collect
    dsimp only
    rw [Arena.Pairing.spanOf hij, hxy.2]
    rcases rel_cases (Arena.Pairing.declName? hij) with ⟨h₁, h₂⟩ | ⟨s, t, h₁, h₂, hst⟩
    · rw [h₁, h₂]
      exact ⟨hxy.1, rfl⟩
    · rw [h₁, h₂]
      dsimp only
      rw [isSome_eq_of_rel (Arena.Pairing.find? hxy.1 hst), P.text hst]
      split
      · exact ⟨hxy.1, rfl⟩
      · exact ⟨forall₂_append hxy.1 (.cons ⟨hst, hij⟩ .nil), rfl⟩

end Resolve

/-- Modules that are alike get the same facts and the same complaints. -/
theorem resolve_alike {a b : Arena} (P : a.Pairing b) {gs hs : List NodeId}
    (h : List.Forall₂ P.node gs hs) (held : Nat) :
    Facts.Alike P.node (resolve a gs held).1 (resolve b hs held).1 ∧
      (resolve a gs held).2 = (resolve b hs held).2 := by
  obtain ⟨hframe, hds⟩ := Resolve.collect_alike h (x := ([], [])) (y := ([], [])) ⟨.nil, rfl⟩
  let c : Scene := ⟨a, (gs.foldl (Resolve.collect a) ([], [])).1, (held + 2) * (held + 2)⟩
  let d : Scene := ⟨b, (hs.foldl (Resolve.collect b) ([], [])).1, (held + 2) * (held + 2)⟩
  have hc : Scene.Paired (c := c) (d := d) P := ⟨hframe, rfl⟩
  have hstart : Resolver.Alike P { diagnostics := (gs.foldl (Resolve.collect a) ([], [])).2 }
      { diagnostics := (hs.foldl (Resolve.collect b) ([], [])).2 } :=
    ⟨.empty, hds, .nil, .none, P.zero, .nil, rfl, .nil⟩
  have hend := (Resolve.pair_module hc h _ _ hstart).2
  exact ⟨hend.facts, hend.diagnostics⟩

end ShaderLoom
