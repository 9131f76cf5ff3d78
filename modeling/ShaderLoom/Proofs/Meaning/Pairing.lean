import Mathlib.Data.List.Forall2
import Mathlib.Logic.Relator
import ShaderLoom.Meaning.Module
import ShaderLoom.Proofs.Shape

/-! Two arenas that hold the same module under different numbers: which of their nodes, symbols and
facts stand for each other, and that what is read off the ones is read off the others too. -/
namespace ShaderLoom

namespace VariableKind

/-- The kind with another access mode. -/
def withAccess (access : Access) : VariableKind → VariableKind
  | var space _ => var space access
  | k => k

@[simp] theorem withAccess_eq_parameter {access : Access} {k : VariableKind} :
    k.withAccess access = parameter ↔ k = parameter := by
  cases k <;> simp [withAccess]

end VariableKind

namespace Shape

variable {ν μ α β : Type}

/-- The shape with another access mode, if it has one. -/
def withAccess (access : Access) : Shape ν α → Shape ν α
  | decl (.value v) => decl (.value { v with kind := v.kind.withAccess access })
  | s => s

/-- The second shape is the first one with other names, children and lists of children, and maybe
with another access mode. -/
def Like (N : ν → μ → Prop) (C : α → β → Prop) (s : Shape ν α) (t : Shape μ β) : Prop :=
  ∃ u access, Rel N C (List.Forall₂ C) s u ∧ t = u.withAccess access

end Shape

/-- Types that differ in the numbers of declarations only. -/
inductive Ty.Alike (R : NodeId → NodeId → Prop) : Ty → Ty → Prop
  | void : Alike R .void .void
  | bool : Alike R .bool .bool
  | i32 : Alike R .i32 .i32
  | u32 : Alike R .u32 .u32
  | f32 : Alike R .f32 .f32
  | vector {e f : Ty} (width : Int) : Alike R e f → Alike R (.vector e width) (.vector f width)
  | matrix {e f : Ty} (columns rows : Int) : Alike R e f →
    Alike R (.matrix e columns rows) (.matrix f columns rows)
  | array {e f : Ty} (count : Int) : Alike R e f → Alike R (.array e count) (.array f count)
  | struct {d d' : NodeId} (name : String) : R d d' → Alike R (.struct d name) (.struct d' name)
  | sampler (comparison : Bool) : Alike R (.sampler comparison) (.sampler comparison)
  | sampledTexture {e f : Ty} (dim : TextureDim) : Alike R e f →
    Alike R (.sampledTexture dim e) (.sampledTexture dim f)
  | externalTexture : Alike R .externalTexture .externalTexture

section Facts

variable (R : NodeId → NodeId → Prop)

structure VariableFacts.Alike (v w : VariableFacts) : Prop where
  decl : R v.decl w.decl
  name : v.name = w.name
  scope : v.scope = w.scope
  type : Option.Rel (Ty.Alike R) v.type w.type
  space : v.space = w.space
  builtin : v.builtin = w.builtin
  bindingPoint : v.bindingPoint = w.bindingPoint
  users : List.Forall₂ R v.users w.users

structure FunctionFacts.Alike (f g : FunctionFacts) : Prop where
  decl : R f.decl g.decl
  name : f.name = g.name
  stage : f.stage = g.stage
  workgroup : f.workgroup = g.workgroup
  params : f.params = g.params
  returnType : Option.Rel (Ty.Alike R) f.returnType g.returnType
  behaviors : f.behaviors = g.behaviors
  directGlobals : f.directGlobals = g.directGlobals
  transitiveGlobals : f.transitiveGlobals = g.transitiveGlobals
  callees : List.Forall₂ R f.callees g.callees
  ancestors : List.Forall₂ R f.ancestors g.ancestors

structure MemberFacts.Alike (m n : MemberFacts) : Prop where
  decl : R m.decl n.decl
  name : m.name = n.name
  type : Option.Rel (Ty.Alike R) m.type n.type
  index : m.index = n.index
  builtin : m.builtin = n.builtin

structure StructFacts.Alike (s t : StructFacts) : Prop where
  decl : R s.decl t.decl
  name : s.name = t.name
  members : List.Forall₂ (MemberFacts.Alike R) s.members t.members

structure ExprFacts.Alike (e f : ExprFacts) : Prop where
  type : Option.Rel (Ty.Alike R) e.type f.type
  stmt : R e.stmt f.stmt
  variableId : e.variableId = f.variableId
  target : Option.Rel R e.target f.target
  builtin : e.builtin = f.builtin
  member : Option.Rel (MemberFacts.Alike R) e.member f.member
  swizzle : e.swizzle = f.swizzle

variable {R} in
theorem ExprFacts.Alike.typed {e f : ExprFacts} (he : e.Alike R f) {t u : Option Ty}
    (ht : Option.Rel (Ty.Alike R) t u) :
    ExprFacts.Alike R { e with type := t } { f with type := u } :=
  ⟨ht, he.stmt, he.variableId, he.target, he.builtin, he.member, he.swizzle⟩

structure StmtFacts.Alike (s t : StmtFacts) : Prop where
  function : Option.Rel R s.function t.function
  behaviors : s.behaviors = t.behaviors
  reachable : s.reachable = t.reachable

/-- Tables with alike entries under the numbers of nodes that stand for each other. -/
def NodeMap.Alike {β : Type} (A : β → β → Prop) (m n : NodeMap β) : Prop :=
  ∀ i j, R i j → Option.Rel A m[i]? n[j]?

/-- The same facts about nodes that stand for each other. -/
structure Facts.Alike (f g : Facts) : Prop where
  types : NodeMap.Alike R (Ty.Alike R) f.types g.types
  exprs : NodeMap.Alike R (ExprFacts.Alike R) f.exprs g.exprs
  stmts : NodeMap.Alike R (StmtFacts.Alike R) f.stmts g.stmts
  vars : ∀ n : VariableId, Option.Rel (VariableFacts.Alike R) f.vars[n]? g.vars[n]?
  latest : NodeMap.Alike R Eq f.latest g.latest
  functions : NodeMap.Alike R (FunctionFacts.Alike R) f.functions g.functions
  structs : NodeMap.Alike R (StructFacts.Alike R) f.structs g.structs
  typeDecls : NodeMap.Alike R R f.typeDecls g.typeDecls
  entryPoints : List.Forall₂ R f.entryPoints g.entryPoints

end Facts

/-- Two arenas and which nodes and symbols of theirs stand for each other: each for one at most.
Nodes that do so have the same place, and shapes whose parts do so. -/
structure Arena.Pairing (a b : Arena) where
  node : NodeId → NodeId → Prop
  name : Symbol → Symbol → Prop
  uniqueNode : Relator.BiUnique node
  uniqueName : Relator.BiUnique name
  zero : node 0 0
  text : ∀ {s t}, name s t → a.nameOf s = b.nameOf t
  alike : ∀ {i j}, node i j → (i = 0 ∧ j = 0) ∨ ∃ n m, a.node? i = some n ∧ b.node? j = some m ∧
    n.span = m.span ∧ n.shape.Like name node m.shape

namespace Arena.Pairing

variable {a b : Arena} (P : a.Pairing b)

/-- Names of one level that stand for each other. -/
abbrev Frames (f g : Frame) : Prop := List.Forall₂ (fun x y => P.name x.1 y.1 ∧ P.node x.2 y.2) f g

end Arena.Pairing

/-- States of two resolutions that go in step. -/
structure Resolver.Alike {a b : Arena} (P : a.Pairing b) (r q : Resolver) : Prop where
  facts : Facts.Alike P.node r.facts q.facts
  diagnostics : r.diagnostics = q.diagnostics
  frames : List.Forall₂ P.Frames r.frames q.frames
  function : Option.Rel P.node r.function q.function
  stmt : P.node r.stmt q.stmt
  pending : List.Forall₂ P.node r.pending q.pending
  seenGlobals : r.seenGlobals = q.seenGlobals
  seenCallees : List.Forall₂ P.node r.seenCallees q.seenCallees

section Options

variable {α β γ δ : Type} {A : α → β → Prop} {B : γ → δ → Prop} {o : Option α} {o' : Option β}

theorem rel_cases (h : Option.Rel A o o') :
    (o = none ∧ o' = none) ∨ ∃ x y, o = some x ∧ o' = some y ∧ A x y := by
  cases h with
  | none => exact .inl ⟨rfl, rfl⟩
  | some h => exact .inr ⟨_, _, rfl, rfl, h⟩

theorem rel_map {f : α → γ} {g : β → δ} (h : Option.Rel A o o')
    (hfg : ∀ x y, A x y → B (f x) (g y)) : Option.Rel B (o.map f) (o'.map g) := by
  cases h with
  | none => exact .none
  | some h => exact .some (hfg _ _ h)

theorem rel_bind {f : α → Option γ} {g : β → Option δ} (h : Option.Rel A o o')
    (hfg : ∀ x y, A x y → Option.Rel B (f x) (g y)) : Option.Rel B (o.bind f) (o'.bind g) := by
  cases h with
  | none => exact .none
  | some h => exact hfg _ _ h

theorem isSome_eq_of_rel (h : Option.Rel A o o') : o.isSome = o'.isSome := by
  cases h <;> rfl

theorem eq_of_rel {o o' : Option α} (h : Option.Rel Eq o o') : o = o' := by
  cases h with
  | none => rfl
  | some h => rw [h]

end Options

section Lists

variable {R : NodeId → NodeId → Prop} {i j : NodeId} {xs ys : List NodeId}

theorem beq_eq_of_biUnique {α β : Type} [DecidableEq α] [DecidableEq β] {R : α → β → Prop}
    (hR : Relator.BiUnique R) {x y : α} {u v : β} (h : R x u) (h' : R y v) :
    (x == y) = (u == v) := by
  by_cases hxy : x = y
  · subst hxy
    simp [hR.2 h h']
  · have : u ≠ v := fun huv => hxy (hR.1 h (huv ▸ h'))
    simp [hxy, this]

theorem contains_eq_of_forall₂ (hR : Relator.BiUnique R) (h : List.Forall₂ R xs ys) (hij : R i j) :
    xs.contains i = ys.contains j := by
  induction h with
  | nil => rfl
  | cons hxy _ ih => rw [List.contains_cons, List.contains_cons, ih, beq_eq_of_biUnique hR hij hxy]

theorem forall₂_erase (hR : Relator.BiUnique R) (h : List.Forall₂ R xs ys) (hij : R i j) :
    List.Forall₂ R (xs.erase i) (ys.erase j) := by
  induction h with
  | nil => exact .nil
  | @cons x y _ _ hxy hrest ih =>
    rw [List.erase_cons, List.erase_cons, beq_eq_of_biUnique hR hxy hij]
    split
    · exact hrest
    · exact .cons hxy ih

theorem forall₂_append {α β : Type} {R : α → β → Prop} {xs xs' : List α} {ys ys' : List β}
    (h : List.Forall₂ R xs ys) (h' : List.Forall₂ R xs' ys') :
    List.Forall₂ R (xs ++ xs') (ys ++ ys') :=
  List.rel_append h h'

end Lists

namespace NodeMap

variable {R : NodeId → NodeId → Prop} {β : Type} {A : β → β → Prop} {m n : NodeMap β} {i j : NodeId}

theorem Alike.insert (hR : Relator.BiUnique R) (h : Alike R A m n) (hij : R i j) {x y : β}
    (hxy : A x y) : Alike R A (m.insert i x) (n.insert j y) := by
  intro k l hkl
  rw [Std.TreeMap.getElem?_insert, Std.TreeMap.getElem?_insert]
  have := beq_eq_of_biUnique hR hij hkl
  by_cases hik : i = k
  · rw [if_pos (by simpa using hik), if_pos (by simpa [hik] using this)]
    exact .some hxy
  · rw [if_neg (by simpa using hik), if_neg (by simpa [hik] using this)]
    exact h k l hkl

theorem Alike.modify (hR : Relator.BiUnique R) (h : Alike R A m n) (hij : R i j) {f g : β → β}
    (hfg : ∀ x y, A x y → A (f x) (g y)) : Alike R A (m.modify i f) (n.modify j g) := by
  intro k l hkl
  rw [Std.TreeMap.getElem?_modify, Std.TreeMap.getElem?_modify]
  have := beq_eq_of_biUnique hR hij hkl
  by_cases hik : i = k
  · rw [if_pos (by simpa using hik), if_pos (by simpa [hik] using this)]
    exact rel_map (h i j hij) hfg
  · rw [if_neg (by simpa using hik), if_neg (by simpa [hik] using this)]
    exact h k l hkl

theorem Alike.erase (hR : Relator.BiUnique R) (h : Alike R A m n) (hij : R i j) :
    Alike R A (m.erase i) (n.erase j) := by
  intro k l hkl
  rw [Std.TreeMap.getElem?_erase, Std.TreeMap.getElem?_erase]
  have := beq_eq_of_biUnique hR hij hkl
  by_cases hik : i = k
  · rw [if_pos (by simpa using hik), if_pos (by simpa [hik] using this)]
    exact .none
  · rw [if_neg (by simpa using hik), if_neg (by simpa [hik] using this)]
    exact h k l hkl

end NodeMap

namespace Facts.Alike

variable {R : NodeId → NodeId → Prop} {f g : Facts}

theorem size_vars (h : f.Alike R g) : f.vars.size = g.vars.size := by
  have hle : ∀ {f g : Facts}, (∀ n : VariableId, f.vars[n]?.isSome → g.vars[n]?.isSome) →
      f.vars.size ≤ g.vars.size := by
    intro f g hfg
    by_contra hlt
    have := hfg g.vars.size (by simpa using Nat.lt_of_not_le hlt)
    simp at this
  have hsome : ∀ n : VariableId, f.vars[n]?.isSome = g.vars[n]?.isSome :=
    fun n => isSome_eq_of_rel (h.vars n)
  exact Nat.le_antisymm (hle fun n hn => hsome n ▸ hn) (hle fun n hn => (hsome n).symm ▸ hn)

theorem addVariable (hR : Relator.BiUnique R) (h : f.Alike R g) {v w : VariableFacts}
    (hvw : v.Alike R w) : (f.addVariable v).Alike R (g.addVariable w) where
  types := h.types
  exprs := h.exprs
  stmts := h.stmts
  vars n := by
    simp only [Facts.addVariable, Array.getElem?_push, h.size_vars]
    split
    · exact .some hvw
    · exact h.vars n
  latest := by
    simp only [Facts.addVariable, h.size_vars]
    exact h.latest.insert hR hvw.decl rfl
  functions := h.functions
  structs := h.structs
  typeDecls := h.typeDecls
  entryPoints := h.entryPoints

section CallGraph

variable (hR : Relator.BiUnique R) {gs hs xs ys : List NodeId} {i j : NodeId}

theorem empty : Facts.Alike R {} {} where
  types _ _ _ := by simp
  exprs _ _ _ := by simp
  stmts _ _ _ := by simp
  vars _ := by simp
  latest _ _ _ := by simp
  functions _ _ _ := by simp
  structs _ _ _ := by simp
  typeDecls _ _ _ := by simp
  entryPoints := .nil

theorem calleesOf (h : f.Alike R g) (hij : R i j) :
    List.Forall₂ R (f.calleesOf i) (g.calleesOf j) := by
  unfold Facts.calleesOf
  rcases rel_cases (h.functions i j hij) with ⟨h₁, h₂⟩ | ⟨x, y, h₁, h₂, hxy⟩
  · rw [h₁, h₂]
    exact .nil
  · rw [h₁, h₂]
    exact hxy.callees

theorem directGlobalsOf (h : f.Alike R g) (hij : R i j) :
    f.directGlobalsOf i = g.directGlobalsOf j := by
  unfold Facts.directGlobalsOf
  rcases rel_cases (h.functions i j hij) with ⟨h₁, h₂⟩ | ⟨x, y, h₁, h₂, hxy⟩
  · rw [h₁, h₂]
  · rw [h₁, h₂]
    exact hxy.directGlobals

include hR in
theorem reachFrom {next next' : NodeId → List NodeId}
    (hnext : ∀ i j, R i j → List.Forall₂ R (next i) (next' j)) (n : Nat)
    {work work' seen seen' : List NodeId} (hwork : List.Forall₂ R work work')
    (hseen : List.Forall₂ R seen seen') :
    List.Forall₂ R (reachFrom next n work seen) (reachFrom next' n work' seen') := by
  induction n generalizing work work' seen seen' with
  | zero => exact hseen
  | succ n ih =>
    cases hwork with
    | nil => exact hseen
    | cons hij hrest =>
      rw [ShaderLoom.reachFrom, ShaderLoom.reachFrom, contains_eq_of_forall₂ hR hseen hij]
      split
      · exact ih hrest hseen
      · exact ih (forall₂_append (hnext _ _ hij) hrest) (forall₂_append hseen (.cons hij .nil))

theorem callCount (h : f.Alike R g) (hgs : List.Forall₂ R gs hs) (n : Nat) :
    gs.foldl (fun n i => n + (f.calleesOf i).length) n =
    hs.foldl (fun n i => n + (g.calleesOf i).length) n := by
  induction hgs generalizing n with
  | nil => rfl
  | cons hij _ ih =>
    rw [List.foldl_cons, List.foldl_cons, (h.calleesOf hij).length_eq]
    exact ih _

include hR in
theorem reachedFunctions (h : f.Alike R g) (hgs : List.Forall₂ R gs hs) (hij : R i j) :
    List.Forall₂ R (f.reachedFunctions gs i) (g.reachedFunctions hs j) := by
  unfold Facts.reachedFunctions
  dsimp only
  rw [h.callCount hgs 0]
  exact reachFrom hR (fun _ _ hkl => h.calleesOf hkl) _ (.cons hij .nil) .nil

theorem globalsOf (h : f.Alike R g) (hxs : List.Forall₂ R xs ys) :
    f.globalsOf xs = g.globalsOf ys := by
  have hflat : xs.flatMap f.directGlobalsOf = ys.flatMap g.directGlobalsOf := by
    induction hxs with
    | nil => rfl
    | cons hij _ ih => rw [List.flatMap_cons, List.flatMap_cons, h.directGlobalsOf hij, ih]
  rw [Facts.globalsOf, Facts.globalsOf, hflat]

include hR in
theorem forall₂_filter_ne (hij : R i j) (hxs : List.Forall₂ R xs ys) :
    List.Forall₂ R (xs.filter (· != i)) (ys.filter (· != j)) := by
  induction hxs with
  | nil => exact .nil
  | cons hxy _ ih =>
    rw [List.filter_cons, List.filter_cons, bne, bne, beq_eq_of_biUnique hR hxy hij]
    split
    · exact .cons hxy ih
    · exact ih

include hR in
theorem summarizeOne (hgs : List.Forall₂ R gs hs) (h : f.Alike R g) (hij : R i j) :
    (f.summarizeOne gs i).Alike R (g.summarizeOne hs j) := by
  unfold Facts.summarizeOne
  rcases rel_cases (h.functions i j hij) with ⟨h₁, h₂⟩ | ⟨x, y, h₁, h₂, hxy⟩
  · rw [h₁, h₂]
    exact h
  rw [h₁, h₂]
  dsimp only
  have hreached := Facts.Alike.reachedFunctions hR h hgs hij
  generalize f.reachedFunctions gs i = reached at hreached ⊢
  generalize g.reachedFunctions hs j = reached' at hreached ⊢
  rw [h.globalsOf hreached]
  have hsummary := h.functions.modify hR hij (f := fun x => { x with
      transitiveGlobals := x.transitiveGlobals ++ g.globalsOf reached' })
    (g := fun x => { x with transitiveGlobals := x.transitiveGlobals ++ g.globalsOf reached' })
    fun x y hxy => { hxy with transitiveGlobals := by rw [hxy.transitiveGlobals] }
  have hstage : x.isEntryPoint = y.isEntryPoint := by
    rw [FunctionFacts.isEntryPoint, hxy.stage, FunctionFacts.isEntryPoint]
  rw [hstage]
  split
  · refine { h with functions := ?_, entryPoints := forall₂_append h.entryPoints (.cons hij .nil) }
    -- every function that is reached is told, one after another
    have htold := forall₂_filter_ne hR hij hreached
    generalize reached.filter (· != i) = told at htold ⊢
    generalize reached'.filter (· != j) = told' at htold ⊢
    generalize Std.TreeMap.modify f.functions i _ = fs at hsummary ⊢
    generalize Std.TreeMap.modify g.functions j _ = fs' at hsummary ⊢
    induction htold generalizing fs fs' with
    | nil => exact hsummary
    | cons hkl _ ih =>
      exact ih _ _ (hsummary.modify hR hkl fun x y hxy =>
        { hxy with ancestors := forall₂_append hxy.ancestors (.cons hij .nil) })
  · exact { h with functions := hsummary }

include hR in
theorem summarize (hgs : List.Forall₂ R gs hs) (h : f.Alike R g) :
    (f.summarize gs).Alike R (g.summarize hs) := by
  have hall : ∀ {xs ys : List NodeId}, List.Forall₂ R xs ys → ∀ {f g : Facts}, f.Alike R g →
      (xs.foldl (Facts.summarizeOne gs) f).Alike R (ys.foldl (Facts.summarizeOne hs) g) := by
    intro xs ys hxs
    induction hxs with
    | nil => exact fun h => h
    | cons hij _ ih => exact fun h => ih (Facts.Alike.summarizeOne hR hgs h hij)
  exact hall hgs h

end CallGraph

end Facts.Alike

/-- What is found in levels whose names and declarations stand for each other. -/
theorem Frame.find?_rel {name : Symbol → Symbol → Prop} {node : NodeId → NodeId → Prop}
    (hname : Relator.BiUnique name) {f g : Frame}
    (h : List.Forall₂ (fun x y => name x.1 y.1 ∧ node x.2 y.2) f g) {s t : Symbol}
    (hst : name s t) : Option.Rel node (Frame.find? f s) (Frame.find? g t) := by
  unfold Frame.find?
  induction h with
  | nil => exact .none
  | cons hxy _ ih =>
    rw [List.find?_cons, List.find?_cons, beq_eq_of_biUnique hname hxy.1 hst]
    split
    · exact .some hxy.2
    · exact ih

namespace Arena.Pairing

variable {a b : Arena} (P : a.Pairing b) {i j : NodeId} {xs ys : List NodeId}

/-- Shapes whose parts stand for each other. -/
abbrev Shapes : Shape Symbol NodeId → Shape Symbol NodeId → Prop :=
  Shape.Rel P.name P.node (List.Forall₂ P.node)

/-- Variables whose parts stand for each other; their access modes may differ. -/
structure Variables (v w : VariableShape Symbol NodeId) : Prop where
  kind : ∃ access, w.kind = v.kind.withAccess access
  name : P.name v.name w.name
  type : P.node v.type w.type
  initializer : P.node v.initializer w.initializer
  attributes : List.Forall₂ P.node v.attributes w.attributes

structure Functions (f g : FunctionShape Symbol NodeId) : Prop where
  name : P.name f.name g.name
  params : List.Forall₂ P.node f.params g.params
  returnType : P.node f.returnType g.returnType
  body : P.node f.body g.body
  attributes : List.Forall₂ P.node f.attributes g.attributes

variable {P}

theorem ne_zero (h : P.node i j) : i ≠ 0 ↔ j ≠ 0 := by
  rcases P.alike h with ⟨rfl, rfl⟩ | ⟨n, m, hn, hm, _⟩
  · exact Iff.rfl
  · refine ⟨fun _ hj => ?_, fun _ hi => ?_⟩
    · subst hj
      cases hm
    · subst hi
      cases hn

/-- Nodes that stand for each other are both absent, or have shapes with parts that do so. -/
theorem shape? (h : P.node i j) :
    (i = 0 ∧ j = 0) ∨ (i ≠ 0 ∧ j ≠ 0) ∧ ∃ s u access, a.shape? i = some s ∧
    b.shape? j = some (u.withAccess access) ∧ P.Shapes s u := by
  rcases P.alike h with h0 | ⟨n, m, hn, hm, _, u, access, hrel, hu⟩
  · exact .inl h0
  · refine .inr ⟨⟨fun h0 => ?_, fun h0 => ?_⟩, n.shape, u, access, by simp [Arena.shape?, hn], by
      simp [Arena.shape?, hm, hu], hrel⟩
    · subst h0
      cases hn
    · subst h0
      cases hm

theorem spanOf (h : P.node i j) : a.spanOf i = b.spanOf j := by
  rcases P.alike h with ⟨rfl, rfl⟩ | ⟨n, m, hn, hm, hspan, _⟩
  · rfl
  · simp [Arena.spanOf, hn, hm, hspan]

/-- What is read off shapes alike is alike. -/
theorem rel_shape? {α β : Type} {A : α → β → Prop} {f : Shape Symbol NodeId → Option α}
    {g : Shape Symbol NodeId → Option β}
    (hfg : ∀ s u access, P.Shapes s u → Option.Rel A (f s) (g (u.withAccess access)))
    (h : P.node i j) : Option.Rel A ((a.shape? i).bind f) ((b.shape? j).bind g) := by
  rcases shape? h with ⟨rfl, rfl⟩ | ⟨_, s, u, access, hs, hu, hrel⟩
  · exact .none
  · rw [hs, hu]
    exact hfg s u access hrel

theorem asVariable? (h : P.node i j) :
    Option.Rel P.Variables (a.asVariable? i) (b.asVariable? j) := by
  refine rel_shape? (fun s u access hrel => ?_) h
  cases hrel with
  | value hs ht hi has => exact .some ⟨⟨access, rfl⟩, hs, ht, hi, has⟩
  | _ => exact .none

theorem function? (h : P.node i j) : Option.Rel P.Functions (a.function? i) (b.function? j) := by
  refine rel_shape? (fun s u access hrel => ?_) h
  cases hrel with
  | function hs hps hr hb has _ => exact .some ⟨hs, hps, hr, hb, has⟩
  | _ => exact .none

theorem block? (h : P.node i j) : Option.Rel (List.Forall₂ P.node) (a.block? i) (b.block? j) := by
  refine rel_shape? (fun s u access hrel => ?_) h
  cases hrel with
  | block hss => exact .some hss
  | _ => exact .none

theorem declName? (h : P.node i j) :
    Option.Rel P.name ((a.shape? i).bind Shape.declName?) ((b.shape? j).bind Shape.declName?) := by
  refine rel_shape? (fun s u access hrel => ?_) h
  cases hrel with
  | value hs _ _ _ => exact .some hs
  | function hs _ _ _ _ _ => exact .some hs
  | struct hs _ _ => exact .some hs
  | typeAlias hs _ => exact .some hs
  | _ => exact .none

theorem isTypeDecl (h : P.node i j) :
    (a.shape? i).any Shape.isTypeDecl = (b.shape? j).any Shape.isTypeDecl := by
  rcases shape? h with ⟨rfl, rfl⟩ | ⟨_, s, u, access, hs, hu, hrel⟩
  · rfl
  · rw [hs, hu]
    cases hrel <;> rfl

/-- The first attribute that is asked for, if alike attributes give alike answers. -/
theorem findAttr? {α β : Type} {A : α → β → Prop} {f : AttrShape NodeId → Option α}
    {g : AttrShape NodeId → Option β}
    (hfg : ∀ x y, P.Shapes (.attr x) (.attr y) → Option.Rel A (f x) (g y))
    (h : List.Forall₂ P.node xs ys) : Option.Rel A (a.findAttr? xs f) (b.findAttr? ys g) := by
  have hone : ∀ i j, P.node i j → Option.Rel A ((a.attr? i).bind f) ((b.attr? j).bind g) := by
    intro i j h
    unfold Arena.attr?
    rcases shape? h with ⟨rfl, rfl⟩ | ⟨_, s, u, access, hs, hu, hrel⟩
    · exact .none
    · rw [hs, hu]
      cases hrel
      case stage => exact hfg _ _ .stage
      case builtin => exact hfg _ _ .builtin
      case location => exact hfg _ _ .location
      case group => exact hfg _ _ .group
      case binding => exact hfg _ _ .binding
      case id => exact hfg _ _ .id
      case workgroup hx hy hz => exact hfg _ _ (.workgroup hx hy hz)
      all_goals exact .none
  unfold Arena.findAttr?
  induction h with
  | nil => exact .none
  | cons hij _ ih =>
    rw [List.findSome?_cons, List.findSome?_cons]
    rcases rel_cases (hone _ _ hij) with ⟨h₁, h₂⟩ | ⟨x, y, h₁, h₂, hxy⟩
    · rw [h₁, h₂]
      exact ih
    · rw [h₁, h₂]
      exact .some hxy

theorem findAttr?_eq {α : Type} {f : AttrShape NodeId → Option α}
    (hf : ∀ x y, P.Shapes (.attr x) (.attr y) → f x = f y) (h : List.Forall₂ P.node xs ys) :
    a.findAttr? xs f = b.findAttr? ys f := by
  refine eq_of_rel (findAttr? (fun x y hxy => ?_) h)
  rw [hf x y hxy]
  cases f y with
  | none => exact .none
  | some z => exact .some rfl

theorem builtinOf (h : List.Forall₂ P.node xs ys) : a.builtinOf xs = b.builtinOf ys := by
  unfold Arena.builtinOf
  rw [findAttr?_eq (fun x y hxy => ?_) h]
  cases hxy <;> rfl

theorem bindingPointOf (h : List.Forall₂ P.node xs ys) :
    Resolve.bindingPointOf a xs = Resolve.bindingPointOf b ys := by
  unfold Resolve.bindingPointOf
  rw [findAttr?_eq (fun x y hxy => ?_) h, findAttr?_eq (fun x y hxy => ?_) h]
  · cases hxy <;> rfl
  · cases hxy <;> rfl

theorem stageOf (h : List.Forall₂ P.node xs ys) : Resolve.stageOf a xs = Resolve.stageOf b ys := by
  unfold Resolve.stageOf
  rw [findAttr?_eq (fun x y hxy => ?_) h]
  cases hxy <;> rfl

theorem workgroupDim (h : P.node i j) : Resolve.workgroupDim a i = Resolve.workgroupDim b j := by
  unfold Resolve.workgroupDim
  rcases shape? h with ⟨rfl, rfl⟩ | ⟨_, s, u, access, hs, hu, hrel⟩
  · rfl
  · rw [hs, hu]
    cases hrel <;> rfl

theorem workgroupOf (h : List.Forall₂ P.node xs ys) :
    Resolve.workgroupOf a xs = Resolve.workgroupOf b ys := by
  unfold Resolve.workgroupOf
  generalize ho : a.findAttr? xs _ = o
  generalize ho' : b.findAttr? ys _ = o'
  have hfind : Option.Rel (fun x y => P.node x.1 y.1 ∧ P.node x.2.1 y.2.1 ∧ P.node x.2.2 y.2.2) o
      o' := by
    rw [← ho, ← ho']
    refine findAttr? (fun x y hxy => ?_) h
    cases hxy with
    | workgroup hx hy hz => exact .some ⟨hx, hy, hz⟩
    | _ => exact .none
  cases hfind with
  | none => rfl
  | some hxy => simp only [workgroupDim hxy.1, workgroupDim hxy.2.1, workgroupDim hxy.2.2]

/-- A name is found in alike levels together. -/
theorem find? {f g : Frame} (h : P.Frames f g) {s t : Symbol} (hst : P.name s t) :
    Option.Rel P.node (Frame.find? f s) (Frame.find? g t) := Frame.find?_rel P.uniqueName h hst

end Arena.Pairing

end ShaderLoom
