import ShaderLoom.Proofs.Held
import ShaderLoom.Proofs.Meaning.Reachable
import ShaderLoom.Proofs.Meaning.Sound

/-! Which kinds of nodes the fields of a node are for. In a program that keeps to them, statements
are found in the bodies of functions alone, and resolution has met every one of them. -/
namespace ShaderLoom

namespace Arena

section Tests

variable (a : Arena) (i : NodeId)

def isExpr : Bool := (a.shape? i).any Shape.isExpression

def isType : Bool := (a.shape? i).any (· matches .type _)

def isStmt : Bool := (a.shape? i).any Shape.isStatement

def isDecl : Bool := (a.shape? i).any Shape.isDeclaration

def isAttr : Bool := (a.shape? i).any Shape.isAttribute

def isMember : Bool := (a.shape? i).any (· matches .structMember _ _ _)

def isVariable : Bool := (a.shape? i).any (· matches .decl (.value _))

/-- What can be called: a name or a type. -/
def isTarget : Bool := (a.shape? i).any fun s => s matches .type _ | .expr (.ident _)

def isCall : Bool := (a.shape? i).any (· matches .expr (.call _ _))

/-- A field that may be empty. -/
def optional (test : NodeId → Bool) (i : NodeId) : Bool := i == 0 || test i

/-- The fields of a node hold nodes of the kinds that they are for. A place for a statement takes
any statement, and the body of a loop with a continuing part is a block. -/
def fields : Shape Symbol NodeId → Bool
  | .type (.vector e _) | .type (.matrix e _ _) | .type (.array e _)
      | .type (.sampledTexture _ e) => a.isType e
  | .expr (.binary _ l r) | .expr (.index l r) | .stmt (.assign l r) => a.isExpr l && a.isExpr r
  | .expr (.unary _ e) | .expr (.member e _) | .stmt (.increment e _) => a.isExpr e
  | .expr (.call target args) => a.isTarget target && args.all a.isExpr
  | .stmt (.block ss) => ss.all a.isStmt
  | .stmt (.varDecl v) => a.isVariable v
  | .stmt (.callStatement x) => a.isCall x
  | .stmt (.ifElse c b o) => a.isExpr c && a.isStmt b && optional a.isStmt o
  | .stmt (.forLoop i c k b) =>
    optional a.isStmt i && optional a.isExpr c && optional a.isStmt k && a.isStmt b
  | .stmt (.whileLoop c b) => a.isExpr c && a.isStmt b
  | .stmt (.loop b k) => (a.block? b).isSome && optional a.isStmt k
  | .stmt (.ret x) => optional a.isExpr x
  | .decl (.value v) =>
    v.attributes.all a.isAttr && optional a.isType v.type && optional a.isExpr v.initializer
  | .decl (.function f) =>
    f.attributes.all a.isAttr && f.params.all a.isVariable && f.returnAttributes.all a.isAttr &&
      optional a.isType f.returnType && a.isStmt f.body
  | .decl (.struct _ members attributes) => attributes.all a.isAttr && members.all a.isMember
  | .decl (.typeAlias _ ty) => a.isType ty
  | .structMember _ ty attributes => attributes.all a.isAttr && a.isType ty
  | .attr (.workgroup x y z) => a.isExpr x && optional a.isExpr y && optional a.isExpr z
  | .module gs => gs.all a.isDecl
  | _ => true

/-- A node that is neither a statement nor a function. -/
def isPart : Prop := ∀ x, a.shape? i = some x → x.isStatement = false ∧ x.function? = none

end Tests

variable {a : Arena} {i c : NodeId}

theorem isPart_of_any {test : Shape Symbol NodeId → Bool} (h : (a.shape? i).any test = true)
    (ht : ∀ x, test x = true → x.isStatement = false ∧ x.function? = none) : a.isPart i := by
  intro x hx
  rw [hx] at h
  exact ht x h

/-- The tests of fields that are for neither statements nor declarations of the module. -/
theorem isPart_of_test {test : NodeId → Bool}
    (ht : test ∈ [a.isExpr, a.isType, a.isAttr, a.isMember, a.isVariable, a.isTarget, a.isCall])
    (h : test i = true) : a.isPart i := by
  simp only [List.mem_cons, List.not_mem_nil, or_false] at ht
  rcases ht with rfl | rfl | rfl | rfl | rfl | rfl | rfl
  all_goals
    refine isPart_of_any h fun x hx => ?_
    revert hx
    rcases x with _ | _ | _ | ⟨_ | _ | _ | _⟩ | _ | _ | _ <;>
      simp [Shape.isExpression, Shape.isAttribute, Shape.isStatement, Shape.function?]

theorem optional_eq_true {test : NodeId → Bool} (h0 : c ≠ 0) (h : optional test c = true) :
    test c = true := by
  simpa [optional, h0] using h

theorem function?_of_isStmt (h : a.isStmt i = true) : a.function? i = none := by
  obtain ⟨x, hx, hs⟩ := (Option.any_eq_true _ _).1 h
  cases x <;> simp_all [Shape.isStatement, Arena.function?, Shape.function?]

/-- The places of a node for statements. -/
def statements : Shape Symbol NodeId → List NodeId
  | .stmt x => Flow.substatements x
  | .decl (.function f) => [f.body]
  | _ => []

/-- Statements stand in the places for them and nowhere else, and functions stand at module
scope. -/
theorem holder_of_fields {s : Shape Symbol NodeId} (h : a.fields s = true)
    (hs : ∀ gs, s ≠ .module gs) (hc : c ∈ s.slots) (h0 : c ≠ 0) :
    a.isPart c ∨ a.isStmt c = true ∧ c ∈ statements s := by
  have hpart : ∀ test ∈ [a.isExpr, a.isType, a.isAttr, a.isMember, a.isVariable,
    a.isTarget, a.isCall],
      test c = true → a.isPart c := fun _ ht => isPart_of_test ht
  simp only [List.forall_mem_cons] at hpart
  obtain ⟨hexpr, htype, hattr, hmember, hvariable, htarget, hcall, -⟩ := hpart
  have hoptional : ∀ {test}, optional test c = true → test c = true := optional_eq_true h0
  have hblock : (a.block? c).isSome = true → a.isStmt c = true := fun hb => by
    obtain ⟨ss, hss⟩ := Option.isSome_iff_exists.1 hb
    obtain ⟨x, hx, hss⟩ := Option.bind_eq_some_iff.1 hss
    cases x <;> simp_all [Shape.block?, Arena.isStmt, Shape.isStatement]
  unfold Arena.fields at h
  split at h <;> simp only [Bool.and_eq_true, List.all_eq_true, Shape.slots, List.mem_cons,
    List.mem_append, List.not_mem_nil, or_false, statements, Flow.substatements] at h hc ⊢ <;> grind

end Arena

/-- Each element of the list has had its step. -/
theorem Along.exists_of_mem {σ : Type} {step : NodeId → σ → σ → Prop} {ds : List NodeId} {S S' : σ}
    (h : Along step ds S S') {d : NodeId} (hd : d ∈ ds) : ∃ S₁ S₂, step d S₁ S₂ := by
  induction h with
  | nil => cases hd
  | cons hstep _ ih =>
    rcases List.mem_cons.1 hd with rfl | hd
    · exact ⟨_, _, hstep⟩
    · exact ih hd

namespace Program

/-- The fields of all nodes in the tree hold nodes of the kinds that they are for. -/
def kinded (p : Program) : Bool := p.treeIds.all fun i => (p.shape? i).all p.fields

variable {p : Program}

theorem fields_of_kinded (h : p.kinded = true) (hp : p.Fit) {i : NodeId} (hi : p.inTree i = true)
    {s : Shape Symbol NodeId} (hs : p.shape? i = some s) : p.fields s = true := by
  have hall := List.all_eq_true.1 h i (hp.mem_treeIds.2 hi)
  rwa [hs, Option.all_some] at hall

/-- Functions are declarations of the module, and statements stand in bodies of functions. -/
theorem inModule_of_kinded (h : p.kinded = true) (hp : p.Fit) {i : NodeId}
    (hi : p.inTree i = true) :
    (∀ f, p.function? i = some f → i ∈ p.globals) ∧ ∀ x, p.shape? i = some (.stmt x) →
      ∃ g ∈ p.globals, ∃ f, p.function? g = some f ∧ Flow.Nested p.toArena f.body i := by
  refine hp.tree_induct (P := fun i => (∀ f, p.function? i = some f → i ∈ p.globals) ∧
    ∀ x, p.shape? i = some (.stmt x) → ∃ g ∈ p.globals,
      ∃ f, p.function? g = some f ∧ Flow.Nested p.toArena f.body i)
    ⟨fun f hf => ?_, fun x hx => ?_⟩ ?_ hi
  · cases hp.module.symm.trans (Arena.shape?_of_function? hf)
  · cases hp.module.symm.trans hx
  intro i n c hi ⟨hglobal, hnested⟩ hn hc h0
  have hs : p.shape? i = some n.shape := by simp [Arena.shape?, hn]
  have hfields := fields_of_kinded h hp hi hs
  by_cases hmodule : ∃ gs, n.shape = .module gs
  · obtain ⟨gs, hgs⟩ := hmodule
    rw [hgs] at hs hc hfields
    cases hp.eq_root hs
    cases hs.symm.trans hp.module
    have hd : p.isDecl c = true := List.all_eq_true.1 hfields c hc
    refine ⟨fun _ _ => hc, fun x hx => ?_⟩
    simp [Arena.isDecl, hx, Shape.isDeclaration] at hd
  rcases Arena.holder_of_fields hfields (fun gs hgs => hmodule ⟨gs, hgs⟩) hc h0 with hpart
    | ⟨hstmt, hheld⟩
  · exact ⟨fun f hf => absurd (hpart _ (Arena.shape?_of_function? hf)).2
      (by simp [Shape.function?]), fun x hx => absurd (hpart _ hx).1 (by simp [Shape.isStatement])⟩
  · refine ⟨fun f hf => by simp [Arena.function?_of_isStmt hstmt] at hf, fun _ _ => ?_⟩
    unfold Arena.statements at hheld
    split at hheld
    · next x hx =>
      obtain ⟨g, hg, f, hfun, hbelow⟩ := hnested x (hs.trans (congrArg some hx))
      exact ⟨g, hg, f, hfun, hbelow.step (hs.trans (congrArg some hx)) hheld h0⟩
    · next f hf =>
      have hfun : p.function? i = some f := by simp [Arena.function?, hs, hf, Shape.function?]
      exact ⟨i, hglobal f hfun, f, hfun, List.mem_singleton.1 hheld ▸ .self⟩
    · cases hheld

/-- Functions of a valid program take nothing but parameters. -/
theorem parameter_build {b : Builder} (hv : b.build.valid = true) {g : NodeId}
    (hg : g ∈ b.build.globals) {f : FunctionShape Symbol NodeId}
    (hf : b.build.function? g = some f) :
    ∀ d ∈ f.params, ∃ v, b.build.asVariable? d = some v ∧ v.kind = .parameter := by
  obtain ⟨_, _, _, _, _, halong⟩ := wellTyped_build hv
  have hkinds : ∀ {ds Γ T Γ' T'},
      Parameters b.build.toArena b.build.scene.module Anything ds Γ T Γ' T' →
      ∀ d ∈ ds, ∃ v, b.build.asVariable? d = some v ∧ v.kind = .parameter := fun h => by
    induction h with
    | nil => exact fun _ => nofun
    | cons hv hkind _ _ ih => exact List.forall_mem_cons.2 ⟨⟨_, hv, hkind⟩, ih⟩
  obtain ⟨_, _, hinside⟩ := halong.exists_of_mem hg
  cases hinside with
  | function hf' hparams _ =>
    cases hf.symm.trans hf'
    exact hkinds hparams
  | other hnone => cases hf.symm.trans hnone

/-- Resolution records every statement of the tree. -/
theorem recorded_of_kinded {b : Builder} (h : b.build.kinded = true) (hp : b.build.Fit)
    (ht : b.build.TreeShaped) (hv : b.build.valid = true) {i : NodeId} {x : StmtShape NodeId}
    (hi : b.build.inTree i = true) (hx : b.build.shape? i = some (.stmt x)) :
    ∃ s, b.build.facts.stmts[i]? = some s := by
  have hblocks : Flow.BlockBodies b.build := fun hs hloop => by
    have hfields := fields_of_kinded h hp hs hloop
    simp only [Arena.fields, Bool.and_eq_true] at hfields
    exact hfields.1
  obtain ⟨r, hr, hdone⟩ := Flow.done_build hv ht hblocks
  obtain ⟨g, hg, f, hf, hbelow⟩ := (inModule_of_kinded h hp hi).2 x hx
  have hbody : f.body ≠ 0 := by
    rintro h0
    have hzero : ∀ {y}, Flow.Nested b.build.toArena f.body y → y = 0 := fun hy => by
      induction hy with
      | self => exact h0
      | step _ hs _ _ ih => simp [ih, Arena.shape?] at hs
    simp [hzero hbelow, Arena.shape?] at hx
  obtain ⟨_, _, hsettled⟩ := hdone g hg f hf
  obtain ⟨_, _, hsays, _⟩ := hsettled hbody i hbelow x hx
  simp only [Flow.Says, Arena.ne_zero_of_shape hx, if_false] at hsays
  exact hr ▸ ⟨_, hsays.choose_spec⟩

end Program
end ShaderLoom
