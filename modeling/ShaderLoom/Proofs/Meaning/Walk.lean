import ShaderLoom.Proofs.Meaning.Ends

/-! The walks of resolution through types, expressions and statements. A kind of change is asked for
what single steps do, and then takes in what any of the walks does. -/
namespace ShaderLoom.Resolve

/-- A kind of change that takes in whatever the resolution of types does. -/
structure TypeCovers (c : Scene) (change : Resolver → Resolver → Prop) : Prop where
  report : ∀ (r : Resolver) (d : Diagnostic), d.severity = .error →
    change r { r with diagnostics := r.diagnostics ++ [d] }
  pending : ∀ (r : Resolver) (pending), change r { r with pending }
  typed : ∀ (r : Resolver) (types typeDecls),
    change r { r with facts := { r.facts with types, typeDecls } }
  structured : ∀ {id s ms as}, c.arena.shape? id = some (.decl (.struct s ms as)) →
    ∀ (r : Resolver) (st : StructFacts),
    st.decl = id → ∀ types,
      change r { r with facts := { r.facts with structs := r.facts.structs.insert id st, types } }

section Types

variable {c : Scene} {change : Resolver → Resolver → Prop} (hc : TypeCovers c change)
include hc

theorem TypeCovers.moves_refuse (id : NodeId) (message : String) :
    Moves change (refuse c id message) :=
  .bind (.modify fun r => hc.report r _ rfl) fun _ => .pure _

theorem TypeCovers.moves_keepType (id : NodeId) (t : Option Ty) : Moves change (keepType id t) := by
  cases t with
  | none => exact .pure _
  | some t => exact .bind (.modify fun r => hc.typed r _ _) fun _ => .pure _

theorem TypeCovers.moves_declared {one : NodeId → Resolve (Option Ty)}
    (h : ∀ id, Moves change (one id)) (id : NodeId) : Moves change (declared c one id) := by
  have hmember : ∀ m i, Moves change (memberFacts c one m i) := by
    intro m i
    unfold memberFacts
    split
    · exact .bind (h _) fun _ => .pure _
    · exact .pure _
  unfold declared
  split
  · next hs =>
    exact .bind (.modify fun r => hc.structured hs r _ rfl _) fun _ =>
      .bind (.filterMapM _ fun _ => hmember _ _) fun _ =>
      .bind (.modify fun r => hc.structured hs r _ rfl _) fun _ => .pure _
  · exact .bind (h _) fun _ => hc.moves_keepType id _
  · exact .pure _

theorem TypeCovers.moves_types (n : Nat) :
    (∀ id, Moves change (type c n id)) ∧ ∀ id, Moves change (typeDecl c n id) := by
  induction n with
  | zero =>
    refine ⟨fun id => ?_, fun id => ?_⟩
    · unfold type
      exact hc.moves_refuse id _
    · unfold typeDecl
      exact hc.moves_refuse id _
  | succ n ih =>
    obtain ⟨ihType, ihDecl⟩ := ih
    constructor
    · intro id
      unfold type
      split
      · exact .pure _
      · split <;> try exact hc.moves_keepType id _
        iterate 4 exact .bind (ihType _) fun _ => hc.moves_keepType id _
        · split
          · exact hc.moves_refuse id _
          · split
            · exact .bind (.modify fun r => hc.typed r _ _) fun _ => .bind (ihDecl _) fun _ =>
                hc.moves_keepType id _
            · exact hc.moves_refuse id _
        · exact hc.moves_refuse id _
    · intro id
      unfold typeDecl
      refine .get fun r => ?_
      split
      · exact .pure _
      · split
        · exact hc.moves_refuse id _
        · exact .bind (.modify fun r => hc.pending r _) fun _ =>
            .bind (hc.moves_declared ihType id) fun _ =>
            .bind (.modify fun r => hc.pending r _) fun _ => .pure _

theorem TypeCovers.moves_variableType (id : NodeId) (v : VariableShape Symbol NodeId)
    (t : Option Ty) : Moves change (variableType c id v t) := by
  unfold variableType
  split
  · exact (hc.moves_types c.fuel).1 _
  · split
    · exact .pure _
    · exact hc.moves_refuse id _

end Types

/-- A kind of change that takes in whatever the resolution of expressions and variables does. They
ask for the types of type nodes, and of structures and aliases that are `known`; lexical levels
change only where `inner` allows it. -/
structure Covers (c : Scene) (known : NodeId → Prop) (inner : Prop)
    (change : Resolver → Resolver → Prop) : Prop where
  module : ∀ {s d}, c.module.find? s = some d → known d
  node : ∀ i, Moves change (type c c.fuel i)
  decl : ∀ {d}, known d → (c.arena.shape? d).any Shape.isTypeDecl = true →
    Moves change (typeDecl c c.fuel d)
  report : ∀ (r : Resolver) (d : Diagnostic), d.severity = .error →
    change r { r with diagnostics := r.diagnostics ++ [d] }
  noted : ∀ (r : Resolver) (seenGlobals seenCallees), change r { r with seenGlobals, seenCallees }
  framed : inner → ∀ (r : Resolver) (frames), change r { r with frames }
  expr : ∀ {id x}, c.arena.shape? id = some (.expr x) → ∀ (r : Resolver) (e : ExprFacts),
    change r { r with facts := { r.facts with exprs := r.facts.exprs.insert id e } }
  mistaken : ∀ (r : Resolver) (id) (e : ExprFacts),
    change r { r with facts := { r.facts with exprs := (r.facts.exprs.insert id e).erase id } }
  made : ∀ {id w}, c.arena.asVariable? id = some w → ∀ (r : Resolver) (scope t),
    change r { r with facts := r.facts.addVariable (variableFacts c.arena id w scope t) }
  used : ∀ {id x}, c.arena.shape? id = some (.expr x) → ∀ (r : Resolver) (number : VariableId),
    change r { r with facts := { r.facts with
      vars := r.facts.vars.modify number fun v => { v with users := v.users ++ [id] } } }
  function : ∀ (r : Resolver) (id) (g : FunctionFacts → FunctionFacts),
    (∀ f, (g f).returnType = f.returnType ∧ (g f).behaviors = f.behaviors ∧
      (g f).transitiveGlobals = f.transitiveGlobals) →
    change r { r with facts := { r.facts with functions := r.facts.functions.modify id g } }

/-- A kind of change that takes in the resolution of statements too. -/
structure StatementCovers (c : Scene) (known : NodeId → Prop)
    (change : Resolver → Resolver → Prop) : Prop
    extends Covers c known True change where
  entered : ∀ (r : Resolver) (stmt), change r { r with stmt }
  recorded : ∀ (r : Resolver) (stmts), change r { r with facts := { r.facts with stmts } }

/-- What takes in a kind of change takes in what that kind does. -/
theorem Covers.mono {c : Scene} {known : NodeId → Prop} {inner : Prop}
    {change change' : Resolver → Resolver → Prop} (hc : Covers c known inner change)
    (h : ∀ r r', change r r' → change' r r') : Covers c known inner change' where
  module := hc.module
  node i := (hc.node i).mono h
  decl hd hdecl := (hc.decl hd hdecl).mono h
  report r d hd := h _ _ (hc.report r d hd)
  noted r seenGlobals seenCallees := h _ _ (hc.noted r seenGlobals seenCallees)
  framed hi r frames := h _ _ (hc.framed hi r frames)
  expr hx r e := h _ _ (hc.expr hx r e)
  mistaken r id e := h _ _ (hc.mistaken r id e)
  made hv r scope t := h _ _ (hc.made hv r scope t)
  used hx r number := h _ _ (hc.used hx r number)
  function r id g hg := h _ _ (hc.function r id g hg)

section Expressions

variable {c : Scene} {known : NodeId → Prop} {inner : Prop} {change : Resolver → Resolver → Prop}
  (hc : Covers c known inner change)
include hc

theorem Covers.moves_report (id : NodeId) (message : String) :
    Moves change (Resolve.report c id message) :=
  .modify fun r => hc.report r _ rfl

theorem Covers.moves_refuse (id : NodeId) (message : String) : Moves change (refuse c id message) :=
  .bind (hc.moves_report id message) fun _ => .pure _

theorem Covers.moves_setExpr {id : NodeId} {x} (hx : c.arena.shape? id = some (.expr x))
    (e : ExprFacts) : Moves change (setExpr id e) :=
  .modify fun r => hc.expr hx r e

theorem Covers.moves_finish {id : NodeId} {x} (hx : c.arena.shape? id = some (.expr x))
    (e : ExprFacts) : Moves change (finish id e) :=
  .bind (hc.moves_setExpr hx e) fun _ => .pure _

theorem Covers.moves_updateFunction (id : NodeId) {g : FunctionFacts → FunctionFacts}
    (hg : ∀ f, (g f).returnType = f.returnType ∧ (g f).behaviors = f.behaviors ∧
      (g f).transitiveGlobals = f.transitiveGlobals) :
    Moves change (updateFunction id g) := .modify fun r => hc.function r id g hg

theorem Covers.moves_variableType (id : NodeId) (v : VariableShape Symbol NodeId) (t : Option Ty) :
    Moves change (variableType c id v t) := by
  unfold variableType
  split
  · exact hc.node _
  · split
    · exact .pure _
    · exact hc.moves_refuse id _

/-- Only variables that are not global are declared at a level. -/
theorem Covers.moves_makeVariable {id : NodeId} {v : VariableShape Symbol NodeId}
    (hv : c.arena.asVariable? id = some v) {scope : VariableScope} (hs : scope ≠ .global → inner)
    (t : Option Ty) : Moves change (makeVariable c id v scope t) := by
  have hlast : Moves change (do
      let number := (← get).facts.vars.size
      mapFacts (·.addVariable (variableFacts c.arena id v scope t))
      return some number) :=
    .get fun _ => .bind (.modify fun r => hc.made hv r scope t) fun _ => .pure _
  unfold makeVariable
  split
  · next h =>
    have hdeclare : Moves change (declareLocal v.name id) := by
      intro r
      refine Ends.modifyGet ?_
      split
      · exact .refl
      · split
        · exact .refl
        · exact .single (hc.framed (hs h) r _)
    refine .bind hdeclare fun found => ?_
    cases found with
    | true => exact hlast
    | false => exact .bind (hc.moves_report id _) fun _ => hlast
  · exact hlast

theorem Covers.moves_useVariable {id : NodeId} {x} (hx : c.arena.shape? id = some (.expr x))
    (e : ExprFacts) (number : VariableId) : Moves change (useVariable id e number) := by
  unfold useVariable
  refine .get fun r => ?_
  split
  · exact .pure _
  · refine .bind (hc.moves_setExpr hx _) fun _ =>
      .bind (.modify fun r => hc.used hx r number) fun _ => ?_
    split
    · refine .bind ?_ fun _ => .pure _
      unfold useGlobal
      refine .get fun r => ?_
      split
      · split
        · exact .pure _
        · exact .bind (.modify fun r => hc.noted r _ r.seenCallees) fun _ =>
            hc.moves_updateFunction _ fun _ => ⟨rfl, rfl, rfl⟩
      · exact .pure _
    · exact .pure _

theorem Covers.moves_callBuiltin {id : NodeId} {x} (hx : c.arena.shape? id = some (.expr x))
    (e : ExprFacts) (name : String) (args : List (Option Ty)) :
    Moves change (callBuiltin c id e name args) := by
  unfold callBuiltin
  split
  · exact hc.moves_finish hx _
  · exact hc.moves_refuse id _

theorem Covers.moves_callFunction {id : NodeId} {x} (hx : c.arena.shape? id = some (.expr x))
    (e : ExprFacts) (name : String) (decl : NodeId) :
    Moves change (callFunction c id e name decl) := by
  unfold callFunction
  refine .get fun r => ?_
  split
  · exact hc.moves_refuse id _
  · refine .bind (hc.moves_finish hx _) fun _ => .bind ?_ fun _ => .pure _
    unfold useCallee
    refine .get fun r => ?_
    split
    · split
      · exact .pure _
      · exact .bind (.modify fun r => hc.noted r r.seenGlobals _) fun _ =>
          hc.moves_updateFunction _ fun _ => ⟨rfl, rfl, rfl⟩
    · exact .pure _

/-- A node that turns out to be no expression is taken out of the record again. -/
theorem Covers.moves_mistaken (id : NodeId) (e : ExprFacts) (message : String) : Moves change (do
    setExpr id e
    mapFacts fun f => { f with exprs := f.exprs.erase id }
    refuse c id message) := by
  intro r
  refine Ends.bind (.modify (Ends.bind (.modify ?_)))
  exact (hc.moves_refuse id message _).mono fun _ r' hr => .head (hc.mistaken r id e) hr

theorem Covers.moves_expressions (n : Nat) :
    (∀ id, Moves change (Resolve.expr c n id)) ∧
    (∀ id x e target args, c.arena.shape? id = some (.expr x) →
      Moves change (call c n id e target args)) ∧
    ∀ id v scope, c.arena.asVariable? id = some v → (scope ≠ .global → inner) →
      Moves change (resolveVariable c n id v scope) := by
  induction n with
  | zero =>
    refine ⟨fun id => ?_, fun id _ _ _ _ _ => ?_, fun id _ _ _ _ => ?_⟩
    · unfold Resolve.expr
      exact hc.moves_refuse id _
    · unfold call
      exact hc.moves_refuse id _
    · unfold resolveVariable
      exact .bind (hc.moves_refuse id _) fun _ => .pure _
  | succ n ih =>
    obtain ⟨ihExpr, ihCall, ihVar⟩ := ih
    refine ⟨fun id => ?_, fun id x e target args hx => ?_, fun id v scope hv hs => ?_⟩
    · unfold Resolve.expr
      split
      · exact .pure _
      refine .get fun r => ?_
      split
      · next hx =>
        refine .bind (hc.moves_setExpr hx _) fun _ => .bind (.get fun _ => .pure _) fun found => ?_
        split
        · exact hc.moves_refuse id _
        · refine .get fun r => ?_
          split
          · exact hc.moves_useVariable hx _ _
          · next hv =>
            refine .bind (ihVar _ _ _ hv fun h => absurd rfl h) fun found => ?_
            split
            · exact hc.moves_useVariable hx _ _
            · exact .pure _
          · exact hc.moves_refuse id _
      iterate 3
        · next hx => exact .bind (hc.moves_setExpr hx _) fun _ => hc.moves_finish hx _
      · next hx =>
        exact .bind (hc.moves_setExpr hx _) fun _ =>
          .bind (ihExpr _) fun _ => .bind (ihExpr _) fun _ => hc.moves_finish hx _
      · next hx =>
        exact .bind (hc.moves_setExpr hx _) fun _ => .bind (ihExpr _) fun _ => hc.moves_finish hx _
      · next hx => exact .bind (hc.moves_setExpr hx _) fun _ => ihCall id _ _ _ _ hx
      · next hx =>
        refine .bind (hc.moves_setExpr hx _) fun _ => .bind (ihExpr _) fun t =>
          .bind (ihExpr _) fun _ => ?_
        split
        · exact .pure _
        · exact hc.moves_finish hx _
        · exact hc.moves_refuse id _
      · next hx =>
        refine .bind (hc.moves_setExpr hx _) fun _ => .bind (ihExpr _) fun t => .get fun r => ?_
        split
        · exact .pure _
        · exact hc.moves_finish hx _
        · exact hc.moves_refuse id _
      · exact hc.moves_mistaken id _ _
    · unfold call
      refine .bind (.mapM args ihExpr) fun ts => ?_
      split
      · exact .bind (hc.node _) fun _ => hc.moves_finish hx _
      · split
        · exact hc.moves_callBuiltin hx _ _ _
        · next hfind =>
          split
          · exact hc.moves_callFunction hx _ _ _
          · next hs => exact .bind (hc.decl (hc.module hfind)
              (by rw [hs]; rfl)) fun _ => hc.moves_finish hx _
          · next hs => exact .bind (hc.decl (hc.module hfind)
              (by rw [hs]; rfl)) fun _ => hc.moves_finish hx _
          · exact hc.moves_callBuiltin hx _ _ _
      · exact hc.moves_refuse id _
    · unfold resolveVariable
      exact .bind (ihExpr _) fun t => .bind (hc.moves_variableType id v t) fun t =>
        hc.moves_makeVariable hv hs t

theorem Covers.moves_expr (n : Nat) (id : NodeId) : Moves change (Resolve.expr c n id) :=
  (hc.moves_expressions n).1 id

theorem Covers.moves_declaration {id : NodeId} (hid : known id) :
    Moves change (declaration c id) := by
  unfold declaration
  split
  · next hs => exact .bind (hc.decl hid (by rw [hs]; rfl)) fun _ => .pure _
  · next hs => exact .bind (hc.decl hid (by rw [hs]; rfl)) fun _ => .pure _
  · next v hs =>
    have hv : c.arena.asVariable? id = some v := by rw [Arena.asVariable?, hs]; rfl
    refine .get fun r => ?_
    split
    · exact .pure _
    · exact .bind ((hc.moves_expressions c.fuel).2.2 _ _ _ hv fun h => absurd rfl h) fun _ =>
        .pure _
  · exact .pure _

theorem Covers.moves_localVariable (hi : inner) (id : NodeId) :
    Moves change (localVariable c id) := by
  unfold localVariable
  split
  · next hv => exact .bind ((hc.moves_expressions c.fuel).2.2 _ _ _ hv fun _ => hi) fun _ => .pure _
  · exact .pure _

theorem Covers.moves_parameter (hi : inner) (fn id : NodeId) :
    Moves change (parameter c fn id) := by
  unfold parameter
  split
  · next hv =>
    split
    · exact .bind ((hc.moves_expressions c.fuel).2.2 _ _ _ hv fun _ => hi) fun _ =>
        hc.moves_updateFunction _ fun _ => ⟨rfl, rfl, rfl⟩
    · exact hc.moves_report id _
  · exact hc.moves_report id _

end Expressions

section Statements

variable {c : Scene} {known : NodeId → Prop} {change : Resolver → Resolver → Prop}
    {one : NodeId → Bool → Resolve Behaviors}

theorem moves_inOrder (h : ∀ id live, Moves change (one id live)) (reachable : Bool)
    (ids : List NodeId) (sofar : Behaviors) : Moves change (inOrder one reachable ids sofar) := by
  induction ids generalizing sofar with
  | nil => exact .pure _
  | cons id ids ih => exact .bind (h id _) fun _ => ih _

variable (hc : StatementCovers c known change)
include hc

theorem StatementCovers.moves_setBehaviors (id : NodeId) (b : Behaviors) :
    Moves change (setBehaviors id b) :=
  .modify fun r => hc.recorded r _

theorem StatementCovers.moves_pushFrame : Moves change pushFrame :=
  .modify fun r => hc.framed trivial r _

theorem StatementCovers.moves_popFrame : Moves change popFrame :=
  .modify fun r => hc.framed trivial r _

theorem StatementCovers.moves_openBody (h : ∀ id live, Moves change (one id live)) (body : NodeId)
    (reachable : Bool) : Moves change (openBody c one body reachable) := by
  unfold openBody
  split
  · exact .bind (.modify fun r => hc.recorded r _) fun _ =>
      .bind (moves_inOrder h reachable _ _) fun _ =>
      .bind (hc.moves_setBehaviors body _) fun _ => .pure _
  · exact .pure _

theorem StatementCovers.moves_inside (h : ∀ id live, Moves change (one id live)) (id : NodeId)
    (reachable : Bool) (s : Option (Shape Symbol NodeId)) :
    Moves change (inside c one id reachable s) := by
  have hexpr : ∀ e, Moves change (Resolve.expr c c.fuel e) := hc.moves_expr c.fuel
  unfold inside
  split
  · exact .bind hc.moves_pushFrame fun _ => .bind (moves_inOrder h reachable _ _) fun _ =>
      .bind hc.moves_popFrame fun _ => .pure _
  · exact .bind (hc.moves_localVariable trivial _) fun _ => .pure _
  · exact .bind (hexpr _) fun _ => .bind (hexpr _) fun _ => .pure _
  · exact .bind (hexpr _) fun _ => .pure _
  · exact .bind (hexpr _) fun _ => .pure _
  · exact .bind (hexpr _) fun _ => .bind (h _ _) fun _ => .bind (h _ _) fun _ => .pure _
  · exact .bind hc.moves_pushFrame fun _ =>
      .bind (h _ _) fun _ => .bind (hexpr _) fun _ => .bind (h _ _) fun _ =>
      .bind (h _ _) fun _ => .bind hc.moves_popFrame fun _ => .pure _
  · exact .bind (hexpr _) fun _ => .bind (h _ _) fun _ => .pure _
  · exact .bind hc.moves_pushFrame fun _ => .bind (hc.moves_openBody h _ _) fun _ =>
      .bind (h _ _) fun _ =>
      .bind hc.moves_popFrame fun _ => .pure _
  · exact .pure _
  · exact .pure _
  · exact .pure _
  · exact .bind (hexpr _) fun _ => .pure _
  · exact .bind (hc.moves_report id _) fun _ => .pure _

theorem StatementCovers.moves_statement (n : Nat) (id : NodeId) (reachable : Bool) :
    Moves change (statement c n id reachable) := by
  induction n generalizing id reachable with
  | zero =>
    unfold statement
    exact .bind (hc.moves_refuse id _) fun _ => .pure _
  | succ n ih =>
    unfold statement
    split
    · exact .pure _
    · exact .get fun r => .bind (.modify fun r => hc.entered r _) fun _ =>
        .bind (.modify fun r => hc.recorded r _) fun _ =>
        .bind (hc.moves_inside ih id reachable _) fun b =>
          .bind (hc.moves_setBehaviors id b) fun _ =>
        .bind (.modify fun r => hc.entered r _) fun _ => .pure _

end Statements
end ShaderLoom.Resolve
