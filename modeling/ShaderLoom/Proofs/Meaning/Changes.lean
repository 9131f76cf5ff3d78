import ShaderLoom.Proofs.Meaning.Walk

/-! What resolution may change without touching the record of statements, with what it changes:
expressions are recorded as such, variables are those of their declarations, and functions reach
nothing new. -/
namespace ShaderLoom.Resolve

/-- Functions list as reached what they listed before, and new ones list nothing. -/
def Untold (functions functions' : NodeMap FunctionFacts) : Prop :=
  ∀ (g : NodeId) x, functions'[g]? = some x → x.transitiveGlobals = [] ∨
    ∃ y, functions[g]? = some y ∧ x.transitiveGlobals = y.transitiveGlobals

theorem Untold.modify {functions : NodeMap FunctionFacts} {g : FunctionFacts → FunctionFacts}
    (hg : ∀ x, (g x).transitiveGlobals = x.transitiveGlobals) (id : NodeId) :
    Untold functions (functions.modify id g) := by
  intro k x hx
  rw [Std.TreeMap.getElem?_modify] at hx
  split at hx
  · next h =>
    obtain rfl := Nat.compare_eq_eq.1 h
    obtain ⟨y, hy, rfl⟩ := Option.map_eq_some_iff.1 hx
    exact .inr ⟨y, hy, hg y⟩
  · exact .inr ⟨x, hx, rfl⟩

theorem Untold.insert (functions : NodeMap FunctionFacts) (id : NodeId) {facts : FunctionFacts}
    (h : facts.transitiveGlobals = []) : Untold functions (functions.insert id facts) := by
  intro k x hx
  rw [Std.TreeMap.getElem?_insert] at hx
  split at hx
  · exact .inl (Option.some.inj hx ▸ h)
  · exact .inr ⟨x, hx, rfl⟩

/-- What resolution may change without touching the record of statements. -/
inductive Change (a : Arena) : Resolver → Resolver → Prop
  | noted {r r' : Resolver} : r'.facts = r.facts → r'.diagnostics = r.diagnostics → Change a r r'
  | reported {r : Resolver} (d : Diagnostic) : d.isError = true →
    Change a r { r with diagnostics := r.diagnostics ++ [d] }
  | typed {r : Resolver} (types typeDecls) :
    Change a r { r with facts := { r.facts with types, typeDecls } }
  | structured {r : Resolver} {id s ms as} (st : StructFacts) (types) :
    a.shape? id = some (.decl (.struct s ms as)) → st.decl = id →
    Change a r { r with facts := { r.facts with structs := r.facts.structs.insert id st, types } }
  | called {r : Resolver} (functions) : Untold r.facts.functions functions →
    Change a r { r with facts := { r.facts with functions } }
  | expr {r : Resolver} {id x} (e : ExprFacts) : a.shape? id = some (.expr x) →
    Change a r { r with facts := { r.facts with exprs := r.facts.exprs.insert id e } }
  | mistaken {r : Resolver} (id) (e : ExprFacts) :
    Change a r { r with facts := { r.facts with exprs := (r.facts.exprs.insert id e).erase id } }
  | made {r : Resolver} {id w} (scope t) : a.asVariable? id = some w →
    Change a r { r with facts := r.facts.addVariable (variableFacts a id w scope t) }
  | used {r : Resolver} {id x} (number : VariableId) : a.shape? id = some (.expr x) →
    Change a r { r with facts := { r.facts with
      vars := r.facts.vars.modify number fun v => { v with users := v.users ++ [id] } } }

section

variable (c : Scene)

theorem typeCovers_change : TypeCovers c (Change c.arena) where
  report _ d hd := .reported d (beq_iff_eq.2 hd)
  pending _ _ := .noted rfl rfl
  typed _ := .typed
  structured hs _ st hst types := .structured st types hs hst

theorem moves_types (n : Nat) :
    (∀ id, Moves (Change c.arena) (type c n id)) ∧ ∀ id, Moves (Change c.arena) (typeDecl c n id) :=
  (typeCovers_change c).moves_types n

theorem covers_change : Covers c (fun _ => True) True (Change c.arena) where
  module _ := trivial
  node := (moves_types c c.fuel).1
  decl _ _ := (moves_types c c.fuel).2 _
  report := (typeCovers_change c).report
  noted _ _ _ := .noted rfl rfl
  framed _ _ _ := .noted rfl rfl
  expr hx _ e := .expr e hx
  mistaken _ := .mistaken
  made hv _ scope t := .made scope t hv
  used hx _ number := .used number hx
  function _ id _ hg := .called _ (Untold.modify (fun f => (hg f).2.2) id)

theorem moves_report (id : NodeId) (message : String) :
    Moves (Change c.arena) (report c id message) :=
  (covers_change c).moves_report id message

theorem moves_refuse (id : NodeId) (message : String) :
    Moves (Change c.arena) (refuse c id message) :=
  (covers_change c).moves_refuse id message

theorem moves_updateFunction (id : NodeId) {g : FunctionFacts → FunctionFacts}
    (hg : ∀ x, (g x).transitiveGlobals = x.transitiveGlobals) :
    Moves (Change c.arena) (updateFunction id g) :=
  .modify fun _ => .called _ (Untold.modify hg id)

theorem moves_expr (n : Nat) (id : NodeId) : Moves (Change c.arena) (expr c n id) :=
  (covers_change c).moves_expr n id

theorem moves_declaration (id : NodeId) : Moves (Change c.arena) (declaration c id) :=
  (covers_change c).moves_declaration trivial

theorem moves_signature (id : NodeId) (f : FunctionShape Symbol NodeId) :
    Moves (Change c.arena) (signature c id f) := by
  refine .bind (.modify fun _ => .called _ (Untold.insert _ id rfl)) fun _ => ?_
  split
  · exact .bind ((moves_types c c.fuel).1 _) fun _ => moves_updateFunction c _ fun _ => rfl
  · exact .bind (.pure _) fun _ => moves_updateFunction c _ fun _ => rfl

theorem moves_parameter (fn id : NodeId) : Moves (Change c.arena) (parameter c fn id) :=
  (covers_change c).moves_parameter trivial fn id

theorem moves_localVariable (id : NodeId) : Moves (Change c.arena) (localVariable c id) :=
  (covers_change c).moves_localVariable trivial id

end

section Statements

variable {α : Type}

/-- The record of statements. -/
abbrev stmtsOf (r : Resolver) : NodeMap StmtFacts := r.facts.stmts

theorem Change.stmts {a : Arena} {r r' : Resolver} (h : Change a r r') :
    stmtsOf r' = stmtsOf r := by
  cases h with
  | noted h _ => simp only [stmtsOf, h]
  | _ => rfl

/-- Changes of facts about types, expressions and variables leave the record of statements as it
is. -/
theorem Moves.stmts {a : Arena} {step : Resolve α} (h : Moves (Change a) step) (r : Resolver) :
    Ends step r fun _ r' => stmtsOf r' = stmtsOf r :=
  h.keeps (fun _ _ => Change.stmts) r

end Statements
end ShaderLoom.Resolve
