import ShaderLoom.Proofs.Meaning.Walk
import ShaderLoom.Proofs.Program

/-! What resolution of types, expressions and statements may touch, one change at a time. Whatever
no change touches is the same before and after, and problems are only ever added. -/
namespace ShaderLoom.Resolve

theorem Ends.and {α : Type} {step : Resolve α} {r : Resolver} {Q Q' : α → Resolver → Prop}
    (h : Ends step r Q) (h' : Ends step r Q') : Ends step r fun a r' => Q a r' ∧ Q' a r' := by
  unfold Ends at *
  exact ⟨h, h'⟩

/-- What of a function's facts is settled by its head and the end of its body. -/
def headOf (f : FunctionFacts) : Option Ty × Behaviors := (f.returnType, f.behaviors)

/-- The same for a node, if it is a function's. -/
def headAt (f : Facts) (g : NodeId) : Option (Option Ty × Behaviors) := (f.functions[g]?).map headOf

/-- What a change leaves alone of every entry is the same after it. -/
theorem view_modify {α β : Type} {v : α → β} {fs : NodeMap α} {g : α → α} (hg : ∀ f, v (g f) = v f)
    (id x : NodeId) : ((fs.modify id g)[x]?).map v = (fs[x]?).map v := by
  rw [Std.TreeMap.getElem?_modify]
  split
  · next h =>
    rw [Nat.compare_eq_eq] at h
    subst h
    cases fs[id]? with
    | none => rfl
    | some f => simp [hg]
  · rfl

theorem isSome_modify {β : Type} {m : NodeMap β} {g : β → β} {i x : NodeId} :
    (m.modify i g)[x]?.isSome = m[x]?.isSome := by
  rw [Std.TreeMap.getElem?_modify]
  split
  · next h =>
    rw [Nat.compare_eq_eq] at h
    simp [h]
  · rfl

/-- The same of changes at several functions. -/
theorem view_foldl_modify {β : Type} {view : FunctionFacts → β} {g : FunctionFacts → FunctionFacts}
    (hg : ∀ f, view (g f) = view f) (rs : List NodeId) (fs : NodeMap FunctionFacts) (x : NodeId) :
    ((rs.foldl (fun fs r => fs.modify r g) fs)[x]?).map view = (fs[x]?).map view := by
  induction rs generalizing fs with
  | nil => rfl
  | cons r rs ih => exact (ih _).trans (view_modify hg _ _)

/-- The summary of a function is about what it reaches and what reaches others. -/
theorem view_summarizeOne {β : Type} {view : FunctionFacts → β}
    (hview : ∀ f globals ancestors,
      view { f with transitiveGlobals := globals, ancestors } = view f) (f : Facts)
    (gs : List NodeId) (id g : NodeId) :
    ((f.summarizeOne gs id).functions[g]?).map view = (f.functions[g]?).map view := by
  have hglobals : ∀ f gs, view { f with transitiveGlobals := gs } = view f :=
    fun f gs => hview f gs f.ancestors
  have hancestors : ∀ f as, view { f with ancestors := as } = view f :=
    fun f as => hview f f.transitiveGlobals as
  unfold Facts.summarizeOne
  split
  · rfl
  · dsimp only
    split
    · exact (view_foldl_modify (fun f => hancestors f _) _ _ _).trans
        (view_modify (fun f => hglobals f _) _ _)
    · exact view_modify (fun f => hglobals f _) _ _

/-- So are all summaries. -/
theorem view_summarize {β : Type} {view : FunctionFacts → β}
    (hview : ∀ f globals ancestors,
      view { f with transitiveGlobals := globals, ancestors } = view f) (f : Facts)
    (gs : List NodeId) (g : NodeId) :
    ((f.summarize gs).functions[g]?).map view = (f.functions[g]?).map view := by
  have hall : ∀ (ids : List NodeId) (f : Facts),
      ((ids.foldl (Facts.summarizeOne gs) f).functions[g]?).map view =
      (f.functions[g]?).map view := by
    intro ids
    induction ids with
    | nil => exact fun _ => rfl
    | cons id ids ih =>
      intro f
      rw [List.foldl_cons, ih, view_summarizeOne hview]
  exact hall gs f

theorem headAt_summarize (f : Facts) (gs : List NodeId) (g : NodeId) :
    headAt (f.summarize gs) g = headAt f g :=
  view_summarize (fun _ _ _ => rfl) f gs g

/-- One change by a step inside a declaration or a body. Lexical levels and the record of statements
change only where `inner` allows it. -/
inductive Touch (inner : Prop) : Resolver → Resolver → Prop
  | report {r : Resolver} (d) : d.severity = .error →
    Touch inner r { r with diagnostics := r.diagnostics ++ [d] }
  | pending {r : Resolver} (pending) : Touch inner r { r with pending }
  | noted {r : Resolver} (seenGlobals seenCallees) :
    Touch inner r { r with seenGlobals, seenCallees }
  | types {r : Resolver} (types typeDecls structs) :
    Touch inner r { r with facts := { r.facts with types, typeDecls, structs } }
  | exprs {r : Resolver} (exprs) : Touch inner r { r with facts := { r.facts with exprs } }
  | made {r : Resolver} (v) : Touch inner r { r with facts := r.facts.addVariable v }
  | used {r : Resolver} (number id) : Touch inner r { r with facts := { r.facts with
      vars := r.facts.vars.modify number fun v => { v with users := v.users ++ [id] } } }
  | function {r : Resolver} (id) (g : FunctionFacts → FunctionFacts) :
    (∀ f, headOf (g f) = headOf f) →
    Touch inner r { r with facts := { r.facts with functions := r.facts.functions.modify id g } }
  | inside {r : Resolver} (frames stmt stmts) : inner →
    Touch inner r { r with frames, stmt, facts := { r.facts with stmts } }

theorem Touch.headAt {inner : Prop} {r r' : Resolver} (h : Touch inner r r') (g : NodeId) :
    headAt r'.facts g = headAt r.facts g := by
  cases h with
  | function id k hk => exact view_modify hk id g
  | _ => rfl

theorem Moves.headAt {α : Type} {inner : Prop} {step : Resolve α} (h : Moves (Touch inner) step)
    (r : Resolver) :
    Ends step r fun _ r' => ∀ g, Resolve.headAt r'.facts g = Resolve.headAt r.facts g :=
  have hk : Ends step r fun _ r' => Resolve.headAt r'.facts = Resolve.headAt r.facts :=
    h.keeps (fun _ _ h => funext h.headAt) r
  hk.mono fun _ _ h g => congrFun h g

/-- Once there is a problem there always is. -/
theorem Touch.hasErrors {inner : Prop} {r r' : Resolver} (h : Touch inner r r')
    (he : r.diagnostics.hasErrors = true) : r'.diagnostics.hasErrors = true := by
  cases h with
  | report d _ =>
    simpa [Diagnostics.hasErrors] using .inl (by simpa [Diagnostics.hasErrors] using he)
  | _ => exact he

theorem Moves.hasErrors {α : Type} {inner : Prop} {step : Resolve α} (h : Moves (Touch inner) step)
    (r : Resolver) :
    Ends step r fun _ r' => r.diagnostics.hasErrors = true → r'.diagnostics.hasErrors = true :=
  (h r).mono fun _ r' hr he => by
    induction hr with
    | refl => exact he
    | tail _ ht ih => exact ht.hasErrors ih

/-- One change by the resolution of types, which knows of types alone. -/
inductive TypeTouch : Resolver → Resolver → Prop
  | report {r : Resolver} (d) : d.severity = .error →
    TypeTouch r { r with diagnostics := r.diagnostics ++ [d] }
  | pending {r : Resolver} (pending) : TypeTouch r { r with pending }
  | types {r : Resolver} (types typeDecls structs) :
    TypeTouch r { r with facts := { r.facts with types, typeDecls, structs } }

theorem TypeTouch.touch {inner : Prop} {r r' : Resolver} (h : TypeTouch r r') :
    Touch inner r r' := by
  cases h with
  | report d hd => exact .report d hd
  | pending ps => exact .pending ps
  | types ts ds ss => exact .types ts ds ss

section

variable (c : Scene) {inner : Prop}

theorem typeCovers_touch : TypeCovers c TypeTouch where
  report _ := .report
  pending _ := .pending
  typed r types typeDecls := .types types typeDecls r.facts.structs
  structured {_ _ _ _} _ r st _ types :=
    .types types r.facts.typeDecls (r.facts.structs.insert _ st)

theorem typeTouch_refuse (id : NodeId) (message : String) : Moves TypeTouch (refuse c id message) :=
  (typeCovers_touch c).moves_refuse id message

theorem typeTouch_types (n : Nat) :
    (∀ id, Moves TypeTouch (type c n id)) ∧ ∀ id, Moves TypeTouch (typeDecl c n id) :=
  (typeCovers_touch c).moves_types n

theorem typeTouch_variableType (id : NodeId) (v : VariableShape Symbol NodeId) (t : Option Ty) :
    Moves TypeTouch (variableType c id v t) :=
  (typeCovers_touch c).moves_variableType id v t

theorem touch_types (n : Nat) :
    (∀ id, Moves (Touch inner) (type c n id)) ∧ ∀ id, Moves (Touch inner) (typeDecl c n id) :=
  ⟨fun id => ((typeTouch_types c n).1 id).mono fun _ _ => TypeTouch.touch,
    fun id => ((typeTouch_types c n).2 id).mono fun _ _ => TypeTouch.touch⟩

theorem covers_touch : Covers c (fun _ => True) inner (Touch inner) where
  module _ := trivial
  node := (touch_types c c.fuel).1
  decl _ _ := (touch_types c c.fuel).2 _
  report _ := .report
  noted _ := .noted
  framed h r frames := .inside frames r.stmt r.facts.stmts h
  expr _ _ _ := .exprs _
  mistaken _ _ _ := .exprs _
  made _ _ _ _ := .made _
  used _ _ number := .used number _
  function _ id g hg := .function id g fun f => Prod.ext (hg f).1 (hg f).2.1

theorem statementCovers_touch : StatementCovers c (fun _ => True) (Touch True) where
  toCovers := covers_touch c
  entered r stmt := .inside r.frames stmt r.facts.stmts trivial
  recorded r stmts := .inside r.frames r.stmt stmts trivial

theorem touch_refuse (id : NodeId) (message : String) : Moves (Touch inner) (refuse c id message) :=
  (covers_touch c).moves_refuse id message

theorem touch_expr (n : Nat) (id : NodeId) : Moves (Touch inner) (expr c n id) :=
  (covers_touch c).moves_expr n id

theorem touch_declaration (id : NodeId) : Moves (Touch inner) (declaration c id) :=
  (covers_touch c).moves_declaration trivial

theorem touch_localVariable (id : NodeId) : Moves (Touch True) (localVariable c id) :=
  (covers_touch c).moves_localVariable trivial id

theorem touch_statement (n : Nat) (id : NodeId) (reachable : Bool) :
    Moves (Touch True) (statement c n id reachable) :=
  (statementCovers_touch c).moves_statement n id reachable

theorem touch_parameter (fn id : NodeId) : Moves (Touch True) (parameter c fn id) :=
  (covers_touch c).moves_parameter trivial fn id

end

end ShaderLoom.Resolve

namespace ShaderLoom.Program

/-- What resolution of the program works on. -/
def scene (p : Program) : Scene :=
  ⟨p.toArena, (p.globals.foldl (Resolve.collect p.toArena) ([], [])).1,
    (p.treeIds.length + 2) * (p.treeIds.length + 2)⟩

/-- Where it starts: with the problems found among the names. -/
def unresolved (p : Program) : Resolver :=
  { diagnostics := (p.globals.foldl (Resolve.collect p.toArena) ([], [])).2 }

/-- Where it ends. -/
def outcome (p : Program) : Resolver := ((Resolve.module p.scene p.globals).run p.unresolved).2

theorem length_lt_fuel (p : Program) : p.treeIds.length < p.scene.fuel := by
  have : (p.treeIds.length + 2) * 1 ≤ p.scene.fuel := Nat.mul_le_mul_left _ (by omega)
  omega

/-- A builder without problems of its own is resolved. -/
theorem outcome_build {b : Builder} (h : b.diagnostics.hasErrors = false) :
    b.build.facts = b.build.outcome.facts ∧ b.build.diagnostics = b.diagnostics ++
    b.build.outcome.diagnostics := by
  have hglobals := b.globals_build
  constructor
  · have hfacts : b.build.facts = (resolve b.build.toArena b.globals b.build.treeIds.length).1 := by
      simp only [Builder.build, h]
      rfl
    rw [hfacts, ← hglobals]
    rfl
  · have hdiagnostics : b.build.diagnostics =
        b.diagnostics ++ (resolve b.build.toArena b.globals b.build.treeIds.length).2 := by
      simp only [Builder.build, h]
      rfl
    rw [hdiagnostics, ← hglobals]
    rfl

theorem noErrors_of_valid {b : Builder} (h : b.build.valid = true) :
    b.diagnostics.hasErrors = false ∧ b.build.outcome.diagnostics.hasErrors = false := by
  have hnone : b.diagnostics.hasErrors = false := by
    simp only [valid, Builder.build, Diagnostics.hasErrors, List.any_append, Bool.not_or,
      Bool.and_eq_true, Bool.not_eq_true'] at h
    exact h.1
  refine ⟨hnone, ?_⟩
  simp only [valid, (outcome_build hnone).2, Diagnostics.hasErrors, List.any_append, Bool.not_or,
    Bool.and_eq_true, Bool.not_eq_true'] at h
  exact h.2

end ShaderLoom.Program
