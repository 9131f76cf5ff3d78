import ShaderLoom.Proofs.Meaning.Touch
import ShaderLoom.Proofs.Meaning.Typed

/-! The tables of what resolution has found out so far, and what each of its records does to
them. -/
namespace ShaderLoom

/-- Facts as far as resolution asks for them again. -/
def Facts.table (f : Facts) : Table where
  types i := f.types[i]?
  names i := f.typeDecls[i]?
  structs i := f.structs[i]?
  results i := f.functions[i]?.map FunctionFacts.returnType
  latest i := f.latest[i]?
  vars n := f.vars[n]?.map fun v => ⟨v.decl, v.type⟩
  size := f.vars.size
  senses i := f.exprs[i]?.map fun e => { e with stmt := 0 }

namespace Facts

variable (f : Facts)

theorem lookup_insert {β : Type} (m : NodeMap β) (i : NodeId) (x : β) :
    (fun k => (m.insert i x)[k]?) = Function.update (fun k => m[k]?) i (some x) := by
  funext k
  rw [Std.TreeMap.getElem?_insert, Function.update_apply]
  by_cases h : k = i
  · subst h
    simp
  · rw [if_neg h, if_neg (by simpa using Ne.symm h)]

theorem table_setType (i : NodeId) (t : Ty) :
    ({ f with types := f.types.insert i t } : Facts).table = f.table.setType i t := by
  simp only [table, Table.setType, lookup_insert]

theorem table_setName (i d : NodeId) :
    ({ f with typeDecls := f.typeDecls.insert i d } : Facts).table = f.table.setName i d := by
  simp only [table, Table.setName, lookup_insert]

theorem table_setStruct (d : NodeId) (s : StructFacts) :
    ({ f with structs := f.structs.insert d s } : Facts).table = f.table.setStruct d s := by
  simp only [table, Table.setStruct, lookup_insert]

theorem table_note (i : NodeId) (e : ExprFacts) :
    ({ f with exprs := f.exprs.insert i e } : Facts).table =
    f.table.note i { e with stmt := 0 } := by
  simp only [table, Table.note, Table.mk.injEq, true_and]
  funext k
  have := congrFun (lookup_insert f.exprs i e) k
  rw [this, Function.update_apply, Function.update_apply]
  split <;> rfl

theorem table_addVariable (v : VariableFacts) :
    (f.addVariable v).table = f.table.addValue v.decl v.type := by
  simp only [table, addVariable, Table.addValue, lookup_insert, Array.size_push, Table.mk.injEq,
    true_and, and_true]
  funext n
  rw [Array.getElem?_push, Function.update_apply]
  split <;> rfl

theorem table_addUser (n : VariableId) (i : NodeId) :
    ({ f with vars := f.vars.modify n fun v => { v with users := v.users ++ [i] } } : Facts).table =
    f.table := by
  simp only [table, Array.size_modify, Table.mk.injEq, true_and, and_true]
  funext k
  rw [Array.getElem?_modify]
  split
  · cases f.vars[k]? <;> rfl
  · rfl

theorem results_modify {fs : NodeMap FunctionFacts} {g : FunctionFacts → FunctionFacts}
    (hg : ∀ x, (g x).returnType = x.returnType) (d : NodeId) :
    (fun i : NodeId => ((fs.modify d g)[i]?).map FunctionFacts.returnType) = fun i =>
      (fs[i]?).map FunctionFacts.returnType := by
  funext i
  rw [Std.TreeMap.getElem?_modify]
  split
  · next h =>
    rw [Nat.compare_eq_eq] at h
    subst h
    cases fs[d]? with
    | none => rfl
    | some x => simp [hg]
  · rfl

theorem table_modify {g : FunctionFacts → FunctionFacts} (hg : ∀ x, (g x).returnType = x.returnType)
    (d : NodeId) : ({ f with functions := f.functions.modify d g } : Facts).table = f.table := by
  simp only [table, results_modify hg]

/-- A function that is there gets a result type. -/
theorem table_setResult {g : FunctionFacts → FunctionFacts} {t : Option Ty}
    (hg : ∀ x, (g x).returnType = t) {d : NodeId} (hd : f.functions[d]?.isSome) :
    ({ f with functions := f.functions.modify d g } : Facts).table = f.table.setResult d t := by
  simp only [table, Table.setResult, Table.mk.injEq, true_and, and_true]
  funext i
  rw [Std.TreeMap.getElem?_modify, Function.update_apply]
  by_cases h : i = d
  · subst h
    obtain ⟨x, hx⟩ := Option.isSome_iff_exists.1 hd
    simp [hx, hg]
  · rw [if_neg h, if_neg (by simpa using Ne.symm h)]

theorem table_insertFunction (d : NodeId) (x : FunctionFacts) :
    ({ f with functions := f.functions.insert d x } : Facts).table =
    f.table.setResult d x.returnType := by
  simp only [table, Table.setResult, Table.mk.injEq, true_and, and_true]
  funext i
  have := congrFun (lookup_insert f.functions d x) i
  rw [this, Function.update_apply, Function.update_apply]
  split <;> rfl

theorem table_summarize (gs : List NodeId) : (f.summarize gs).table = f.table := by
  have hhead : ∀ i : NodeId, ((f.summarize gs).functions[i]?).map FunctionFacts.returnType =
      (f.functions[i]?).map FunctionFacts.returnType := by
    intro i
    have := congrArg (Option.map Prod.fst) (Resolve.headAt_summarize f gs i)
    simpa [Resolve.headAt, Resolve.headOf, Function.comp_def] using this
  obtain ⟨functions, entryPoints, h⟩ := f.summarize_eq gs
  rw [h] at hhead ⊢
  simp only [table, hhead]

/-- What `object.name` is. -/
theorem selected_eq (name : String) (t : Ty) :
    (∃ message, Resolve.selected f name t = .error message ∧ f.table.select name t = none) ∨
    ∃ g e, Resolve.selected f name t = .ok g ∧ f.table.select name t = some e ∧
      ∀ stmt, g { stmt } = { e with stmt } := by
  unfold Resolve.selected Table.select
  split
  · next d _ =>
    cases h : f.structs[d]?.bind (·.member? name) with
    | none => exact .inl ⟨_, rfl, by simp [table, h]⟩
    | some m => exact .inr ⟨_, { member := some m, type := m.type },
        rfl, by simp [table, h], fun _ => rfl⟩
  · next e w =>
    split
    · next i h => exact .inr ⟨_, { swizzle := some [i], type := some e },
        rfl, by simp [h], fun _ => rfl⟩
    · next is hne h =>
      have : is.length ≠ 1 := fun hl => by
        obtain ⟨i, rfl⟩ := List.length_eq_one_iff.1 hl
        exact hne i rfl
      exact .inr ⟨_, { swizzle := some is, type := some (.vector e is.length) },
        rfl, by simp [h, this], fun _ => rfl⟩
    · next h => exact .inl ⟨_, rfl, by simp [h]⟩
  · next h₁ h₂ => exact .inl ⟨_, rfl, by simp⟩

end Facts

namespace Resolve

variable {α β ι : Type}

/-- What holds after a step that finds no problem. -/
def Finds (step : Resolve α) (r : Resolver) (Q : α → Resolver → Prop) : Prop :=
  Ends step r fun x r' => r'.diagnostics = r.diagnostics ∧ Q x r'

namespace Finds

variable {r : Resolver} {Q : α → Resolver → Prop}

theorem mono {step : Resolve α} {Q' : α → Resolver → Prop} (h : Finds step r Q)
    (hq : ∀ x r', Q x r' → Q' x r') : Finds step r Q' :=
  Ends.mono h fun x r' h => ⟨h.1, hq x r' h.2⟩

theorem pure {x : α} (h : Q x r) : Finds (pure x : Resolve α) r Q := Ends.pure ⟨rfl, h⟩

theorem bind {step : Resolve β} {next : β → Resolve α} {P : β → Resolver → Prop}
    (h : Finds step r P) (h' : ∀ x r₁, P x r₁ → Finds (next x) r₁ Q) : Finds (step >>= next) r Q :=
  Ends.bind (Ends.mono h fun x r₁ h₁ => Ends.mono (h' x r₁ h₁.2) fun _ _ h₂ =>
    ⟨h₂.1.trans h₁.1, h₂.2⟩)

theorem get {next : Resolver → Resolve α} (h : Finds (next r) r Q) : Finds (get >>= next) r Q :=
  Ends.get h

theorem modify {g : Resolver → Resolver} {Q : Unit → Resolver → Prop}
    (hd : (g r).diagnostics = r.diagnostics) (h : Q () (g r)) :
    Finds (modify g : Resolve Unit) r Q := Ends.modify ⟨hd, h⟩

theorem mapFacts {g : Facts → Facts} {Q : Unit → Resolver → Prop}
    (h : Q () { r with facts := g r.facts }) : Finds (mapFacts g) r Q := modify rfl h

end Finds

/-- The levels and what is pending are the same as before. -/
structure Steady (r r' : Resolver) : Prop where
  pending : r'.pending = r.pending
  frames : r'.frames = r.frames

theorem Steady.refl (r : Resolver) : Steady r r := ⟨rfl, rfl⟩

theorem Steady.trans {r r₁ r₂ : Resolver} (h : Steady r r₁) (h' : Steady r₁ r₂) : Steady r r₂ :=
  ⟨h'.pending.trans h.pending, h'.frames.trans h.frames⟩

section Records

variable {r : Resolver}

theorem finds_keepType (i : NodeId) (t : Option Ty) :
    Finds (keepType i t) r fun u r' =>
      u = t ∧ Steady r r' ∧ r'.facts.table = r.facts.table.keepType i t := by
  cases t with
  | none => exact .pure ⟨rfl, .refl r, rfl⟩
  | some t =>
    have hset : Finds (setType i t) r fun _ r' =>
        Steady r r' ∧ r'.facts.table = r.facts.table.setType i t :=
      .mapFacts ⟨⟨rfl, rfl⟩, Facts.table_setType _ _ _⟩
    exact hset.bind fun _ _ h => .pure ⟨rfl, h⟩

theorem finds_setExpr (i : NodeId) (e : ExprFacts) :
    Finds (setExpr i e) r fun _ r' =>
      Steady r r' ∧ r'.facts.table = r.facts.table.note i { e with stmt := 0 } :=
  .mapFacts ⟨⟨rfl, rfl⟩, Facts.table_note _ _ _⟩

theorem finds_finish (i : NodeId) (e : ExprFacts) : Finds (finish i e) r fun t r' =>
    t = e.type ∧ Steady r r' ∧ r'.facts.table = r.facts.table.note i { e with stmt := 0 } :=
  (finds_setExpr i e).bind fun _ _ h => .pure ⟨rfl, h⟩

theorem finds_updateFunction {g : FunctionFacts → FunctionFacts}
    (hg : ∀ x, (g x).returnType = x.returnType) (d : NodeId) :
    Finds (updateFunction d g) r fun _ r' => Steady r r' ∧ r'.facts.table = r.facts.table :=
  .mapFacts ⟨⟨rfl, rfl⟩, Facts.table_modify _ hg d⟩

theorem finds_useGlobal (n : VariableId) :
    Finds (useGlobal n) r fun _ r' => Steady r r' ∧ r'.facts.table = r.facts.table := by
  unfold useGlobal
  refine .get ?_
  split
  · split
    · exact .pure ⟨.refl r, rfl⟩
    · have hseen : Finds (modify fun r => { r with seenGlobals := n :: r.seenGlobals } :
        Resolve Unit) r fun _ r' =>
          Steady r r' ∧ r'.facts.table = r.facts.table := .modify rfl ⟨⟨rfl, rfl⟩, rfl⟩
      refine hseen.bind fun _ r₁ h₁ => (finds_updateFunction ?_ _).mono fun _ r₂ h₂ =>
        ⟨h₁.1.trans h₂.1, h₂.2.trans h₁.2⟩
      exact fun _ => rfl
  · exact .pure ⟨.refl r, rfl⟩

theorem finds_useCallee (d : NodeId) :
    Finds (useCallee d) r fun _ r' => Steady r r' ∧ r'.facts.table = r.facts.table := by
  unfold useCallee
  refine .get ?_
  split
  · split
    · exact .pure ⟨.refl r, rfl⟩
    · have hseen : Finds (modify fun r => { r with seenCallees := d :: r.seenCallees } :
        Resolve Unit) r fun _ r' =>
          Steady r r' ∧ r'.facts.table = r.facts.table := .modify rfl ⟨⟨rfl, rfl⟩, rfl⟩
      refine hseen.bind fun _ r₁ h₁ => (finds_updateFunction ?_ _).mono fun _ r₂ h₂ =>
        ⟨h₁.1.trans h₂.1, h₂.2.trans h₁.2⟩
      exact fun _ => rfl
  · exact .pure ⟨.refl r, rfl⟩

theorem finds_useVariable (i stmt : NodeId) (n : VariableId) :
    Finds (useVariable i { stmt } n) r fun t r' =>
    t = r.facts.table.typeAt n ∧ Steady r r' ∧ r'.facts.table = r.facts.table.use i n := by
  unfold useVariable
  refine .get ?_
  cases hv : r.facts.vars[n]? with
  | none =>
    refine .pure ⟨?_, .refl r, ?_⟩
    · simp [Table.typeAt, Facts.table, hv]
    · simp [Table.use, Table.identifier?, Facts.table, hv, Table.keepSense]
  | some v =>
    have hend : ∀ r', Steady r r' →
        r'.facts.table = r.facts.table.note i { variableId := some n, type := v.type } →
        v.type = r.facts.table.typeAt n ∧ Steady r r' ∧ r'.facts.table = r.facts.table.use i n := by
      intro r' hs ht
      refine ⟨by simp [Table.typeAt, Facts.table, hv], hs, ?_⟩
      rw [ht]
      simp [Table.use, Table.identifier?, Facts.table, hv, Table.keepSense]
    have huser : ∀ r, Finds (Resolve.mapFacts fun f => { f with
        vars := f.vars.modify n fun v => { v with users := v.users ++ [i] } }) r fun _ r' =>
          Steady r r' ∧ r'.facts.table = r.facts.table :=
            fun r => .mapFacts ⟨⟨rfl, rfl⟩, Facts.table_addUser _ _ _⟩
    refine (finds_setExpr i { stmt, variableId := some n, type := v.type }).bind fun _ r₁ h₁ => ?_
    refine (huser r₁).bind fun _ r₂ h₂ => ?_
    split
    · exact (finds_useGlobal n).bind fun _ r₃ h₃ => .pure
        (hend r₃ (h₁.1.trans (h₂.1.trans h₃.1)) (by rw [h₃.2, h₂.2, h₁.2]))
    · exact .pure (hend r₂ (h₁.1.trans h₂.1) (by rw [h₂.2, h₁.2]))

theorem finds_declareLocal (s : Symbol) (d : NodeId) : Finds (declareLocal s d) r fun new r' =>
    r'.pending = r.pending ∧ r'.facts = r.facts ∧
      ((new = true ∧ declareIn r.frames s d = some r'.frames) ∨
      (new = false ∧ declareIn r.frames s d = none)) := by
  unfold declareLocal
  refine Ends.modifyGet ?_
  split
  · next h => exact ⟨rfl, rfl, rfl, .inl ⟨rfl, by simp [h, declareIn]⟩⟩
  · next top rest h =>
    split
    · next hold => exact ⟨rfl, rfl, rfl, .inr ⟨rfl, by simp [h, declareIn, hold]⟩⟩
    · next hnew => exact ⟨rfl, rfl, rfl, .inl ⟨rfl, by simp [h, declareIn, hnew]⟩⟩

/-- One more variable. -/
theorem finds_addVariable (a : Arena) (d : NodeId) (v : VariableShape Symbol NodeId)
    (scope : VariableScope) (t : Option Ty) : Finds (do
      let number := (← MonadState.get).facts.vars.size
      mapFacts (·.addVariable (variableFacts a d v scope t))
      return some number) r fun made r' =>
        made = some r.facts.table.size ∧ Steady r r' ∧
        r'.facts.table = r.facts.table.addValue d t := by
  have hset : Finds (mapFacts (·.addVariable (variableFacts a d v scope t))) r fun _ r' =>
      Steady r r' ∧ r'.facts.table = r.facts.table.addValue d t := by
    refine .mapFacts ⟨⟨rfl, rfl⟩, ?_⟩
    rw [Facts.table_addVariable, decl_variableFacts, type_variableFacts]
  exact .get (hset.bind fun _ _ h => .pure ⟨rfl, h⟩)

theorem finds_setStmt (i : NodeId) (live : Bool) : Finds (setStmt i live) r fun _ r' =>
    Steady r r' ∧ r'.facts.table = r.facts.table := .modify rfl ⟨⟨rfl, rfl⟩, rfl⟩

theorem finds_setBehaviors (i : NodeId) (b : Behaviors) : Finds (setBehaviors i b) r fun _ r' =>
    Steady r r' ∧ r'.facts.table = r.facts.table := .modify rfl ⟨⟨rfl, rfl⟩, rfl⟩

theorem finds_enter (i : NodeId) :
    Finds (modify fun r => { r with stmt := i } : Resolve Unit) r fun _ r' =>
    Steady r r' ∧ r'.facts.table = r.facts.table := .modify rfl ⟨⟨rfl, rfl⟩, rfl⟩

theorem finds_pushFrame : Finds pushFrame r fun _ r' => r' = { r with frames := [] :: r.frames } :=
  .modify rfl rfl

theorem finds_popFrame : Finds popFrame r fun _ r' => r' = { r with frames := r.frames.drop 1 } :=
  .modify rfl rfl

theorem finds_openStruct (d : NodeId) (name : String) : Finds (mapFacts fun f => { f with
    structs := f.structs.insert d { decl := d, name }
    types := f.types.insert d (.struct d name) }) r fun _ r' => Steady r r' ∧
      r'.facts.table = (r.facts.table.setStruct d { decl := d, name }).setType d
      (.struct d name) := by
  refine .mapFacts ⟨⟨rfl, rfl⟩, ?_⟩
  rw [← Facts.table_setStruct, ← Facts.table_setType]

theorem finds_setStruct (d : NodeId) (s : StructFacts) : Finds (mapFacts fun f => { f with
    structs := f.structs.insert d s }) r fun _ r' =>
      Steady r r' ∧ r'.facts.table = r.facts.table.setStruct d s :=
  .mapFacts ⟨⟨rfl, rfl⟩, Facts.table_setStruct _ _ _⟩

theorem finds_setName (i d : NodeId) : Finds (mapFacts fun f => { f with
    typeDecls := f.typeDecls.insert i d }) r fun _ r' =>
      Steady r r' ∧ r'.facts.table = r.facts.table.setName i d :=
  .mapFacts ⟨⟨rfl, rfl⟩, Facts.table_setName _ _ _⟩

theorem finds_pend (d : NodeId) :
    Finds (modify fun r => { r with pending := d :: r.pending } : Resolve Unit) r
    fun _ r' => r' = { r with pending := d :: r.pending } := .modify rfl rfl

theorem finds_settle (d : NodeId) :
    Finds (modify fun r => { r with pending := r.pending.erase d } : Resolve Unit) r
    fun _ r' => r' = { r with pending := r.pending.erase d } := .modify rfl rfl

theorem finds_openFunction (d : NodeId) : Finds (modify fun r => { r with
    function := some d, seenGlobals := [], seenCallees := [], frames :=
  [[]] } : Resolve Unit) r fun _ r' =>
      r'.pending = r.pending ∧ r'.frames = [[]] ∧ r'.facts = r.facts := .modify rfl ⟨rfl, rfl, rfl⟩

theorem finds_newFunction (d : NodeId) (name : String) : Finds (mapFacts fun fs => { fs with
    functions := fs.functions.insert d { decl := d, name } }) r fun _ r' =>
      Steady r r' ∧ r'.facts.table = r.facts.table.setResult d (some .void) :=
  .mapFacts ⟨⟨rfl, rfl⟩, Facts.table_insertFunction _ _ _⟩

theorem finds_setResult {g : FunctionFacts → FunctionFacts} {t : Option Ty}
    (hg : ∀ x, (g x).returnType = t) (d : NodeId) :
    Finds (updateFunction d g) r fun _ r' => Steady r r' ∧
      ((r.facts.table.results d).isSome → r'.facts.table = r.facts.table.setResult d t) := by
  refine .mapFacts ⟨⟨rfl, rfl⟩, fun hsome => Facts.table_setResult _ hg ?_⟩
  simpa [Facts.table] using hsome

end Records

/-- The levels after a declaration in a scope; the module's own are not among them. -/
def declareAs (scope : VariableScope) (Γ : List Frame) (s : Symbol) (d : NodeId) :
    Option (List Frame) :=
  if scope = .global then some Γ else declareIn Γ s d

/-- The part of a call after the arguments. -/
def callTarget (c : Scene) (id : NodeId) (facts : ExprFacts) (target : NodeId)
    (argTypes : List (Option Ty)) : Resolve (Option Ty) := do
  match c.arena.shape? target with
  | some (.type _) => do finish id { facts with type := ← type c c.fuel target }
  | some (.expr (.ident s)) =>
    match c.module.find? s with
    | none => callBuiltin c id facts (c.arena.nameOf s) argTypes
    | some decl =>
      match c.arena.shape? decl with
      | some (.decl (.function _)) => callFunction c id facts (c.arena.nameOf s) decl
      | some (.decl (.struct _ _ _)) | some (.decl (.typeAlias _ _)) => do
        finish id { facts with type := ← typeDecl c c.fuel decl }
      | _ => callBuiltin c id facts (c.arena.nameOf s) argTypes
  | _ => refuse c id "call target must be a name or a type"

theorem call_succ (c : Scene) (n : Nat) (id : NodeId) (facts : ExprFacts) (target : NodeId)
    (args : List NodeId) :
    call c (n + 1) id facts target args = args.mapM (expr c n) >>=
    callTarget c id facts target := by
  rw [call]
  rfl

end Resolve

end ShaderLoom
