import ShaderLoom.Proofs.Copy.Plan
import ShaderLoom.Proofs.Copy.Trim
import ShaderLoom.Proofs.Pass.Hoist
import ShaderLoom.Proofs.Symbols

/-! What hoisting makes of a program. Each expression that was moved has a declaration of a new name
with a copy of the expression, a place for the declaration, and references where it stood. The rest
of the program is copied around them, and loops and conditionals with declarations in their headers
take their lowered forms. -/
namespace ShaderLoom

open Copy Builder.Mode

namespace Hoist

/-- Where a declaration goes: before a statement in its block, into a loop before its condition or
its continuing part, or before the condition of an `else if`. -/
inductive Place where
  | before (id : NodeId)
  | condition (id : NodeId)
  | continuing (id : NodeId)
  | otherwise (id : NodeId)
  deriving DecidableEq

/-- The place before a statement. -/
def placeBefore (p : Program) : Nat → NodeId → Option Place
  | 0, _ => none
  | n + 1, id =>
    if (p.shape? id).isNone then none
    else if isElseOf p id then some (.otherwise id)
    else match p.shape? (p.parent id) with
      | some (.stmt (.block _)) => some (.before id)
      | some (.stmt (.forLoop init _ continuing _)) =>
        if id = init then placeBefore p n (p.parent id)
        else if id = continuing then some (.continuing (p.parent id)) else none
      | _ => none

/-- The place for the declaration of an expression. -/
def place (p : Program) (e : NodeId) : Option Place :=
  if isLoopHeader p (p.statementOf e) then some (.condition (p.statementOf e))
  else placeBefore p (p.size + 1) (p.statementOf e)

/-- An expression that was moved, and its declaration. -/
structure Moved where
  expr : NodeId
  name : Symbol
  value : NodeId
  decl : NodeId
  stmt : NodeId
  kind : VariableKind

/-- The declarations at a place, in the order in which they were made. -/
def declaredAt (p : Program) (ms : List Moved) (x : Place) : List NodeId :=
  (ms.filter fun m => place p m.expr = some x).map (·.stmt)

section Places

/-- One more expression with a declaration. -/
theorem declaredAt_concat (p : Program) (ms : List Moved) (m : Moved) (x : Place) :
    declaredAt p (ms ++ [m]) x =
    declaredAt p ms x ++ if place p m.expr = some x then [m.stmt] else [] := by
  by_cases hx : place p m.expr = some x <;> simp [declaredAt, hx]

theorem mem_declaredAt {p : Program} {ms : List Moved} {x : Place} {y : NodeId} :
    y ∈ declaredAt p ms x ↔ ∃ m ∈ ms, place p m.expr = some x ∧ m.stmt = y := by
  simp [declaredAt, and_assoc]

theorem isIf_of_isElseOf {p : Program} {i : NodeId} (h : isElseOf p i = true) : p.isIf i := by
  unfold isElseOf at h
  split at h
  · next hs _ => exact ⟨_, _, _, hs⟩
  · cases h

/-- What is known of a place that was found. -/
def Place.Suits (p : Program) : Place → Prop
  | .before id => (p.shape? id).isSome ∧ ∃ ss, p.shape? (p.parent id) = some (.stmt (.block ss))
  | .condition id => isLoopHeader p id = true
  | .continuing id =>
    ∃ init cond continuing body, p.shape? id = some (.stmt (.forLoop init cond continuing body)) ∧
      continuing ≠ init ∧ p.parent continuing = id
  | .otherwise id => isElseOf p id = true

theorem suits_of_placeBefore {p : Program} {n : Nat} {id : NodeId} {x : Place}
    (h : placeBefore p n id = some x) : x.Suits p := by
  induction n generalizing id with
  | zero => cases h
  | succ n ih =>
    unfold placeBefore at h
    split at h
    · cases h
    next hid =>
    split at h
    · next helse =>
      cases h
      exact helse
    split at h
    · next hparent =>
      cases h
      exact ⟨Option.isSome_iff_ne_none.2 (by simpa using hid), _, hparent⟩
    · next init cond continuing body hparent =>
      split at h
      · exact ih h
      next hinit =>
      split at h
      · next hcont =>
        cases h
        subst hcont
        exact ⟨_, _, _, _, hparent, hinit, rfl⟩
      · cases h
    · cases h

theorem suits_of_place {p : Program} {e : NodeId} {x : Place} (h : place p e = some x) :
    x.Suits p := by
  unfold place at h
  split at h
  · next hloop =>
    cases h
    exact hloop
  · exact suits_of_placeBefore h

/-- A declaration is put at a place. -/
def put : Place → NodeId → Edit Rule Hoist Unit
  | .before id, y => Edit.insertBefore id y
  | .condition id, y =>
    changeRecord (·.onLoop id fun l => { l with condition := l.condition ++ [y] })
  | .continuing id, y =>
    changeRecord (·.onLoop id fun l => { l with continuing := l.continuing ++ [y] })
  | .otherwise id, y =>
    changeRecord (·.onElse id fun e => { e with condition := e.condition ++ [y] })

/-- The session after that. -/
def Place.joined (y : NodeId) (s : Session Rule Hoist) : Place → Session Rule Hoist
  | .before id => { s with before := update s.before id (s.before id ++ [y]) }
  | .condition id =>
    { s with state := s.state.onLoop id fun l => { l with condition := l.condition ++ [y] } }
  | .continuing id =>
    { s with state := s.state.onLoop id fun l => { l with continuing := l.continuing ++ [y] } }
  | .otherwise id =>
    { s with state := s.state.onElse id fun e => { e with condition := e.condition ++ [y] } }

variable {p : Program} {w : World Rule Hoist}

theorem runs_put {x : Place} {y : NodeId} (hs : w.1.source = p) (ht : p.TreeShaped) (hx : x.Suits p)
    (hy : (w.1.target.node? y).isSome) :
    Runs (put x y) w (fun _ => False) fun _ w' => w' = (x.joined y w.1, w.2) := by
  cases x with
  | before id =>
    obtain ⟨hid, ss, hparent⟩ := hx
    obtain ⟨n, hn⟩ := Option.isSome_iff_exists.1 hid
    obtain ⟨node, hnode, _⟩ := Option.map_eq_some_iff.1 hn
    obtain ⟨around, haround, hshape⟩ := Option.map_eq_some_iff.1 hparent
    have h0 : p.parent id ≠ 0 := Nat.ne_of_gt (Arena.range_of_node? haround).1
    have hin : p.inTree id = true := by simp [Program.inTree, h0]
    obtain ⟨hchild, _⟩ := ht.parent_holds h0
    obtain ⟨n', hn', hmem, _⟩ := Arena.mem_children.1 hchild
    cases haround.symm.trans hn'
    have hheld : around.holdsInList id = true := by
      simpa [Node.holdsInList, hshape, Shape.lists, Shape.slots] using hmem
    subst hs
    have helement : IsElement w.1.source id :=
      ⟨⟨Option.isSome_iff_exists.2 ⟨node, hnode⟩, hin⟩, by rwa [haround, Option.any_some]⟩
    exact Runs.of_ok (beside_ok.2 ⟨⟨helement, hy⟩, rfl⟩) w.2 rfl
  | condition id => exact Runs.modify w.2 rfl
  | continuing id => exact Runs.modify w.2 rfl
  | otherwise id => exact Runs.modify w.2 rfl

/-- The search for a place before a statement ends at the place, where there is one. -/
theorem runs_insertBefore {E : Stop → Prop} {Q : Unit → World Rule Hoist → Prop}
    (hs : w.1.source = p) (n : Nat) (id y : NodeId) (hnone : placeBefore p n id = none → ∀ e, E e)
    (h : ∀ x, placeBefore p n id = some x → Runs (Work.edit (put x y)) w E Q) :
    Runs (insertBefore n id y) w E Q := by
  induction n generalizing id with
  | zero => exact Runs.throw (hnone rfl _)
  | succ n ih =>
    unfold insertBefore
    unfold placeBefore at hnone h
    refine Runs.bind (Runs.get ?_)
    simp only [hs]
    cases hid : p.shape? id with
    | none => exact Runs.throw (hnone (by simp [hid]) _)
    | some shape =>
      simp only [hid, Option.isNone_some, Bool.false_eq_true, if_false] at hnone h
      dsimp only
      split
      · next helse => exact h (.otherwise id) (by simp [helse])
      · next helse =>
        simp only [helse, Bool.false_eq_true, if_false] at hnone h
        split
        · next hparent => exact h (.before id) (by simp [hparent])
        · next hparent =>
          simp only [hparent] at hnone h
          split
          · next hinit =>
            rw [if_pos hinit] at hnone h
            exact ih _ hnone h
          · next hinit =>
            simp only [hinit, if_false] at hnone h
            split
            · next hcont => exact h (.continuing (p.parent id)) (by rw [if_pos hcont])
            · next hcont => exact Runs.throw (hnone (by simp [hcont]) _)
        · next h₁ h₂ =>
          refine Runs.throw (hnone ?_ _)
          split
          · next hparent => exact absurd hparent (h₁ _)
          · next hparent => exact absurd hparent (h₂ _ _ _ _)
          · rfl

end Places

section Requests

variable {p : Program} {ms : List Moved} {s : Session Rule Hoist}

/-- Some declaration goes into the loop. -/
def LoopWith (p : Program) (ms : List Moved) (k : NodeId) : Prop :=
  ∃ m ∈ ms, place p m.expr = some (.condition k) ∨ place p m.expr = some (.continuing k)

/-- Some declaration goes before the condition of the `else if`. -/
def ElseWith (p : Program) (ms : List Moved) (k : NodeId) : Prop :=
  ∃ m ∈ ms, place p m.expr = some (.otherwise k)

/-- What is to become of a node. -/
inductive Ruling (p : Program) (ms : List Moved) : NodeId → Rule → Prop
  | reference {m} : m ∈ ms → Ruling p ms m.expr (.reference m.name)
  | loop {k} : LoopWith p ms k → Ruling p ms k (.lowerLoop k)
  | otherwise {k} : ElseWith p ms k → Ruling p ms k (.lowerElse k)

/-- A session with declarations at their places. -/
structure Noted (p : Program) (ms : List Moved) (s : Session Rule Hoist) : Prop where
  source : s.source = p
  removed : s.removed = fun _ => false
  after : s.after = fun _ => []
  front : s.front = fun _ _ => []
  back : s.back = fun _ _ => []
  handlers : s.handlers = []
  symbols : s.symbols = []
  symbolRule : s.symbolRule = none
  copied : s.copied = false
  before : ∀ k, s.before k = declaredAt p ms (.before k)
  loop : ∀ k, s.state.loopOf k = ⟨k, declaredAt p ms (.condition k),
    declaredAt p ms (.continuing k)⟩
  otherwise : ∀ k, s.state.elseOf k = ⟨k, declaredAt p ms (.otherwise k)⟩
  loops : (s.state.loops.map (·.id)).Nodup ∧ ∀ k, k ∈ s.state.loops.map (·.id) ↔ LoopWith p ms k
  elseIfs : (s.state.elseIfs.map (·.id)).Nodup ∧ ∀ k, k ∈ s.state.elseIfs.map (·.id) ↔
    ElseWith p ms k

/-- A session in which expressions have declarations already, and nothing is lowered yet. -/
structure Requested (p : Program) (ms : List Moved) (s : Session Rule Hoist) :
    Prop extends Noted p ms s where
  replacements : ∀ k r, s.replacements k = some r ↔
    ∃ m ∈ ms, m.expr = k ∧ r = .handler (.reference m.name)

/-- A session in which all is registered. -/
structure Applied (p : Program) (ms : List Moved) (s : Session Rule Hoist) :
    Prop extends Noted p ms s where
  replacements : ∀ k r, s.replacements k = some r ↔ ∃ rule, Ruling p ms k rule ∧ r = .handler rule

theorem Requested.start (p : Program) : Requested p [] (Session.start p {}) where
  source := rfl
  removed := rfl
  after := rfl
  front := rfl
  back := rfl
  handlers := rfl
  symbols := rfl
  symbolRule := rfl
  copied := rfl
  before _ := rfl
  loop _ := rfl
  otherwise _ := rfl
  loops := by simp [Session.start, LoopWith]
  elseIfs := by simp [Session.start, ElseWith]
  replacements := by simp [Session.start]

/-- A list searched by keys has an element for the key that was changed, and those it had. -/
theorem keys_changed {α : Type} {key : α → NodeId} {f : α → α} (hf : ∀ x, key (f x) = key x)
    (blank : α) {id : NodeId} (hb : key blank = id) (xs : List α) (hxs : (xs.map key).Nodup) :
    let ys := if xs.any (key · == id) then xs.map fun x =>
      if key x == id then f x else x else xs ++ [f blank]
    (ys.map key).Nodup ∧ ∀ k, k ∈ ys.map key ↔ k ∈ xs.map key ∨ k = id := by
  have hsame : (xs.map fun x => if key x == id then f x else x).map key = xs.map key := by
    simp only [List.map_map, List.map_inj_left, Function.comp_apply]
    intro x _
    split
    · exact hf x
    · rfl
  dsimp only
  split
  · next hany =>
    obtain ⟨x, hx, hkey⟩ := List.any_eq_true.1 hany
    rw [hsame]
    refine ⟨hxs, fun k => ⟨.inl, ?_⟩⟩
    rintro (h | rfl)
    · exact h
    · exact List.mem_map.2 ⟨x, hx, by simpa using hkey⟩
  · next hany =>
    have hnot : id ∉ xs.map key := fun hmem => hany (by
      obtain ⟨x, hx, hkey⟩ := List.mem_map.1 hmem
      exact List.any_eq_true.2 ⟨x, hx, by simpa using hkey⟩)
    rw [List.map_append, List.map_singleton, hf, hb]
    refine ⟨List.nodup_append.2 ⟨hxs, List.nodup_singleton _, ?_⟩, fun k => by simp⟩
    rintro a ha _ hmem rfl
    rw [List.mem_singleton] at hmem
    exact hnot (hmem ▸ ha)

theorem keys_onLoop (h : Hoist) (id : NodeId) {f : PendingLoop → PendingLoop}
    (hf : ∀ l, (f l).id = l.id) (hn : (h.loops.map (·.id)).Nodup) :
    ((h.onLoop id f).loops.map (·.id)).Nodup ∧
      ∀ k, k ∈ (h.onLoop id f).loops.map (·.id) ↔ k ∈ h.loops.map (·.id) ∨ k = id := by
  have hkeys := keys_changed hf { id } rfl h.loops hn
  unfold onLoop
  split
  · next hany => simpa only [hany, if_true] using hkeys
  · next hany => simpa only [hany, Bool.false_eq_true, if_false] using hkeys

theorem keys_onElse (h : Hoist) (id : NodeId) {f : PendingElse → PendingElse}
    (hf : ∀ e, (f e).id = e.id) (hn : (h.elseIfs.map (·.id)).Nodup) :
    ((h.onElse id f).elseIfs.map (·.id)).Nodup ∧
      ∀ k, k ∈ (h.onElse id f).elseIfs.map (·.id) ↔ k ∈ h.elseIfs.map (·.id) ∨ k = id := by
  have hkeys := keys_changed hf { id } rfl h.elseIfs hn
  unfold onElse
  split
  · next hany => simpa only [hany, if_true] using hkeys
  · next hany => simpa only [hany, Bool.false_eq_true, if_false] using hkeys

theorem LoopWith.concat {m : Moved} {k : NodeId} : LoopWith p (ms ++ [m]) k ↔ LoopWith p ms k ∨
    place p m.expr = some (.condition k) ∨ place p m.expr = some (.continuing k) := by
  simp [LoopWith, or_and_right, exists_or]

theorem ElseWith.concat {m : Moved} {k : NodeId} : ElseWith p (ms ++ [m]) k ↔ ElseWith p ms k ∨
    place p m.expr = some (.otherwise k) := by
  simp [ElseWith, or_and_right, exists_or]

/-- One more declaration at its place. -/
theorem Noted.joined (h : Noted p ms s) {m : Moved} {x : Place} (hx : place p m.expr = some x) :
    Noted p (ms ++ [m]) (x.joined m.stmt s) := by
  have hat : ∀ y, declaredAt p (ms ++ [m]) y = declaredAt p ms y ++ if x = y then
      [m.stmt] else [] := fun y => by
    rw [declaredAt_concat, hx]
    simp
  have hloop : ∀ k, LoopWith p (ms ++ [m]) k ↔ LoopWith p ms k ∨ x = .condition k ∨
      x = .continuing k := fun k => by
    rw [LoopWith.concat, hx]
    simp
  have helse : ∀ k, ElseWith p (ms ++ [m]) k ↔ ElseWith p ms k ∨ x = .otherwise k := fun k => by
    rw [ElseWith.concat, hx]
    simp
  cases x with
  | before id =>
    refine { h with before := fun k => ?_,
                    loop := fun k => ?_, otherwise := fun k => ?_, loops := ?_, elseIfs := ?_ }
    · simp only [Place.joined, hat, update, h.before, Place.before.injEq, eq_comm (a := k)]
      by_cases hk : id = k <;> simp [hk]
    · simpa [Place.joined, hat] using h.loop k
    · simpa [Place.joined, hat] using h.otherwise k
    · simpa [Place.joined, hloop] using h.loops
    · simpa [Place.joined, helse] using h.elseIfs
  | condition id =>
    have hf : ∀ l : PendingLoop,
        ({ l with condition := l.condition ++ [m.stmt] } : PendingLoop).id = l.id := fun _ => rfl
    refine { h with before := fun k => ?_,
                    loop := fun k => ?_, otherwise := fun k => ?_, loops := ?_, elseIfs := ?_ }
    · simpa [Place.joined, hat] using h.before k
    · simp only [Place.joined, loopOf_onLoop _ _ _ hf, hat, h.loop]
      by_cases hk : k = id
      · simp [hk]
      · simp [hk, Ne.symm hk]
    · simpa [Place.joined, hat] using h.otherwise k
    · obtain ⟨hnodup, hkeys⟩ := keys_onLoop s.state id hf h.loops.1
      refine ⟨hnodup, fun k => (hkeys k).trans ?_⟩
      rw [hloop, h.loops.2]
      simp [eq_comm]
    · simpa [Place.joined, helse, onLoop, apply_ite Hoist.elseIfs] using h.elseIfs
  | continuing id =>
    have hf : ∀ l : PendingLoop,
        ({ l with continuing := l.continuing ++ [m.stmt] } : PendingLoop).id = l.id := fun _ => rfl
    refine { h with before := fun k => ?_,
                    loop := fun k => ?_, otherwise := fun k => ?_, loops := ?_, elseIfs := ?_ }
    · simpa [Place.joined, hat] using h.before k
    · simp only [Place.joined, loopOf_onLoop _ _ _ hf, hat, h.loop]
      by_cases hk : k = id
      · simp [hk]
      · simp [hk, Ne.symm hk]
    · simpa [Place.joined, hat] using h.otherwise k
    · obtain ⟨hnodup, hkeys⟩ := keys_onLoop s.state id hf h.loops.1
      refine ⟨hnodup, fun k => (hkeys k).trans ?_⟩
      rw [hloop, h.loops.2]
      simp [eq_comm]
    · simpa [Place.joined, helse, onLoop, apply_ite Hoist.elseIfs] using h.elseIfs
  | otherwise id =>
    have hf : ∀ e : PendingElse,
        ({ e with condition := e.condition ++ [m.stmt] } : PendingElse).id = e.id := fun _ => rfl
    refine { h with before := fun k => ?_,
                    loop := fun k => ?_, otherwise := fun k => ?_, loops := ?_, elseIfs := ?_ }
    · simpa [Place.joined, hat] using h.before k
    · simpa [Place.joined, hat] using h.loop k
    · simp only [Place.joined, elseOf_onElse _ _ _ hf, hat, h.otherwise]
      by_cases hk : k = id
      · simp [hk]
      · simp [hk, Ne.symm hk]
    · simpa [Place.joined, hloop, onElse, apply_ite Hoist.loops] using h.loops
    · obtain ⟨hnodup, hkeys⟩ := keys_onElse s.state id hf h.elseIfs.1
      refine ⟨hnodup, fun k => (hkeys k).trans ?_⟩
      rw [helse, h.elseIfs.2]
      simp [eq_comm]

end Requests

section Copies

section Forms

variable (p : Program) (ms : List Moved) (s : Session Rule Hoist) (b : Arena)
    (origin : NodeId → NodeId)

/-- A node comes from a node. What comes from an expression that was moved refers to its
declaration. -/
def Comes (i j : NodeId) : Prop :=
  (i = 0 ∧ j = 0) ∨
    (i ≠ 0 ∧ origin j = i ∧ ∀ m ∈ ms, m.expr = i → b.shape? j = some (.expr (.ident m.name)))

/-- A symbol that stands for the same name in both. -/
def SameName (x y : Symbol) : Prop := x = y ∧ ∃ t, p.symbols.Names x t ∧ b.symbols.Names y t

/-- A node made of what its parts have become, without anything put into its lists. -/
def Echoes (i j : NodeId) : Prop := ∃ n m, p.node? i = some n ∧ b.node? j = some m ∧
  m.span = (if n.span.valid then n.span else {}) ∧
  Shape.Rel (SameName p b) (Comes ms b origin) (List.Forall₂ (Comes ms b origin)) n.shape m.shape

/-- What becomes of an expression that was moved, of a loop and of an `else if`. -/
inductive Becomes : NodeId → NodeId → Prop
  | reference {m j} : m ∈ ms → b.shape? j = some (.expr (.ident m.name)) → Becomes m.expr j
  | loop {i x h j} : LoopWith p ms i → p.shape? i = some (.stmt x) → header? x = some h →
    LoweredLoop b (Comes ms b origin) (s.state.loopOf i) h j → Becomes i j
  | otherwise {i c d e j} : ElseWith p ms i → p.shape? i = some (.stmt (.ifElse c d e)) →
    LoweredElse b (Comes ms b origin) (s.state.elseOf i).condition c d e j → Becomes i j

end Forms

/-- No node is to be held twice. -/
abbrev counting : Builder.Demands := ⟨True, False, False⟩

/-- The account of a copy of nodes among which some expressions have declarations. -/
def account (p : Program) (ms : List Moved) (s : Session Rule Hoist) (D : NodeId → Prop) :
    Account Rule Hoist where
  mode := ⟨counting, True⟩
  base := s
  name w := SameName p w.1.target.toArena
  side w i j := ∀ m ∈ ms, m.expr = i → w.1.target.shape? j = some (.expr (.ident m.name))
  extra _ _ := True
  special w i j := D i ∧ Becomes p ms s w.1.target.toArena w.2 i j
  parts i := D i ∧ ∀ rule, s.replacements i = some (.handler rule) → ∃ x, rule = .reference x
  state w := w.1.state = s.state ∧ w.1.symbols = [] ∧ ∃ more,
    w.1.target.symbols.names = p.symbols.names ++ more
  owned := waiting s.state
  stops := (regime counting p).stops

variable {p : Program} {ms : List Moved} {s : Session Rule Hoist} {D : NodeId → Prop}
    {w w' : World Rule Hoist}

section Later

variable {b b' : Builder} {origin origin' : NodeId → NodeId}

theorem Comes.mono (hb : b.Extends b') (ho : ∀ k, origin k ≠ 0 → origin' k = origin k)
    {i j : NodeId} (h : Comes ms b.toArena origin i j) : Comes ms b'.toArena origin' i j := by
  refine h.imp_right fun ⟨hi, hj, hm⟩ => ⟨hi, ?_, fun m hmem he => hb.shape? (hm m hmem he)⟩
  rw [ho j (by rwa [hj]), hj]

theorem SameName.mono (hb : b.Extends b') {x y : Symbol} (h : SameName p b.toArena x y) :
    SameName p b'.toArena x y :=
  h.imp_right fun ⟨t, hx, hy⟩ => ⟨t, hx, hy.extend hb.names⟩

theorem Echoes.mono (hb : b.Extends b') (ho : ∀ k, origin k ≠ 0 → origin' k = origin k)
    {i j : NodeId} (h : Echoes p ms b.toArena origin i j) : Echoes p ms b'.toArena origin' i j := by
  obtain ⟨n, m, hn, hm, hspan, hrel⟩ := h
  exact ⟨n, m, hn, hb.node? hm, hspan, hrel.mono (fun _ _ => .mono hb) (fun _ _ => .mono hb ho)
    fun _ _ hl => hl.imp fun _ _ => .mono hb ho⟩

theorem Becomes.mono (hb : b.Extends b') (ho : ∀ k, origin k ≠ 0 → origin' k = origin k)
    {i j : NodeId} (h : Becomes p ms s b.toArena origin i j) :
    Becomes p ms s b'.toArena origin' i j := by
  cases h with
  | reference hm hj => exact .reference hm (hb.shape? hj)
  | loop hl hi hx hlow => exact .loop hl hi hx (hlow.mono hb.shape? fun _ _ => .mono hb ho)
  | otherwise hl hi hlow => exact .otherwise hl hi (hlow.mono hb.shape? fun _ _ => .mono hb ho)

end Later

theorem account_stable : (account p ms s D).Stable where
  name h := .mono h.target
  side h hs m hm he := h.target.shape? (hs m hm he)
  extra _ _ := trivial
  special h hs := hs.imp_right (.mono h.target h.origin)
  state h hstate hsymbols := fun ⟨hs, hn, more, hm⟩ => by
    obtain ⟨more', hm'⟩ := h.target.names
    exact ⟨hstate.trans hs, hsymbols.trans hn, more ++ more', by rw [hm', hm, Array.append_assoc]⟩

theorem account_plain (hp : p.Fit) (hk : p.Known) (hs : Noted p ms s) :
    (account p ms s D).Plain fun _ => False where
  source := hs.source ▸ hp
  front := hs.front
  back := hs.back
  name {i node} ht hn _ x hx := by
    have hs' : (account p ms s D).base.source = p := hs.source
    rw [hs'] at ht hn
    obtain ⟨t, ht⟩ := hk i node ht hn x hx
    exact Account.turns_keep hs.symbolRule ht.1 fun w ⟨_, hnone, hmore⟩ =>
      ⟨hnone, rfl, t, ht, ht.extend hmore⟩

variable (p ms s) in
/-- Whatever replaces a node is a rule for it, and the expressions that were moved have theirs. -/
structure Ruled : Prop extends Noted p ms s where
  rules : ∀ k r, s.replacements k = some r → ∃ rule, Ruling p ms k rule ∧ r = .handler rule
  moved : ∀ m ∈ ms, s.replacements m.expr = some (.handler (.reference m.name))

theorem LoopWith.isLoopHeader {k : NodeId} (h : LoopWith p ms k) : isLoopHeader p k = true := by
  obtain ⟨m, _, hm | hm⟩ := h
  · exact suits_of_place hm
  · obtain ⟨_, _, _, _, hk, _⟩ := suits_of_place hm
    simp [Hoist.isLoopHeader, hk]

theorem ElseWith.isIf {k : NodeId} (h : ElseWith p ms k) : p.isIf k := by
  obtain ⟨m, _, hm⟩ := h
  exact isIf_of_isElseOf (suits_of_place hm)

theorem Requested.ruled (h : Requested p ms s) : Ruled p ms s where
  toNoted := h.toNoted
  rules k r hr := by
    obtain ⟨m, hm, rfl, rfl⟩ := (h.replacements k r).1 hr
    exact ⟨_, .reference hm, rfl⟩
  moved m hm := (h.replacements _ _).2 ⟨m, hm, rfl, rfl⟩

theorem Applied.ruled (h : Applied p ms s) : Ruled p ms s where
  toNoted := h.toNoted
  rules k r := (h.replacements k r).1
  moved _ hm := (h.replacements _ _).2 ⟨_, .reference hm, rfl⟩

variable (p D) in
/-- The nodes that are copied to a depth. -/
def reaching (n : Nat) (i : NodeId) : Prop := within p n i ∧ (i ≠ 0 → D i)

theorem reach_reaching {A : Account Rule Hoist} (hp : p.Fit) (hs : A.base.source = p)
    (hD : ∀ i c, D i → c ∈ p.children i → D c) : A.Reach (fun _ => False) (reaching p D) := by
  subst hs
  have hreach := reach_within (A := A) hp
  refine ⟨fun i hi => hreach.zero i hi.1, fun n i hi => hreach.inTree n i hi.1,
    fun n i node hi hn c hc => ?_, fun n hi => hreach.module n hi.1⟩
  refine ⟨hreach.child n i node hi.1 hn c hc,
    fun h0 => hD i c (hi.2 ?_) (Arena.mem_children.2 ⟨node, hn, hc, h0⟩)⟩
  exact Nat.ne_of_gt (Arena.range_of_node? hn).1

theorem not_mem_waiting (hs : Noted p ms s) (h0 : ∀ m ∈ ms, m.stmt ≠ 0) (i : NodeId) :
    0 ∉ s.state.waiting i := by
  have hat : ∀ x, 0 ∉ declaredAt p ms x := by
    intro x hmem
    obtain ⟨m, hm, _, hzero⟩ := mem_declaredAt.1 hmem
    exact h0 m hm hzero
  simp [waiting, hs.loop, hs.otherwise, hat]

/-- What a lowering makes is what becomes of the statement. -/
theorem turns_lowered {E : Misuse → Prop} {i : NodeId} {step : Edit Rule Hoist NodeId}
    {uses : List NodeId} {P : World Rule Hoist → NodeId → Prop} (hi : i ≠ 0)
    (ht : s.source.inTree i = true) (hD : D i)
    (h : (account p ms s D).Turns E step uses (fun j => [j]) fun w j => j ≠ 0 ∧ w.2 j = 0 ∧ P w j)
    (hP : ∀ {w w' : World Rule Hoist} {j : NodeId}, P w j → Grown w w' →
      Becomes p ms s w'.1.target.toArena w'.2 i j) (hmoved : ∀ m ∈ ms, m.expr ≠ i) :
    (account p ms s D).Turns E step uses (fun j => [j]) fun w j =>
      (account p ms s D).Out w i j := by
  refine fun w F hw => (h w F hw).renote fun j w₁ ⟨hw₁, hl, hj0, hj, hpj⟩ =>
    ⟨(Account.note w₁ i j).2, ?_⟩
  have hgrown : Grown w₁ (Account.note w₁ i j) := by
    refine ⟨.refl _, .refl _, fun k hk => ?_, fun _ _ h => h⟩
    have hne : k ≠ j := fun h => hk (h ▸ hj)
    simp [Account.note, update_of_ne _ _ hne]
  have hrange : 0 < j ∧ j ≤ w₁.1.target.size := hw₁.good.free j (by simpa using hj0)
  obtain ⟨hw₂, hl₂⟩ := hw₁.note account_stable hi hj hrange ht (.inr ⟨hD, hP hpj hgrown⟩)
  exact ⟨hw₂, hl.trans hl₂,
    .inr ⟨hi, by simp [Account.note], fun m hm he => absurd he (hmoved m hm)⟩⟩

theorem account_handled (hp : p.Fit) (hs : Ruled p ms s) (h0 : ∀ m ∈ ms, m.stmt ≠ 0)
    (hD : ∀ i c, D i → c ∈ p.children i → D c) :
    (account p ms s D).Handled (fun _ => False) (reaching p D) Promote.act := by
  refine ⟨fun n i h node hc hi hi0 ht hn hr => ?_, fun n i t h node _ _ _ _ _ _ hfind => ?_,
    fun n i node hi hi0 hn hr _ => ?_, fun n i w j hi hi0 hr _ m hm he => ?_⟩
  · obtain ⟨rule, hrule, hh⟩ := hs.rules i _ hr
    cases hh
    have hnode : p.node? i = some node := by rwa [← hs.source]
    have hshape : s.source.shape? i = some node.shape := Option.map_eq_some_iff.2 ⟨node, hn, rfl⟩
    have hshape' : p.shape? i = some node.shape := by rwa [← hs.source]
    have hcopied :
        Copied (account p ms s D) (fun _ => False) (reaching p D n) (Edit.copyTo Promote.act n) n :=
      ⟨account_stable, fun hw => hw.state.1, hc⟩
    have hchild := (reach_reaching (A := account p ms s D) hp hs.source hD).child n i node hi hn
    have hmoved : ∀ r, s.replacements i = some (.handler r) → (∀ x, r ≠ .reference x) →
        ∀ m ∈ ms, m.expr ≠ i := by
      rintro r hr hne m hm rfl
      rw [hs.moved m hm, Option.some.injEq, Replacement.handler.injEq] at hr
      exact hne _ hr.symm
    cases hrule with
    | @reference m hm =>
      refine (Account.turns_make account_stable (.identSym m.name) hi0 ht fun w b j hj => ?_).weaken
        (by simp)
      have hident : w.1.target.shape? j = some (.expr (.ident m.name)) := by
        injection hj with hj hb
        rw [← hb, ← hj]
        exact shape?_push b _ _
      refine ⟨⟨hi.2 hi0, .reference hm hident⟩, fun m' hm' he => ?_⟩
      have hsame := hs.moved m' hm'
      rw [he, hs.moved m hm, Option.some.injEq, Replacement.handler.injEq, Rule.reference.injEq]
        at hsame
      rw [← hsame]
      exact hident
    | loop hl =>
      obtain ⟨x, hd, hx', hx⟩ := isLoopHeader_iff.1 hl.isLoopHeader
      have hx₀ := Option.some.inj (hshape'.symm.trans hx')
      have hpresent : ∀ c ∈ (Shape.stmt x).required, c ≠ 0 := hx₀ ▸ hp.present hnode
      have hbody : hd.body ≠ 0 := by
        cases x <;> first
          | cases hx; exact hpresent _ (by simp [Shape.required, Shape.slots])
          | cases hx
      have hcond : ∀ c b, x = .whileLoop c b → c ≠ 0 := by
        rintro c b rfl
        exact hpresent c (by simp [Shape.required, Shape.slots])
      refine (turns_lowered hi0 ht (hi.2 hi0) (turns_lowerLoop hcopied (hx₀ ▸ hshape) hx hcond hbody
        (not_mem_waiting hs.toNoted h0 i) (hx₀ ▸ hchild)) (fun hlow hg => ?_)
        (hmoved _ hr fun x h => Rule.noConfusion h)).weaken fun y => ?_
      · exact .loop hl hx' hx (hlow.mono hg.target.shape? fun _ _ => Comes.mono hg.target hg.origin)
      · have := Header.count_le (A := account p ms s D) (n := n) hx y
        rw [← hx₀] at this
        simp only [Account.needs, List.count_append] at this ⊢
        change _ ≤ (s.state.waiting i ++ _).count y
        simp only [List.count_append]
        exact Nat.add_le_add_left this _
    | otherwise hl =>
      obtain ⟨cond, body, otherwise, hx'⟩ := hl.isIf
      have hx₀ := Option.some.inj (hshape'.symm.trans hx')
      have hpresent : ∀ c ∈ (Shape.stmt (.ifElse cond body otherwise)).required, c ≠ 0 :=
        hx₀ ▸ hp.present hnode
      refine (turns_lowered hi0 ht (hi.2 hi0) (turns_lowerElse hcopied (hx₀ ▸ hshape)
        (hpresent cond (by simp [Shape.required])) (hpresent body (by simp [Shape.required]))
        (not_mem_waiting hs.toNoted h0 i) (fun c hc => hchild c (by rw [hx₀]; exact hc)) False.elim)
        (fun hlow hg => ?_) (hmoved _ hr fun x h => Rule.noConfusion h)).weaken fun y => ?_
      · exact .otherwise hl hx'
          (hlow.mono hg.target.shape? fun _ _ => Comes.mono hg.target hg.origin)
      · rw [Account.needs, hx₀]
        change (s.state.waiting i ++ _).count y ≤ (s.state.waiting i ++ _).count y
        simp only [Shape.slots, List.flatMap_cons, List.flatMap_nil, Account.around,
          List.count_append]
        omega
  · have hnil : (account p ms s D).base.handlers = [] := hs.handlers
    simp [hnil] at hfind
  · refine ⟨hi.2 hi0, fun rule hrule => ?_⟩
    have hr : s.replacements i = none := hr
    rw [hr] at hrule
    cases hrule
  · have hr : s.replacements i = none := hr
    rw [← he, hs.moved m hm] at hr
    cases hr

end Copies

end Hoist
end ShaderLoom
