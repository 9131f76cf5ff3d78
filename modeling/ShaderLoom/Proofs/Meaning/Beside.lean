import ShaderLoom.Proofs.Meaning.Execution

/-! Executions beside each other. The stores of two executions agree where the second one has
further variables, of names that the first one does not use, in scopes that it shares with the first
one or has for itself. What is alike of steps is alike of steps in order, in scopes, and over and
over. -/
namespace ShaderLoom.Execution

open ShaderLoom.Flow (Exit)

/-- How a scope of the second store stands to the first one: it is the same there, it has more
variables, or it is not there. -/
inductive Layer where
  | same | more | further
  deriving DecidableEq

section Scopes

variable {V : Type} {H : List String} {x : String}

/-- The variables of other names. -/
def visible (H : List String) (l : Scope V) : Scope V := l.filter (·.1 ∉ H)

theorem lookup_visible (hx : x ∉ H) (l : Scope V) : (visible H l).lookup x = l.lookup x := by
  induction l with
  | nil => rfl
  | cons y l ih =>
    obtain ⟨y, v⟩ := y
    by_cases hy : y ∈ H
    · have hne : (x == y) = false := beq_false_of_ne fun h => hx (h ▸ hy)
      simpa [visible, hy, List.lookup_cons, hne] using ih
    · have hcons : visible H ((y, v) :: l) = (y, v) :: visible H l := by simp [visible, hy]
      rw [hcons, List.lookup_cons, List.lookup_cons, ih]

theorem visible_cons (hx : x ∉ H) (v : V) (l : Scope V) :
    visible H ((x, v) :: l) = (x, v) :: visible H l := by
  simp [visible, hx]

theorem visible_cons_of_mem (hx : x ∈ H) (v : V) (l : Scope V) :
    visible H ((x, v) :: l) = visible H l := by
  simp [visible, hx]

theorem visible_map (f : V → V) (l : Scope V) :
    visible H (l.map fun y => if y.1 = x then (x, f y.2) else y) =
      (visible H l).map fun y => if y.1 = x then (x, f y.2) else y := by
  unfold visible
  rw [List.filter_map]
  congr 2
  funext y
  by_cases hy : y.1 = x <;> simp [hy]

variable (H) in
/-- The second scopes are the first ones with more variables, of the names `H`, and with further
scopes between them that have no others. -/
inductive Beside : List Layer → List (Scope V) → List (Scope V) → Prop
  | nil : Beside [] [] []
  | same {sh l ls ls'} : Beside sh ls ls' → Beside (.same :: sh) (l :: ls) (l :: ls')
  | more {sh l l' ls ls'} : visible H l' = l → Beside sh ls ls' →
    Beside (.more :: sh) (l :: ls) (l' :: ls')
  | further {sh l' ls ls'} : visible H l' = [] → Beside sh ls ls' →
    Beside (.further :: sh) ls (l' :: ls')

variable {sh : List Layer} {ls ls' : List (Scope V)}

theorem Beside.refl (ls : List (Scope V)) : Beside H (ls.map fun _ => .same) ls ls := by
  induction ls with
  | nil => exact .nil
  | cons l ls ih => exact .same ih

theorem Beside.enter {y : Layer} (h : Beside H sh ls ls') (hy : y ≠ .further) :
    Beside H (y :: sh) ([] :: ls) ([] :: ls') := by
  cases y with
  | same => exact .same h
  | more => exact .more rfl h
  | further => exact absurd rfl hy

theorem Beside.leave {y : Layer} (h : Beside H (y :: sh) ls ls') (hy : y ≠ .further) :
    Beside H sh (ls.drop 1) (ls'.drop 1) := by
  cases h with
  | same h => exact h
  | more _ h => exact h
  | further => exact absurd rfl hy

theorem Beside.leave_further (h : Beside H (.further :: sh) ls ls') :
    Beside H sh ls (ls'.drop 1) := by
  cases h with
  | further _ h => exact h

theorem Beside.ne_nil {y : Layer} (h : Beside H (y :: sh) ls ls') : ls' ≠ [] := by
  cases h <;> exact List.cons_ne_nil _ _

theorem Beside.eq_of_same (h : Beside H sh ls ls') (hsh : ∀ y ∈ sh, y = .same) : ls' = ls := by
  induction h with
  | nil => rfl
  | same _ ih => rw [ih fun y hy => hsh y (List.mem_cons_of_mem _ hy)]
  | more | further => cases hsh _ List.mem_cons_self

theorem Beside.find? (h : Beside H sh ls ls') (hx : x ∉ H) :
    Execution.find? ls' x = Execution.find? ls x := by
  induction h with
  | nil => rfl
  | same _ ih =>
    simp only [Execution.find?, List.findSome?_cons] at ih ⊢
    rw [ih]
  | @more _ l l' _ _ hl _ ih =>
    simp only [Execution.find?, List.findSome?_cons, ← hl, lookup_visible hx] at ih ⊢
    rw [ih]
  | @further _ l' _ _ hl _ ih =>
    have hnone : l'.lookup x = none := by rw [← lookup_visible hx, hl]; rfl
    simp only [Execution.find?, List.findSome?_cons, hnone] at ih ⊢
    exact ih

theorem Beside.update (h : Beside H sh ls ls') (hx : x ∉ H) (f : V → V) :
    Beside H sh (update x f ls) (update x f ls') := by
  induction h with
  | nil => exact .nil
  | @same _ l _ _ hrest ih =>
    unfold Execution.update
    split
    · exact .same hrest
    · exact .same ih
  | @more _ l l' _ _ hl hrest ih =>
    simp only [Execution.update, ← hl, lookup_visible hx]
    split
    · exact .more (visible_map f l') hrest
    · exact .more rfl ih
  | @further _ l' _ _ hl hrest ih =>
    have hnone : l'.lookup x = none := by rw [← lookup_visible hx, hl]; rfl
    simp only [Execution.update, hnone, Option.isSome_none, Bool.false_eq_true, if_false]
    exact .further hl ih

/-- A variable of the first store is declared in both, unless the second one has a scope for
itself. -/
theorem Beside.declare (h : Beside H sh ls ls') (hsh : sh.head? ≠ some .further) (hx : x ∉ H)
    (v : V) : Beside H sh (declare x v ls) (declare x v ls') := by
  cases h with
  | nil => exact .nil
  | same hrest => exact .same hrest
  | more hl hrest => exact .more (by rw [visible_cons hx, hl]) hrest
  | further => exact absurd rfl hsh

/-- A variable of the second store is declared where that has more. -/
theorem Beside.declare_hidden (h : Beside H sh ls ls') (hsh : sh.head? ≠ some .same) (hx : x ∈ H)
    (v : V) : Beside H sh ls (Execution.declare x v ls') := by
  cases h with
  | nil => exact .nil
  | same => exact absurd rfl hsh
  | more hl hrest => exact .more (by rw [visible_cons_of_mem hx, hl]) hrest
  | further hl hrest => exact .further (by rw [visible_cons_of_mem hx, hl]) hrest

end Scopes

section Stores

variable {V M : Type} {H : List String} {sh : List Layer} {σ τ : Store V M}

/-- The second store is the first one with more variables. -/
structure Store.Beside (H : List String) (sh : List Layer) (σ τ : Store V M) : Prop where
  scopes : Execution.Beside H sh σ.scopes τ.scopes
  rest : τ.rest = σ.rest

namespace Store.Beside

theorem refl (σ : Store V M) : Store.Beside H (σ.scopes.map fun _ => .same) σ σ := ⟨.refl _, rfl⟩

theorem eq_of_same (h : Store.Beside H sh σ τ) (hsh : ∀ y ∈ sh, y = .same) : τ = σ := by
  obtain ⟨hscopes, hrest⟩ := h
  obtain ⟨_, _⟩ := σ
  obtain ⟨_, _⟩ := τ
  cases hscopes.eq_of_same hsh
  cases hrest
  rfl

theorem write (h : Store.Beside H sh σ τ) (μ : Machine V M)
    {t : Option (String × List (Step V))} (ht : ∀ x path, t = some (x, path) → x ∉ H) (v : V) :
    Store.Beside H sh (write μ σ t v) (write μ τ t v) := by
  cases t with
  | none => exact h
  | some t =>
    obtain ⟨x, path⟩ := t
    have hx := ht x path rfl
    simp only [Execution.write, h.scopes.find? hx]
    split
    · exact ⟨h.scopes.update hx _, h.rest⟩
    · exact ⟨h.scopes, by rw [h.rest]⟩

end Store.Beside

end Stores

section Outcomes

variable {V M : Type}

/-- Ways to compare what happens, such that what is alike of two parts is alike of both in order. -/
structure Compares (T : List (Event V) → List (Event V) → Prop) : Prop where
  nil : T [] []
  append {es es' fs fs'} : T es es' → T fs fs' → T (es ++ fs) (es' ++ fs')

/-- The second outcome has happen what happens in the first one, and ends like it. -/
structure Alike (T : List (Event V) → List (Event V) → Prop) (S : Store V M → Store V M → Prop)
    (r r' : Outcome V M) : Prop where
  trace : T r.trace r'.trace
  store : S r.store r'.store
  exit : r'.exit = r.exit

variable {T : List (Event V) → List (Event V) → Prop} {S : Store V M → Store V M → Prop}
  {r r' : Outcome V M} {goes : Exit → Bool} {step step' next next' : Store V M → Outcome V M}
  {σ τ : Store V M} {k : Nat}

namespace Alike

theorem left (h : Alike T S r r') : Alike T S r.left r'.left :=
  ⟨h.trace, h.store, by simp only [Outcome.left, h.exit]⟩

variable (hT : Compares T)
include hT

theorem done (h : S σ τ) : Alike T S (done σ) (done τ) := ⟨hT.nil, h, rfl⟩

theorem after {es es' : List (Event V)} (hes : T es es') (h : Alike T S r r') :
    Alike T S (r.after es) (r'.after es') := ⟨hT.append hes h.trace, h.store, h.exit⟩

theorem followed (h : Alike T S r r') (hn : ∀ σ τ, S σ τ → Alike T S (next σ) (next' τ)) :
    Alike T S (r.followed goes next) (r'.followed goes next') := by
  simp only [Outcome.followed, h.exit]
  split
  · exact after hT h.trace (hn _ _ h.store)
  · exact h

theorem iterate (h : ∀ σ τ, S σ τ → Alike T S (step σ) (step' τ)) (k : Nat) (hs : S σ τ) :
    Alike T S (iterate goes step k σ) (iterate goes step' k τ) := by
  induction k generalizing σ τ with
  | zero => exact ⟨hT.nil, hs, rfl⟩
  | succ k ih => exact (h σ τ hs).followed hT fun _ _ h => ih h

theorem inOrder {rec rec' : NodeId → Store V M → Outcome V M} {ss ts : List NodeId}
    (h : List.Forall₂ (fun s t => ∀ σ τ, S σ τ → Alike T S (rec s σ) (rec' t τ)) ss ts)
    (hs : S σ τ) : Alike T S (inOrder rec ss σ) (inOrder rec' ts τ) := by
  induction h generalizing σ τ with
  | nil => exact done hT hs
  | cons hst _ ih => exact (hst σ τ hs).followed hT fun _ _ h => ih h

theorem turn (h : ∀ σ τ, S σ τ → Alike T S (step σ) (step' τ))
    (hn : ∀ σ τ, S σ τ → Alike T S (next σ) (next' τ)) (hs : S σ τ) :
    Alike T S (turn k step next σ) (turn k step' next' τ) :=
  (h σ τ hs).followed hT fun _ _ hs => iterate hT hn k hs

theorem turns (h : ∀ σ τ, S σ τ → Alike T S (step σ) (step' τ)) (hs : S σ τ) :
    Alike T S (turns k step σ) (turns k step' τ) :=
  (iterate hT h k hs).left

end Alike

section Scoped

variable {H : List String} {sh : List Layer} {y : Layer}

/-- A scope of both, or with more variables in the second one. -/
theorem Alike.inScope (hy : y ≠ .further)
    (h : ∀ σ τ, σ.Beside H (y :: sh) τ → Alike T (Store.Beside H (y :: sh)) (step σ) (step' τ))
    (hs : σ.Beside H sh τ) : Alike T (Store.Beside H sh) (inScope step σ) (inScope step' τ) := by
  have henter : Store.Beside H (y :: sh) { σ with scopes := [] :: σ.scopes }
      { τ with scopes := [] :: τ.scopes } := ⟨hs.scopes.enter hy, hs.rest⟩
  obtain ⟨htrace, ⟨hscopes, hrest⟩, hexit⟩ := h _ _ henter
  exact ⟨htrace, ⟨hscopes.leave hy, hrest⟩, hexit⟩

/-- A scope of the second step alone. -/
theorem Alike.further (h : ∀ τ, σ.Beside H (.further :: sh) τ →
      Alike T (Store.Beside H (.further :: sh)) (step σ) (step' τ)) (hs : σ.Beside H sh τ) :
    Alike T (Store.Beside H sh) (step σ) (Execution.inScope step' τ) := by
  have henter : Store.Beside H (.further :: sh) σ { τ with scopes := [] :: τ.scopes } :=
    ⟨.further rfl hs.scopes, hs.rest⟩
  obtain ⟨htrace, ⟨hscopes, hrest⟩, hexit⟩ := h _ henter
  exact ⟨htrace, ⟨hscopes.leave_further, hrest⟩, hexit⟩

end Scoped
end Outcomes
end ShaderLoom.Execution
