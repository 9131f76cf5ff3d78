import Mathlib.Logic.Relation
import ShaderLoom.Meaning.Module

/-! What is known once a step of resolution is done. Steps always end, so that nothing has to be
said about failure. -/
namespace ShaderLoom

namespace Facts

theorem summarizeOne_eq (globals : List NodeId) (f : Facts) (id : NodeId) : ∃ functions entryPoints,
    f.summarizeOne globals id = { f with functions, entryPoints } := by
  unfold summarizeOne
  split
  · exact ⟨_, _, rfl⟩
  · dsimp only
    split <;> exact ⟨_, _, rfl⟩

/-- A summary is about functions only. -/
theorem summarize_eq (f : Facts) (globals : List NodeId) : ∃ functions entryPoints,
    f.summarize globals = { f with functions, entryPoints } := by
  have hall : ∀ (gs : List NodeId) (f : Facts), ∃ functions entryPoints,
      gs.foldl (summarizeOne globals) f = { f with functions, entryPoints } := by
    intro gs
    induction gs with
    | nil => exact fun f => ⟨_, _, rfl⟩
    | cons g gs ih =>
      intro f
      obtain ⟨fs, es, h⟩ := summarizeOne_eq globals f g
      obtain ⟨fs', es', h'⟩ := ih (f.summarizeOne globals g)
      refine ⟨fs', es', ?_⟩
      rw [List.foldl_cons, h', h]
  exact hall globals f

end Facts

namespace Resolve

variable {α β ι : Type}

/-- The answer of the step and the state after it. -/
def Ends (step : Resolve α) (r : Resolver) (Q : α → Resolver → Prop) : Prop :=
  Q (step.run r).1 (step.run r).2

namespace Ends

variable {r : Resolver} {Q : α → Resolver → Prop}

theorem run {step : Resolve α} (h : Ends step r Q) : Q (step.run r).1 (step.run r).2 := h

theorem mono {step : Resolve α} {Q' : α → Resolver → Prop} (h : Ends step r Q)
    (hq : ∀ a r', Q a r' → Q' a r') : Ends step r Q' :=
  hq _ _ h

theorem pure {a : α} (h : Q a r) : Ends (pure a : Resolve α) r Q := h

theorem bind {step : Resolve β} {next : β → Resolve α}
    (h : Ends step r fun b r' => Ends (next b) r' Q) : Ends (step >>= next) r Q := h

theorem get {next : Resolver → Resolve α} (h : Ends (next r) r Q) : Ends (get >>= next) r Q := h

theorem modify {g : Resolver → Resolver} {Q : Unit → Resolver → Prop} (h : Q () (g r)) :
    Ends (modify g : Resolve Unit) r Q := h

theorem modifyGet {g : Resolver → α × Resolver} (h : Q (g r).1 (g r).2) :
    Ends (modifyGet g : Resolve α) r Q := h

/-- A loop over a list keeps what holds of the state and of the elements still to come. -/
theorem forIn {body : ι → PUnit → Resolve (ForInStep PUnit)} {xs : List ι}
    {Q : PUnit → Resolver → Prop} (I : List ι → Resolver → Prop) (h : I xs r)
    (hstep : ∀ x rest r, x ∈ xs → I (x :: rest) r →
      Ends (body x ⟨⟩) r fun o r' => o = .yield ⟨⟩ ∧ I rest r') (hend : ∀ r, I [] r → Q ⟨⟩ r) :
    Ends (forIn xs PUnit.unit body) r Q := by
  induction xs generalizing r with
  | nil => exact hend r h
  | cons x xs ih =>
    rw [List.forIn_cons]
    refine bind ((hstep x xs r List.mem_cons_self h).mono fun o r' ho => ?_)
    rw [ho.1]
    exact ih ho.2 fun y rest r hy => hstep y rest r (List.mem_cons_of_mem x hy)

end Ends

/-- The step changes the state by steps of a kind, one after another. -/
def Moves (change : Resolver → Resolver → Prop) (step : Resolve α) : Prop :=
  ∀ r, Ends step r fun _ r' => Relation.ReflTransGen change r r'

namespace Moves

variable {change change' : Resolver → Resolver → Prop}

theorem pure (a : α) : Moves change (pure a : Resolve α) := fun _ => Relation.ReflTransGen.refl

theorem bind {step : Resolve β} {next : β → Resolve α} (h : Moves change step)
    (h' : ∀ b, Moves change (next b)) : Moves change (step >>= next) :=
  fun r => Ends.bind ((h r).mono fun b r' hr => (h' b r').mono fun _ _ hr' => hr.trans hr')

theorem get {next : Resolver → Resolve α} (h : ∀ r, Moves change (next r)) :
    Moves change (get >>= next) :=
  fun r => Ends.get (h r r)

theorem modify {g : Resolver → Resolver} (h : ∀ r, change r (g r)) :
    Moves change (modify g : Resolve Unit) :=
  fun r => Ends.modify (.single (h r))

theorem mapM {step : ι → Resolve β} (xs : List ι) (h : ∀ x, Moves change (step x)) :
    Moves change (xs.mapM step) := by
  induction xs with
  | nil => exact .pure _
  | cons x xs ih =>
    rw [List.mapM_cons]
    exact .bind (h x) fun _ => .bind ih fun _ => .pure _

theorem filterMapM {step : ι → Resolve (Option β)} (xs : List ι) (h : ∀ x, Moves change (step x)) :
    Moves change (xs.filterMapM step) := by
  -- The library's fold carries the answers so far, the last one first.
  have hloop : ∀ (xs : List ι) (acc : List β), Moves change (List.filterMapM.loop step xs acc) := by
    intro xs
    induction xs with
    | nil => exact fun _ => .pure _
    | cons x xs ih =>
      intro acc
      unfold List.filterMapM.loop
      refine .bind (h x) fun o => ?_
      cases o with
      | none => exact ih acc
      | some b => exact ih (b :: acc)
  exact hloop xs []

theorem forM {step : ι → Resolve PUnit} (xs : List ι) (h : ∀ x, Moves change (step x)) :
    Moves change (xs.forM step) := by
  induction xs with
  | nil => exact .pure _
  | cons x xs ih => exact .bind (h x) fun _ => ih

theorem forIn {body : ι → PUnit → Resolve (ForInStep PUnit)} (xs : List ι)
    (h : ∀ x u, Moves change (body x u)) : Moves change (forIn xs PUnit.unit body) := by
  induction xs with
  | nil => exact .pure _
  | cons x xs ih =>
    rw [List.forIn_cons]
    refine .bind (h x ⟨⟩) fun o => ?_
    cases o with
    | done _ => exact .pure _
    | yield _ => exact ih

theorem mono {step : Resolve α} (h : Moves change step) (hc : ∀ r r', change r r' → change' r r') :
    Moves change' step :=
  fun r => (h r).mono fun _ _ hr => Relation.ReflTransGen.mono hc _ _ hr

/-- What every change keeps is kept. -/
theorem keeps {view : Resolver → β} {step : Resolve α} (h : Moves change step)
    (hv : ∀ r r', change r r' → view r' = view r) (r : Resolver) :
    Ends step r fun _ r' => view r' = view r :=
  (h r).mono fun _ r' hr => by
    induction hr with
    | refl => rfl
    | tail _ hc ih => exact (hv _ _ hc).trans ih

end Moves

-- The lemmas say what a step does: unification is not to run it.
attribute [irreducible] Ends

theorem decl_variableFacts (a : Arena) (id : NodeId) (v : VariableShape Symbol NodeId)
    (scope : VariableScope) (t : Option Ty) : (variableFacts a id v scope t).decl = id := by
  unfold variableFacts
  dsimp only
  split <;> rfl

theorem type_variableFacts (a : Arena) (id : NodeId) (v : VariableShape Symbol NodeId)
    (scope : VariableScope) (t : Option Ty) : (variableFacts a id v scope t).type = t := by
  unfold variableFacts
  dsimp only
  split <;> rfl

theorem scope_variableFacts (a : Arena) (id : NodeId) (v : VariableShape Symbol NodeId)
    (scope : VariableScope) (t : Option Ty) : (variableFacts a id v scope t).scope = scope := by
  unfold variableFacts
  dsimp only
  split <;> rfl

theorem users_variableFacts (a : Arena) (id : NodeId) (v : VariableShape Symbol NodeId)
    (scope : VariableScope) (t : Option Ty) : (variableFacts a id v scope t).users = [] := by
  unfold variableFacts
  dsimp only
  split <;> rfl

end Resolve
end ShaderLoom
