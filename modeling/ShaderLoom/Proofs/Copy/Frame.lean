import ShaderLoom.Copy.Engine
import ShaderLoom.Proofs.Copy.Plan

/-! What copying keeps. A property of steps that passes from steps to what is put together of them
is a property of the whole engine as soon as the engine's own steps and the handlers have it. -/
namespace ShaderLoom

/-- Going through a shape is put together of what is done with its parts. -/
theorem Shape.traverse_of {M : Type → Type} [Monad M] {K : {γ : Type} → M γ → Prop} {ν α μ β : Type}
    (hpure : ∀ {γ : Type} (c : γ), K (pure c))
    (hbind : ∀ {γ δ : Type} {step : M γ} {next : γ → M δ}, K step → (∀ c, K (next c)) →
      K (step >>= next)) {name : ν → M μ} {child : α → M β} {list : ListKind → List α → M (List β)}
    (hname : ∀ x, K (name x)) (hchild : ∀ c, K (child c)) (hlist : ∀ k xs, K (list k xs))
    (s : Shape ν α) : K (s.traverse name child list) := by
  rcases s with (_ | _ | _ | _ | _ | _ | _ | _ | _ | _ | _) |
    (_ | _ | _ | _ | _ | _ | _ | _ | _) |
    (_ | _ | _ | _ | _ | _ | _ | _ | _ | _ | _ | _ | _) |
    (_ | _ | _ | _) | _ | (_ | _ | _ | _ | _ | _ | _) | _
  all_goals
    simp only [traverse]
    repeat first
      | exact hpure _
      | refine hbind (hchild _) fun _ => ?_
      | refine hbind (hname _) fun _ => ?_
      | refine hbind (hlist _ _) fun _ => ?_

namespace Copy

variable {κ σ : Type} {K : {α : Type} → Edit κ σ α → Prop} {α β : Type}

/-- A property of steps that the engine's own steps have, and that passes to what is put together of
steps that have it. -/
structure Frame (K : {α : Type} → Edit κ σ α → Prop) : Prop where
  pure : ∀ {α : Type} (a : α), K (pure a)
  bind : ∀ {α β : Type} {step : Edit κ σ α} {next : α → Edit κ σ β}, K step → (∀ a, K (next a)) →
    K (step >>= next)
  throw : ∀ {α : Type} (e : Misuse), K (throw e : Edit κ σ α)
  get : K (get : Edit κ σ (Session κ σ))
  symbol : ∀ s, K (Edit.copySymbol s)
  push : ∀ shape span, K (Edit.build (Build.push shape span))

namespace Frame

variable (hK : Frame K) {inner : NodeId → Edit κ σ NodeId} {yield : β → NodeId → Edit κ σ β}
include hK

theorem foldlM (hy : ∀ b i, K (yield b i)) (xs : List NodeId) (b : β) : K (xs.foldlM yield b) := by
  induction xs generalizing b with
  | nil => exact hK.pure b
  | cons x xs ih =>
    rw [List.foldlM_cons]
    exact hK.bind (hy b x) ih

theorem elements (hc : ∀ i, K (inner i)) (hy : ∀ b i, K (yield b i)) (ids : List NodeId) (b : β) :
    K (Edit.foldElements inner yield ids b) := by
  induction ids generalizing b with
  | nil => exact hK.pure b
  | cons i ids ih =>
    have hrest : ∀ b,
        K (do let b ← ((← MonadState.get).after
          i).foldlM yield b; Edit.foldElements inner yield ids b) :=
      fun b => hK.bind hK.get fun s => hK.bind (hK.foldlM hy _ b) ih
    refine hK.bind hK.get fun s => hK.bind (hK.foldlM hy _ b) fun b => hK.bind hK.get fun s => ?_
    dsimp only
    split
    · exact hK.bind (hK.pure b) hrest
    · refine hK.bind (hc i) fun x => ?_
      split
      · exact hK.bind (hK.pure b) hrest
      · exact hK.bind (hy b x) hrest

theorem list (hc : ∀ i, K (inner i)) (hy : ∀ b i, K (yield b i)) (owner : NodeId) (kind : ListKind)
    (ids : List NodeId) (b : β) : K (Edit.foldList inner yield owner kind ids b) :=
  hK.bind hK.get fun _ => hK.bind (hK.foldlM hy _ b) fun b =>
    hK.bind (hK.elements hc hy ids b) fun b =>
    hK.bind hK.get fun _ => hK.foldlM hy _ b

theorem copyListOf (hc : ∀ i, K (inner i)) (owner : NodeId) (kind : ListKind) (ids : List NodeId) :
    K (Edit.copyListOf inner owner kind ids) :=
  hK.list hc (fun _ _ => hK.pure _) owner kind ids []

theorem copyParts (hc : ∀ i, K (inner i)) (i : NodeId) (n : Node) :
    K (Edit.copyParts inner i n) := by
  unfold Edit.copyParts
  split
  · exact hK.throw _
  · exact hK.bind (Shape.traverse_of hK.pure hK.bind hK.symbol hc (hK.copyListOf hc i) _) fun _ =>
      hK.push _ _

theorem checkSource (i : NodeId) : K (Edit.checkSource i) := by
  refine hK.bind hK.get fun s => ?_
  split
  · split
    · exact hK.pure _
    · exact hK.throw _
  · exact hK.throw _

variable {act : Act κ σ} (hact : ∀ copy, (∀ i, K (copy i)) → ∀ h i, K (act copy h i))
include hact

theorem copyStep (hc : ∀ i, K (inner i)) (i : NodeId) : K (Edit.copyStep act inner i) := by
  unfold Edit.copyStep
  split
  · exact hK.pure 0
  refine hK.bind (hK.checkSource i) fun n => hK.bind hK.get fun s => ?_
  split
  · exact hK.pure _
  · exact hact inner hc _ i
  · split
    · refine hK.bind (hact inner hc _ i) fun x => ?_
      split
      · exact hK.copyParts hc i n
      · exact hK.pure x
    · exact hK.copyParts hc i n

/-- The copy of a node has the property if handlers pass it on. -/
theorem copy (i : NodeId) : K (Edit.copy act i) := by
  have hto : ∀ n i, K (Edit.copyTo act n i) := by
    intro n
    induction n with
    | zero => exact fun i => hK.throw _
    | succ n ih => exact fun i => hK.copyStep hact ih i
  exact hK.bind hK.get fun s => hto _ i

end Frame

/-- The step copies from the same program throughout. -/
def Sourced (step : Edit κ σ α) : Prop := ∀ s a t, step s = .ok a t → t.source = s.source

namespace Sourced

theorem pure (a : α) : Sourced (pure a : Edit κ σ α) := fun _ _ _ h => by
  cases h
  rfl

theorem get : Sourced (get : Edit κ σ (Session κ σ)) := fun _ _ _ h => by
  cases h
  rfl

theorem bind {step : Edit κ σ α} {next : α → Edit κ σ β} (h : Sourced step)
    (hn : ∀ a, Sourced (next a)) : Sourced (step >>= next) := fun s b u hs =>
  have ⟨a, t, hs, ht⟩ := bind_ok.1 hs
  (hn a t b u ht).trans (h s a t hs)

theorem build (step : Build α) : Sourced (Edit.build step : Edit κ σ α) := fun s a t h => by
  unfold Edit.build at h
  split at h <;> cases h
  rfl

theorem copySymbol (x : Symbol) : Sourced (Edit.copySymbol x : Edit κ σ Symbol) := fun s a t h => by
  unfold Edit.copySymbol at h
  split at h
  · cases h
    rfl
  · rw [get_bind] at h
    cases hlookup : s.symbols.lookup x with
    | some y =>
      rw [hlookup] at h
      cases h
      rfl
    | none =>
      rw [hlookup] at h
      cases hrule : s.symbolRule with
      | none =>
        rw [hrule] at h
        cases h
        rfl
      | some rule =>
        rw [hrule] at h
        cases h
        rfl

theorem frame : @Frame κ σ Sourced where
  pure := pure
  bind := bind
  throw _ _ _ _ h := by cases h
  get := get
  symbol := copySymbol
  push _ _ := build _

theorem modify {f : Session κ σ → Session κ σ} (hf : ∀ s, (f s).source = s.source) :
    Sourced (modify f : Edit κ σ Unit) := fun s _ _ h => by
  cases h
  exact hf s

theorem replaceWith (i : NodeId) (h : κ) : Sourced (Edit.replaceWith i h : Edit κ σ Unit) := by
  refine bind (frame.checkSource i) fun _ => bind get fun s => ?_
  split
  · exact frame.throw _
  · exact modify fun _ => rfl

end Sourced
end Copy
end ShaderLoom
