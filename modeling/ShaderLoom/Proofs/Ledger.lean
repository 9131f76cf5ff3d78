import Mathlib.Algebra.BigOperators.Group.Multiset.Basic
import Mathlib.Tactic.Abel
import ShaderLoom.Proofs.Shape

/-! What going through a shape adds up to. A ledger has a row for every run from one state to
another, with the children that the run went through and what they became. Rows add up, in whatever
order the parts of a shape come, so that the row of a shape follows from those of its children. -/
namespace ShaderLoom.Shape

/-- Rows about runs from one state to another. -/
structure Ledger (σ α β : Type) where
  row : σ → Multiset α → Multiset β → σ → Prop
  nil : ∀ s, row s 0 0 s
  add : ∀ {s t u xs xs' ys ys'}, row s xs ys t → row t xs' ys' u → row s (xs + xs') (ys + ys') u

namespace Ledger

variable {ε σ γ δ δ' ν μ α β : Type} (K : Ledger σ α β) {E : ε → Prop}

/-- A step that adds a row. -/
def Books (E : ε → Prop) (step : EStateM ε σ δ) (xs : Multiset α) (ys : δ → Multiset β) : Prop :=
  ∀ w : σ × γ, Runs step w E fun d w' => K.row w.1 xs (ys d) w'.1

variable {K}

theorem Books.next {s : σ} {w : σ × γ} {us xs : Multiset α} {vs : Multiset β} {ys : δ → Multiset β}
    {step : EStateM ε σ δ} {next : δ → EStateM ε σ δ'} {Q : δ' → σ × γ → Prop}
    (hw : K.row s us vs w.1) (h : K.Books (γ := γ) E step xs ys)
    (hnext : ∀ d w', K.row s (us + xs) (vs + ys d) w'.1 → Runs (next d) w' E Q) :
    Runs (step >>= next) w E Q :=
  Runs.bind ((h w).mono fun d w' hr => hnext d w' (K.add hw hr))

theorem coe_append {ι : Type} (xs ys : List ι) : (↑(xs ++ ys) : Multiset ι) = xs + ys :=
  (Multiset.coe_add xs ys).symm

theorem coe_cons {ι : Type} (x : ι) (xs : List ι) : (↑(x :: xs) : Multiset ι) = {x} + xs :=
  (Multiset.singleton_add x xs).symm

/-- A row says the same about its children in another order. -/
theorem sorted {s t : σ} {us : Multiset α} {vs : Multiset β} {xs : List α} {ys : List β}
    (h : K.row s us vs t) (hx : us = xs) (hy : vs = ys) : K.row s xs ys t := hx ▸ hy ▸ h

variable {name : ν → EStateM ε σ μ} {child : α → EStateM ε σ β}
  {list : ListKind → List α → EStateM ε σ (List β)}

/-- The row of a shape is the sum of the rows of its parts. -/
theorem traverse {s : Shape ν α}
    (hname : ∀ x ∈ s.names, K.Books (γ := γ) E (name x) 0 fun _ => 0)
    (hchild : ∀ c ∈ s.slots, K.Books (γ := γ) E (child c) {c} fun d => {d})
    (hlist : ∀ k, ∀ xs ∈ s.lists, K.Books (γ := γ) E (list k xs) xs fun ys => ys) :
    K.Books (γ := γ) E (s.traverse name child list) s.slots fun t => t.slots := by
  intro w
  have h₀ := K.nil w.1
  cases s with
  | type t =>
    cases t with
    | bool | i32 | u32 | f32 | sampler _ | externalTexture => exact Runs.pure w.2 h₀
    | vector e _ | matrix e _ _ | array e _ | sampledTexture _ e =>
      exact (hchild e (by simp [slots])).next h₀ fun _ w' h => Runs.pure w'.2 h
    | named x => exact (hname x (by simp [names])).next h₀ fun _ w' h => Runs.pure w'.2 h
  | expr e =>
    cases e with
    | int _ _ | float _ | bool _ => exact Runs.pure w.2 h₀
    | ident x => exact (hname x (by simp [names])).next h₀ fun _ w' h => Runs.pure w'.2 h
    | binary _ l r | index l r =>
      refine (hchild l (by simp [slots])).next h₀ fun _ w₁ h₁ => ?_
      exact (hchild r (by simp [slots])).next h₁ fun _ w₂ h₂ => Runs.pure w₂.2 h₂
    | unary _ e => exact (hchild e (by simp [slots])).next h₀ fun _ w' h => Runs.pure w'.2 h
    | call t args =>
      refine (hchild t (by simp [slots])).next h₀ fun _ w₁ h₁ => ?_
      exact (hlist .args args (by simp [lists])).next h₁ fun _ w₂ h₂ => Runs.pure w₂.2 h₂
    | member o x =>
      refine (hchild o (by simp [slots])).next h₀ fun _ w₁ h₁ => ?_
      exact (hname x (by simp [names])).next h₁ fun _ w₂ h₂ => Runs.pure w₂.2 h₂
  | stmt s =>
    cases s with
    | breakLoop | continueLoop | discard => exact Runs.pure w.2 h₀
    | block ss =>
      refine (hlist .statements ss (by simp [lists])).next h₀ fun _ w' h => Runs.pure w'.2 ?_
      simpa [slots] using h
    | varDecl c | increment c _ | callStatement c | ret c =>
      exact (hchild c (by simp [slots])).next h₀ fun _ w' h => Runs.pure w'.2 h
    | assign l r | whileLoop l r | loop l r =>
      refine (hchild l (by simp [slots])).next h₀ fun _ w₁ h₁ => ?_
      exact (hchild r (by simp [slots])).next h₁ fun _ w₂ h₂ => Runs.pure w₂.2 h₂
    | ifElse c b e =>
      refine (hchild c (by simp [slots])).next h₀ fun _ w₁ h₁ => ?_
      refine (hchild b (by simp [slots])).next h₁ fun _ w₂ h₂ => ?_
      exact (hchild e (by simp [slots])).next h₂ fun _ w₃ h₃ => Runs.pure w₃.2 h₃
    | forLoop i c t b =>
      refine (hchild i (by simp [slots])).next h₀ fun _ w₁ h₁ => ?_
      refine (hchild c (by simp [slots])).next h₁ fun _ w₂ h₂ => ?_
      refine (hchild t (by simp [slots])).next h₂ fun _ w₃ h₃ => ?_
      exact (hchild b (by simp [slots])).next h₃ fun _ w₄ h₄ => Runs.pure w₄.2 h₄
  | decl d =>
    cases d with
    | value v =>
      refine (hname v.name (by simp [names])).next h₀ fun _ w₁ h₁ => ?_
      refine (hchild v.type (by simp [slots])).next h₁ fun _ w₂ h₂ => ?_
      refine (hchild v.initializer (by simp [slots])).next h₂ fun _ w₃ h₃ => ?_
      refine (hlist .attributes v.attributes (by simp [lists])).next h₃ fun _ w₄ h₄ =>
        Runs.pure w₄.2 ?_
      refine sorted h₄ ?_ ?_ <;>
        (simp only [slots, coe_append, coe_cons, Multiset.coe_nil]; abel)
    | function f =>
      refine (hname f.name (by simp [names])).next h₀ fun _ w₁ h₁ => ?_
      refine (hlist .params f.params (by simp [lists])).next h₁ fun _ w₂ h₂ => ?_
      refine (hchild f.returnType (by simp [slots])).next h₂ fun _ w₃ h₃ => ?_
      refine (hchild f.body (by simp [slots])).next h₃ fun _ w₄ h₄ => ?_
      refine (hlist .attributes f.attributes (by simp [lists])).next h₄ fun _ w₅ h₅ => ?_
      refine (hlist .returnAttributes f.returnAttributes (by simp [lists])).next h₅ fun _ w₆ h₆ =>
        Runs.pure w₆.2 ?_
      refine sorted h₆ ?_ ?_ <;>
        (simp only [slots, coe_append, coe_cons, Multiset.coe_nil]; abel)
    | struct x members attributes =>
      refine (hname x (by simp [names])).next h₀ fun _ w₁ h₁ => ?_
      refine (hlist .members members (by simp [lists])).next h₁ fun _ w₂ h₂ => ?_
      refine (hlist .attributes attributes (by simp [lists])).next h₂ fun _ w₃ h₃ =>
        Runs.pure w₃.2 ?_
      refine sorted h₃ ?_ ?_ <;>
        (simp only [slots, coe_append]; abel)
    | typeAlias x t =>
      refine (hname x (by simp [names])).next h₀ fun _ w₁ h₁ => ?_
      exact (hchild t (by simp [slots])).next h₁ fun _ w₂ h₂ => Runs.pure w₂.2 h₂
  | structMember x t attributes =>
    refine (hname x (by simp [names])).next h₀ fun _ w₁ h₁ => ?_
    refine (hchild t (by simp [slots])).next h₁ fun _ w₂ h₂ => ?_
    refine (hlist .attributes attributes (by simp [lists])).next h₂ fun _ w₃ h₃ => Runs.pure w₃.2 ?_
    refine sorted h₃ ?_ ?_ <;>
      (simp only [slots, coe_append, coe_cons, Multiset.coe_nil]; abel)
  | attr a =>
    cases a with
    | stage _ | builtin _ | location _ | group _ | binding _ | id _ => exact Runs.pure w.2 h₀
    | workgroup x y z =>
      refine (hchild x (by simp [slots])).next h₀ fun _ w₁ h₁ => ?_
      refine (hchild y (by simp [slots])).next h₁ fun _ w₂ h₂ => ?_
      exact (hchild z (by simp [slots])).next h₂ fun _ w₃ h₃ => Runs.pure w₃.2 h₃
  | module gs =>
    refine (hlist .globals gs (by simp [lists])).next h₀ fun _ w' h => Runs.pure w'.2 ?_
    simpa [slots] using h

end Ledger
end ShaderLoom.Shape
