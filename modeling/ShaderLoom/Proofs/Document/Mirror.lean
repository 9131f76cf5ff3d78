import Mathlib.Data.List.Forall2
import ShaderLoom.Document.Encode
import ShaderLoom.Print.Shader
import ShaderLoom.Proofs.Tree

/-! Nodes of two arenas that look alike. Alike nodes have the same record and the same text, however
the arenas number them. -/
namespace ShaderLoom

/-- Two spans that cite the same place, or none. -/
def Span.Same (s t : Span) : Prop := s.valid = t.valid ∧ (s.valid = true → s = t)

/-- A place that is dropped unless it is valid cites the same. -/
theorem Span.same_ofValid (s : Span) : s.Same (if s.valid then s else {}) := by
  by_cases h : s.valid = true
  · simp [h, Same]
  · have hempty : ({} : Span).valid = false := rfl
    simp [h, hempty, Same]

namespace Arena

variable {a b : Arena} {R : NodeId → NodeId → Prop}

/-- Related nodes are both absent, or have the same place, words and names and related children. -/
def Mirrors (a b : Arena) (R : NodeId → NodeId → Prop) : Prop :=
  ∀ i j, R i j → (i = 0 ∧ j = 0) ∨ ∃ n m, a.node? i = some n ∧ b.node? j = some m ∧
    n.span.Same m.span ∧
    Shape.Rel (fun s t => a.nameOf s = b.nameOf t) R (List.Forall₂ R) n.shape m.shape

/-- Children come before the nodes that hold them. -/
def Ordered (a : Arena) : Prop := ∀ i n, a.node? i = some n → ∀ c ∈ n.shape.slots, c < i

theorem map_eq_of_forall₂ {α β γ : Type} {R : α → β → Prop} {xs : List α} {ys : List β} {f : α → γ}
    {g : β → γ} (h : List.Forall₂ R xs ys) (hfg : ∀ x ∈ xs, ∀ y ∈ ys, R x y → f x = g y) :
    xs.map f = ys.map g := by
  induction h with
  | nil => rfl
  | cons hxy _ ih =>
    simp only [List.map_cons, List.cons.injEq]
    exact ⟨hfg _ (by simp) _ (by simp) hxy, ih fun x hx y hy =>
      hfg x (by simp [hx]) y (by simp [hy])⟩

end Arena

namespace Document

open Arena

variable {a b : Arena} {R : NodeId → NodeId → Prop}

/-- Alike nodes whose children have the same records have the same record. -/
theorem ofNode_eq {x y : Node} {sub sub' : NodeId → Option Record} (hspan : x.span.Same y.span)
    (hrel : Shape.Rel (fun s t => a.nameOf s = b.nameOf t) R (List.Forall₂ R) x.shape y.shape)
    (hsub : ∀ c ∈ x.shape.slots, ∀ d ∈ y.shape.slots, R c d → sub c = sub' d) :
    ofNode a sub x = ofNode b sub' y := by
  obtain ⟨s, px⟩ := x
  obtain ⟨t, py⟩ := y
  have hs : (if px.valid then some px else none) = if py.valid then some py else none := by
    obtain ⟨hvalid, hsame⟩ := hspan
    simp only at hvalid hsame
    by_cases hv : px.valid = true
    · rw [hsame hv]
    · rw [if_neg hv, if_neg (hvalid ▸ hv)]
  have hone : ∀ c d, c ∈ s.slots → d ∈ t.slots → R c d → sub c = sub' d :=
    fun c d hc hd => hsub c hc d hd
  have hmany : ∀ cs ds, (∀ c ∈ cs, c ∈ s.slots) → (∀ d ∈ ds, d ∈ t.slots) →
      List.Forall₂ R cs ds → cs.map sub = ds.map sub' :=
    fun cs ds hcs hds hall => map_eq_of_forall₂ hall fun c hc d hd => hsub c (hcs c hc) d (hds d hd)
  simp only at hrel
  cases hrel with
  | bool | i32 | u32 | f32 | sampler | externalTexture | int | float | boolean | breakLoop
    | continueLoop
  | discard | stage | builtin | location | group | binding | id => simp only [ofNode, hs]
  | vector he | matrix he | array he | sampledTexture he | unary he | varDecl he | increment he
  | callStatement he | ret he =>
    simp only [ofNode, Shape.kind, Shape.tag, TypeShape.tag, ExprShape.tag, StmtShape.tag, hs]
    rw [hone _ _ (by simp [Shape.slots]) (by simp [Shape.slots]) he]
  | named hn | ident hn =>
    simp only [ofNode, Shape.kind, Shape.tag, TypeShape.tag, ExprShape.tag, hs, hn]
  | binary hc hd | index hc hd | assign hc hd | whileLoop hc hd | loop hc hd =>
    simp only [ofNode, Shape.kind, Shape.tag, ExprShape.tag, StmtShape.tag, hs]
    rw [hone _ _ (by simp [Shape.slots]) (by simp [Shape.slots]) hc,
      hone _ _ (by simp [Shape.slots]) (by simp [Shape.slots]) hd]
  | call ht has =>
    simp only [ofNode, Shape.kind, Shape.tag, ExprShape.tag, hs]
    rw [hone _ _ (by simp [Shape.slots]) (by simp [Shape.slots]) ht,
      hmany _ _ (by simp +contextual [Shape.slots]) (by simp +contextual [Shape.slots]) has]
  | member ho hn =>
    simp only [ofNode, Shape.kind, Shape.tag, ExprShape.tag, hs, hn]
    rw [hone _ _ (by simp [Shape.slots]) (by simp [Shape.slots]) ho]
  | block hss =>
    simp only [ofNode, Shape.kind, Shape.tag, StmtShape.tag, hs]
    rw [hmany _ _ (by simp [Shape.slots]) (by simp [Shape.slots]) hss]
  | ifElse hc hd he | workgroup hc hd he =>
    simp only [ofNode, Shape.kind, Shape.tag, StmtShape.tag, AttrShape.tag, hs]
    rw [hone _ _ (by simp [Shape.slots]) (by simp [Shape.slots]) hc,
      hone _ _ (by simp [Shape.slots]) (by simp [Shape.slots]) hd,
      hone _ _ (by simp [Shape.slots]) (by simp [Shape.slots]) he]
  | forLoop hc hd he hf =>
    simp only [ofNode, Shape.kind, Shape.tag, StmtShape.tag, hs]
    rw [hone _ _ (by simp [Shape.slots]) (by simp [Shape.slots]) hc,
      hone _ _ (by simp [Shape.slots]) (by simp [Shape.slots]) hd,
      hone _ _ (by simp [Shape.slots]) (by simp [Shape.slots]) he,
      hone _ _ (by simp [Shape.slots]) (by simp [Shape.slots]) hf]
  | value hn ht hi has =>
    simp only [ofNode, Shape.kind, Shape.tag, DeclShape.tag, hs, hn]
    rw [hone _ _ (by simp [Shape.slots]) (by simp [Shape.slots]) ht,
      hone _ _ (by simp [Shape.slots]) (by simp [Shape.slots]) hi,
      hmany _ _ (by simp +contextual [Shape.slots]) (by simp +contextual [Shape.slots]) has]
  | function hn hps hr hb has hras =>
    simp only [ofNode, Shape.kind, Shape.tag, DeclShape.tag, hs, hn]
    rw [hone _ _ (by simp [Shape.slots]) (by simp [Shape.slots]) hr,
      hone _ _ (by simp [Shape.slots]) (by simp [Shape.slots]) hb,
      hmany _ _ (by simp +contextual [Shape.slots]) (by simp +contextual [Shape.slots]) hps,
      hmany _ _ (by simp +contextual [Shape.slots]) (by simp +contextual [Shape.slots]) has,
      hmany _ _ (by simp +contextual [Shape.slots]) (by simp +contextual [Shape.slots]) hras]
  | struct hn hms has =>
    simp only [ofNode, Shape.kind, Shape.tag, DeclShape.tag, hs, hn]
    rw [hmany _ _ (by simp +contextual [Shape.slots]) (by simp +contextual [Shape.slots]) hms,
      hmany _ _ (by simp +contextual [Shape.slots]) (by simp +contextual [Shape.slots]) has]
  | typeAlias hn ht =>
    simp only [ofNode, Shape.kind, Shape.tag, DeclShape.tag, hs, hn]
    rw [hone _ _ (by simp [Shape.slots]) (by simp [Shape.slots]) ht]
  | structMember hn ht has =>
    simp only [ofNode, Shape.kind, Shape.tag, hs, hn]
    rw [hone _ _ (by simp [Shape.slots]) (by simp [Shape.slots]) ht,
      hmany _ _ (by simp +contextual [Shape.slots]) (by simp +contextual [Shape.slots]) has]
  | module => simp only [ofNode, Shape.kind, Shape.tag, hs]

/-- Alike nodes have the same record, with any fuel that reaches their leaves. -/
theorem record_eq (ha : a.Ordered) (hb : b.Ordered) (hR : a.Mirrors b R) {n m i j : Nat}
    (hi : i < n) (hj : j < m) (h : R i j) : record a n i = record b m j := by
  induction n generalizing m i j with
  | zero => exact absurd hi (Nat.not_lt_zero i)
  | succ n ih =>
    cases m with
    | zero => exact absurd hj (Nat.not_lt_zero j)
    | succ m =>
      rcases hR i j h with ⟨rfl, rfl⟩ | ⟨x, y, hx, hy, hspan, hrel⟩
      · rfl
      · simp only [record, hx, hy, Option.map_some, Option.some.injEq]
        refine ofNode_eq hspan hrel fun c hc d hd hcd => ?_
        have := ha i x hx c hc
        have := hb j y hy d hd
        exact ih (by grind) (by grind) hcd

end Document
end ShaderLoom
