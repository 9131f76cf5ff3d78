import ShaderLoom.Proofs.Build
import ShaderLoom.Program

/-! Programs that a fit builder holds. -/
namespace ShaderLoom

/-- The nodes of a program come after their children and can be written to a document, and only the
last one is a module. -/
structure Program.Fit (p : Program) : Prop where
  spelled : ∀ {i n}, p.node? i = some n → i ≠ p.root → n.shape.Spelled
  present : ∀ {i n}, p.node? i = some n → ∀ c ∈ n.shape.required, c ≠ 0
  below : ∀ {i n}, p.node? i = some n → ∀ c ∈ n.shape.slots, c < i
  root : p.root = p.size
  module : p.shape? p.root = some (.module p.globals)
  named : "" ∉ p.symbols.names.toList
  parents : p.parents = p.parentsOf p.root

/-- The access modes of all variables are declared ones. -/
def Arena.Accessible (a : Arena) : Prop := ∀ i n, a.node? i = some n → n.shape.Accessible

namespace Builder

variable {b : Builder}

theorem size_build (b : Builder) : b.build.size = b.size + 1 := by
  simp [build, Arena.size]

theorem root_build (b : Builder) : b.build.root = b.size + 1 := by
  simp [build, Arena.size]

theorem node?_build (b : Builder) (k : NodeId) :
    b.build.node? k = if k = b.size + 1 then some ⟨.module b.globals, b.span⟩ else b.node? k := by
  cases k with
  | zero => simp
  | succ k => simp [Arena.node?_succ, build, Arena.size, Array.getElem?_push]

theorem node?_build_of {b : Builder} {k : NodeId} {n : Node} (h : b.node? k = some n) :
    b.build.node? k = some n := by
  rwa [node?_build, if_neg (Nat.ne_of_lt (Nat.lt_succ_of_le (Arena.range_of_node? h).2))]

theorem shape?_build_of {b : Builder} {k : NodeId} {s : Shape Symbol NodeId}
    (h : b.shape? k = some s) : b.build.shape? k = some s := by
  obtain ⟨n, hn, rfl⟩ := Option.map_eq_some_iff.1 h
  rw [Arena.shape?, node?_build_of hn, Option.map_some]

theorem globals_build (b : Builder) : b.build.globals = b.globals := by
  simp [Program.globals, Arena.shape?, root_build, node?_build, -Arena.node?_succ]

@[simp] theorem symbols_build (b : Builder) : b.build.symbols = b.symbols := rfl

theorem Fit.build (h : b.Fit) : b.build.Fit where
  spelled {i n} hn hi := by
    rw [node?_build, if_neg (by rwa [root_build] at hi)] at hn
    exact h.spelled hn
  present {i n} hn := by
    rw [node?_build] at hn
    split at hn
    · cases hn
      exact fun c hc => Nat.ne_of_gt (h.globals c hc).1
    · exact h.present hn
  below {i n} hn := by
    rw [node?_build] at hn
    split at hn
    · next hi =>
      cases hn
      rw [hi]
      exact fun c hc => Nat.lt_succ_of_le (h.globals c hc).2
    · exact h.below hn
  root := by rw [root_build, size_build]
  module := by simp [Arena.shape?, root_build, node?_build, globals_build, -Arena.node?_succ]
  named := h.named
  parents := rfl

theorem accessible_build (h : b.Accessible) : b.build.Accessible := by
  intro i n hn
  rw [node?_build] at hn
  split at hn
  · cases hn
    trivial
  · exact h i n hn

end Builder

namespace Program

variable {p : Program}

theorem Fit.withDiagnostics (h : p.Fit) (ds : Diagnostics) : (p.withDiagnostics ds).Fit :=
  ⟨h.spelled, h.present, h.below, h.root, h.module, h.named, h.parents⟩

/-- The module is not below any node, and no other node is one. -/
theorem Fit.eq_root (h : p.Fit) {i : NodeId} {gs : List NodeId}
    (hi : p.shape? i = some (.module gs)) : i = p.root := by
  obtain ⟨n, hn, hs⟩ := Option.map_eq_some_iff.1 hi
  by_cases hr : i = p.root
  · exact hr
  · have := h.spelled hn hr
    simp [hs, Shape.Spelled] at this

theorem Fit.globals (h : p.Fit) : ∀ g ∈ p.globals, 0 < g ∧ g < p.root := by
  obtain ⟨n, hn, hs⟩ := Option.map_eq_some_iff.1 h.module
  intro g hg
  have h₁ := h.present hn g (by simpa [hs, Shape.required, Shape.slots] using hg)
  have h₂ := h.below hn g (by simpa [hs, Shape.slots] using hg)
  exact ⟨Nat.pos_of_ne_zero h₁, h₂⟩

end Program
end ShaderLoom
