import ShaderLoom.Proofs.Copy.Plan
import ShaderLoom.Proofs.TreeShape

/-! Copying with rewrites is a recursive rewrite of a tree. The rewritten tree is read off the
source and the list of rewrites alone; the main statement says that the engine makes just that tree.
Trees are looked at to any depth, so that two of them are the same where no depth tells them
apart. -/
namespace ShaderLoom

/-- A shape with its children and lists changed. -/
def Shape.rebuild {ν α β : Type} (child : α → β) (list : ListKind → List α → List β)
    (s : Shape ν α) : Shape ν β :=
  Id.run (s.traverse pure (fun c => pure (child c)) fun k xs => pure (list k xs))

theorem Shape.rebuild_congr {ν α β : Type} {f g : α → β} {l l' : ListKind → List α → List β}
    {s : Shape ν α} (hc : ∀ c ∈ s.slots, f c = g c) (hl : ∀ k, ∀ xs ∈ s.lists, l k xs = l' k xs) :
    s.rebuild f l = s.rebuild g l' := by
  rcases s with t | e | s | d | ⟨x, t, as⟩ | a | gs
  · cases t <;> simp_all [rebuild, traverse, slots, lists]
  · cases e <;> simp_all [rebuild, traverse, slots, lists]
  · cases s <;> simp_all [rebuild, traverse, slots, lists]
  · cases d <;> simp_all [rebuild, traverse, slots, lists]
  · simp_all [rebuild, traverse, slots, lists]
  · cases a <;> simp_all [rebuild, traverse, slots, lists]
  · simp_all [rebuild, traverse, slots, lists]

namespace Copy

/-- A tree of the target as far as it is looked at. -/
inductive Tree where
  /-- New, and below the depth looked at. -/
  | unseen
  | absent
  /-- A node that was there before the copy. -/
  | given (id : NodeId)
  | made (span : Span) (shape : Shape Symbol Tree)

namespace Tree

/-- A node that was there before, or none. -/
def ofGiven (t : NodeId) : Tree := if t = 0 then .absent else .given t

/-- The tree below a node, where nodes up to `base` were there before. -/
def view (a : Arena) (base : Nat) : Nat → NodeId → Tree
  | 0, j => if j ≤ base then ofGiven j else .unseen
  | n + 1, j =>
    if j ≤ base then ofGiven j
    else match a.node? j with
      | some m => .made m.span (m.shape.rebuild (view a base n) fun _ => List.map (view a base n))
      | none => .absent

theorem view_given {a : Arena} {base n : Nat} {j : NodeId} (h : j ≤ base) :
    view a base n j = ofGiven j := by
  cases n <;> simp [view, h]

/-- A new node is seen as one. -/
theorem view_ne_given {a : Arena} {base n : Nat} {j : NodeId} (h : base < j) (t : NodeId) :
    view a base n j ≠ .given t := by
  have hj : ¬ j ≤ base := Nat.not_le.2 h
  cases n with
  | zero => simp [view, hj]
  | succ n => cases hm : a.node? j <;> simp [view, hj, hm]

end Tree

section Reference

variable (p : Program) (b : Builder) (rs : List Rewrite)

/-- What becomes of a node of which no copy is made. -/
def fixed? (i : NodeId) : Option Tree :=
  if i = 0 then some .absent else (Rewrite.replaced rs i).map .ofGiven

/-- Does the node become nothing? -/
def vanishes (i : NodeId) : Bool := i == 0 || Rewrite.replaced rs i == some 0

/-- A list element with what is put next to it. -/
def rewrittenElement (child : NodeId → Tree) (i : NodeId) : List Tree :=
  (Rewrite.inserted rs .before i).map .given ++
    (if Rewrite.removed rs i || vanishes rs i then [] else [child i]) ++
    (Rewrite.inserted rs .after i).map .given

/-- A list with what is put at its ends. -/
def rewrittenList (child : NodeId → Tree) (owner : NodeId) (k : ListKind) (ids : List NodeId) :
    List Tree :=
  ((Rewrite.inserted rs .front owner).filter (fits p b owner k)).map .given ++
    ids.flatMap (rewrittenElement rs child) ++
    ((Rewrite.inserted rs .back owner).filter (fits p b owner k)).map .given

/-- The rewritten tree: a replaced node is its replacement, and any other is the same node with its
children and lists rewritten. Nodes without a place take the place of the target. -/
def rewritten : Nat → NodeId → Tree
  | 0, i => (fixed? rs i).getD .unseen
  | n + 1, i => (fixed? rs i).getD <| match p.node? i with
    | some m => .made (if m.span.valid then m.span else b.span)
        (m.shape.rebuild (rewritten n) (rewrittenList p b rs (rewritten n) i))
    | none => .absent

/-- The module's list. -/
def rewrittenModule (n : Nat) : List Tree :=
  rewrittenList p b rs (rewritten p b rs n) p.root .globals p.globals

/-- Nodes that were declared before, or stand earlier in the list, are left out. -/
def declareOnce : List NodeId → List Tree → List Tree
  | _, [] => []
  | seen, .given t :: rest =>
    if t ∈ seen then declareOnce seen rest else .given t :: declareOnce (t :: seen) rest
  | seen, x :: rest => x :: declareOnce seen rest

/-- The nodes of a list that were there before. -/
def givens (xs : List Tree) : List NodeId :=
  xs.filterMap fun
    | .given t => some t
    | _ => none

omit p b rs in
theorem declareOnce_eq {seen : List NodeId} {xs : List Tree} (h : (givens xs).Nodup)
    (hs : ∀ t ∈ givens xs, t ∉ seen) : declareOnce seen xs = xs := by
  induction xs generalizing seen with
  | nil => rfl
  | cons x xs ih =>
    cases x with
    | given t =>
      have hgivens : givens (.given t :: xs) = t :: givens xs := rfl
      rw [hgivens, List.nodup_cons] at h
      rw [hgivens] at hs
      rw [declareOnce, if_neg (hs t (by simp)), ih h.2]
      intro u hu
      simp only [List.mem_cons, not_or]
      exact ⟨fun he => h.1 (he ▸ hu), hs u (by simp [hu])⟩
    | unseen => exact congrArg _ (ih h hs)
    | absent => exact congrArg _ (ih h hs)
    | made span sh => exact congrArg _ (ih h hs)

end Reference

section Kept

variable {p : Program} {b : Builder} {rs : List Rewrite} {i : NodeId} (hi : ∀ r ∈ rs, r.node ≠ i)
include hi

theorem replaced_none : Rewrite.replaced rs i = none := by
  refine List.findSome?_eq_none_iff.2 fun r hr => ?_
  have := hi r hr
  cases r with
  | replace j t => exact if_neg this
  | _ => rfl

theorem inserted_nil (side : Side) : Rewrite.inserted rs side i = [] := by
  refine List.filterMap_eq_nil_iff.2 fun r hr => ?_
  have := hi r hr
  cases r with
  | insert d j t => exact if_neg fun h => this h.2
  | _ => rfl

theorem rewrittenElement_kept (child : NodeId → Tree) :
    rewrittenElement rs child i = if i = 0 then [] else [child i] := by
  have hremoved : Rewrite.removed rs i = false := by
    simpa [Rewrite.removed] using fun h => hi _ h rfl
  simp [rewrittenElement, vanishes, inserted_nil hi, replaced_none hi, hremoved]

/-- A node for which, and for whose children, nothing is registered keeps its shape, and its lists
keep their elements; only what lies deeper may change. -/
theorem rewritten_kept {m : Node} (hm : p.node? i = some m)
    (hc : ∀ c ∈ m.shape.slots, ∀ r ∈ rs, r.node ≠ c) (n : Nat) :
    rewritten p b rs (n + 1) i = .made (if m.span.valid then m.span else b.span)
      (m.shape.rebuild (rewritten p b rs n) fun _ ids =>
        (ids.filter (· != 0)).map (rewritten p b rs n)) := by
  have h0 : i ≠ 0 := Nat.ne_of_gt (Arena.range_of_node? hm).1
  have hfixed : fixed? rs i = none := by simp [fixed?, h0, replaced_none hi]
  rw [rewritten, hfixed, Option.getD_none, hm]
  refine congrArg (Tree.made _) (Shape.rebuild_congr (fun _ _ => rfl) fun k xs hxs => ?_)
  have hx : ∀ x ∈ xs, ∀ r ∈ rs, r.node ≠ x :=
    fun x hx => hc x (Shape.required_subset _ _ (Shape.mem_required_of_lists hxs _ hx))
  clear hxs
  simp only [rewrittenList, inserted_nil hi, List.filter_nil, List.map_nil, List.nil_append,
    List.append_nil]
  induction xs with
  | nil => rfl
  | cons x xs ih =>
    rw [List.flatMap_cons, rewrittenElement_kept (hx x (by simp)),
      ih fun y hy => hx y (by simp [hy])]
    by_cases hx0 : x = 0 <;> simp [hx0]

end Kept

/-- What nothing is registered for, at any depth, is copied as it is. -/
theorem rewritten_untouched {p : Program} {b : Builder} {rs : List Rewrite} {i : NodeId}
    (h : ∀ x, p.Below i x → ∀ r ∈ rs, r.node ≠ x) (h0 : ∀ r ∈ rs, r.node ≠ 0) (n : Nat) :
    rewritten p b rs n i = rewritten p b [] n i := by
  have hfixed : ∀ j, (∀ x, p.Below j x → ∀ r ∈ rs, r.node ≠ x) → fixed? rs j = fixed? [] j := by
    intro j hj
    rw [fixed?, replaced_none (hj j .self)]
    rfl
  induction n generalizing i with
  | zero => simp only [rewritten, hfixed i h]
  | succ n ih =>
    cases hm : p.node? i with
    | none => simp only [rewritten, hfixed i h, hm]
    | some m =>
      have hmem : ∀ c ∈ m.shape.slots, c ≠ 0 → c ∈ p.children i :=
        fun c hc hc0 => Arena.mem_children.2 ⟨m, hm, hc, hc0⟩
      have hslots : ∀ c ∈ m.shape.slots, ∀ r ∈ rs, r.node ≠ c := by
        intro c hc
        by_cases hc0 : c = 0
        · exact hc0 ▸ h0
        · exact h c (Program.Below.self.child (hmem c hc hc0))
      have hbelow : ∀ c ∈ m.shape.slots, rewritten p b rs n c = rewritten p b [] n c := by
        intro c hc
        by_cases hc0 : c = 0
        · cases n <;> simp [hc0, rewritten, fixed?]
        · exact ih fun x hx => h x (.of_child (hmem c hc hc0) hx)
      rw [rewritten_kept (h i .self) hm hslots, rewritten_kept (by simp) hm (by simp)]
      refine congrArg (Tree.made _) (Shape.rebuild_congr hbelow fun k xs hxs => ?_)
      refine List.map_congr_left fun x hx => hbelow x ?_
      exact Shape.required_subset _ _ (Shape.mem_required_of_lists hxs _ (List.mem_filter.1 hx).1)

end Copy
end ShaderLoom
