import ShaderLoom.Proofs.Copy.Plan
import ShaderLoom.Proofs.TreeShape

/-! Registrations that leave no trace of their order. A session is marked with the list elements
that are left out and with handlers of nodes, each node at most once. What is registered in steps
comes to the marks of all steps, and marks in another order are the same marks. -/
namespace ShaderLoom.Copy

variable {κ σ : Type} {p : Program} {s : Session κ σ} {ds ds' : List NodeId}
    {rs rs' : List (NodeId × κ)}

/-- A session in which more elements are left out and more nodes have handlers. -/
def Session.mark (s : Session κ σ) (ds : List NodeId) (rs : List (NodeId × κ)) : Session κ σ :=
  { s with
    removed := fun i => s.removed i || decide (i ∈ ds)
    replacements := fun i => (s.replacements i).or ((rs.lookup i).map .handler) }

@[simp] theorem Session.mark_nil (s : Session κ σ) : s.mark [] [] = s := by
  simp [Session.mark]

theorem Session.mark_mark (s : Session κ σ) (ds ds' : List NodeId) (rs rs' : List (NodeId × κ)) :
    (s.mark ds rs).mark ds' rs' = s.mark (ds ++ ds') (rs ++ rs') := by
  simp only [Session.mark, List.mem_append, Bool.decide_or, Bool.or_assoc, Option.or_assoc,
    List.lookup_append]
  congr 1
  funext i
  cases rs.lookup i <;> rfl

theorem lookup_eq_none {α : Type} {rs : List (NodeId × α)} {i : NodeId} (h : ∀ x ∈ rs, x.1 ≠ i) :
    rs.lookup i = none := by
  refine List.lookup_eq_none_iff.2 fun x hx => ?_
  simpa using (h x hx).symm

/-- What a list with different keys has at a key does not depend on the order of the list. -/
theorem lookup_perm {α : Type} {rs rs' : List (NodeId × α)} (hperm : rs.Perm rs')
    (hnodup : (rs.map Prod.fst).Nodup) (i : NodeId) : rs.lookup i = rs'.lookup i := by
  induction hperm with
  | nil => rfl
  | cons x _ ih =>
    rw [List.lookup_cons, List.lookup_cons, ih (List.nodup_cons.1 hnodup).2]
  | swap x y l =>
    obtain ⟨j, x⟩ := x
    obtain ⟨k, y⟩ := y
    have hne : j ≠ k := by
      rintro rfl
      simp at hnodup
    by_cases hj : i = j
    · simp [List.lookup_cons, hj, beq_false_of_ne hne]
    · simp [List.lookup_cons, beq_false_of_ne hj]
  | trans hperm _ ih₁ ih₂ => exact (ih₁ hnodup).trans (ih₂ ((hperm.map _).nodup_iff.1 hnodup))

/-- The same marks, in another order and as often as one likes. -/
theorem Session.mark_eq (s : Session κ σ) (hds : ∀ i, i ∈ ds ↔ i ∈ ds') (hrs : rs.Perm rs')
    (hnodup : (rs.map Prod.fst).Nodup) : s.mark ds rs = s.mark ds' rs' := by
  have hremoved : (fun i => s.removed i || decide (i ∈ ds)) = fun i =>
      s.removed i || decide (i ∈ ds') := by
    funext i
    simp only [hds]
  have hreplaced : (fun i => (s.replacements i).or ((rs.lookup i).map Replacement.handler)) =
      fun i => (s.replacements i).or ((rs'.lookup i).map Replacement.handler) := by
    funext i
    rw [lookup_perm hrs hnodup]
  rw [Session.mark, Session.mark, hremoved, hreplaced]

/-- What is in a list of a node of the tree is an element. -/
theorem isElement_of_list (hp : p.Fit) (ht : p.TreeShaped) {q i : NodeId} {x : Shape Symbol NodeId}
    {l : List NodeId} (hq : p.inTree q = true) (hx : p.shape? q = some x) (hl : l ∈ x.lists)
    (hi : i ∈ l) : IsElement p i ∧ p.parent i = q := by
  obtain ⟨n, hn, rfl⟩ := Option.map_eq_some_iff.1 hx
  have hrequired := Shape.mem_required_of_lists hl i hi
  have hchild : i ∈ p.children q :=
    Arena.mem_children.2 ⟨n, hn, Shape.required_subset _ i hrequired, hp.present hn i hrequired⟩
  have hparent := ht.parent hq hchild
  have hin := ht.inTree_child hq hchild
  refine ⟨⟨⟨hp.node_of_inTree hin, hin⟩, ?_⟩, hparent⟩
  rw [hparent, hn, Option.any_some]
  exact List.any_eq_true.2 ⟨l, hl, by simpa using hi⟩

/-- The marks can be set: elements alone are left out, and nodes of the source have a handler, each
of them one. -/
structure Markable (p : Program) (ds : List NodeId) (rs : List (NodeId × κ)) : Prop where
  element : ∀ d ∈ ds, IsElement p d
  source : ∀ x ∈ rs, InSource p x.1
  once : (rs.map Prod.fst).Nodup

/-- The step sets marks if they can be set, does nothing else and answers as said. -/
def Marks {α : Type} (p : Program) (step : Edit κ σ α) (answer : α) (ds : List NodeId)
    (rs : List (NodeId × κ)) : Prop :=
  Markable p ds rs → ∀ s : Session κ σ, s.source = p → (∀ x ∈ rs, s.replacements x.1 = none) →
    step s = .ok answer (s.mark ds rs)

namespace Marks

variable {α β : Type} {step step' : Edit κ σ α} {next : α → Edit κ σ β} {a : α} {b : β}

theorem pure (p : Program) (a : α) : Marks p (Pure.pure a : Edit κ σ α) a [] [] := fun _ s _ _ => by
  rw [Session.mark_nil]
  rfl

theorem remove (p : Program) (d : NodeId) : Marks p (Edit.remove d : Edit κ σ Unit) () [d] [] := by
  intro h s hsource _
  have hcheck :=
    checkElement_ok (s := s) (x := ()).2 ⟨hsource ▸ h.element d (List.mem_singleton.2 rfl), rfl⟩
  refine bind_ok.2 ⟨(), s, hcheck, ?_⟩
  have hmark : ({ s with removed := update s.removed d true } : Session κ σ) = s.mark [d] [] := by
    have hremoved : update s.removed d true = fun i => s.removed i || decide (i ∈ [d]) := by
      funext i
      by_cases hi : i = d <;> simp [update, hi]
    simp [Session.mark, hremoved]
  exact congrArg (EStateM.Result.ok ()) hmark

theorem replaceWith (p : Program) (i : NodeId) (h : κ) :
    Marks p (Edit.replaceWith i h : Edit κ σ Unit) () [] [(i, h)] := by
  intro hmark s hsource hfree
  obtain ⟨hnode, htree⟩ := hmark.source (i, h) (List.mem_singleton.2 rfl)
  obtain ⟨n, hn⟩ := Option.isSome_iff_exists.1 hnode
  have hnone := hfree (i, h) (List.mem_singleton.2 rfl)
  refine bind_ok.2 ⟨n, s, checkSource_ok.2 ⟨hsource ▸ hn, hsource ▸ htree, rfl⟩, ?_⟩
  have hmark : ({ s with replacements := update s.replacements i (some (.handler h)) } :
    Session κ σ) = s.mark [] [(i, h)] := by
    have hreplaced : update s.replacements i (some (.handler h)) =
        fun j => (s.replacements j).or (([(i, h)].lookup j).map Replacement.handler) := by
      funext j
      by_cases hj : j = i
      · simp [update, hj, hnone]
      · simp [update, hj, List.lookup_cons, beq_false_of_ne hj]
    simp [Session.mark, hreplaced]
  unfold Edit.register
  rw [get_bind]
  simp only [hnone, Option.isSome_none, Bool.false_eq_true, if_false]
  exact congrArg (EStateM.Result.ok ()) hmark

theorem bind (h : Marks p step a ds rs) (h' : Marks p (next a) b ds' rs') :
    Marks p (step >>= next) b (ds ++ ds') (rs ++ rs') := by
  intro hmark s hsource hfree
  have hnodup := hmark.once
  rw [List.map_append, List.nodup_append] at hnodup
  obtain ⟨hnodup, hnodup', hapart⟩ := hnodup
  have hfirst := h ⟨fun d hd => hmark.element d (List.mem_append_left _ hd),
    fun x hx => hmark.source x (List.mem_append_left _ hx),
    hnodup⟩ s hsource fun x hx => hfree x (List.mem_append_left _ hx)
  refine bind_ok.2 ⟨a, _, hfirst, ?_⟩
  rw [← Session.mark_mark]
  refine h' ⟨fun d hd => hmark.element d (List.mem_append_right _ hd),
    fun x hx => hmark.source x (List.mem_append_right _ hx), hnodup'⟩ _ hsource fun x hx => ?_
  have hnone : rs.lookup x.1 = none := lookup_eq_none fun y hy =>
    hapart y.1 (List.mem_map_of_mem hy) x.1 (List.mem_map_of_mem hx)
  simp [Session.mark, hfree x (List.mem_append_right _ hx), hnone]

/-- A step and then an answer. -/
theorem answer (h : Marks p step a ds rs) (b : β) :
    Marks p (step >>= fun _ => Pure.pure b) b ds rs := by
  have hboth : Marks p (step >>= fun _ => Pure.pure b) b (ds ++ []) (rs ++ []) := h.bind (pure p b)
  rwa [List.append_nil, List.append_nil] at hboth

/-- A loop sets the marks of its rounds. -/
theorem forIn {ι : Type} {body : ι → PUnit → Edit κ σ (ForInStep PUnit)} {D : ι → List NodeId}
    {R : ι → List (NodeId × κ)} (xs : List ι)
    (h : ∀ x ∈ xs, Marks p (body x ⟨⟩) (.yield ⟨⟩) (D x) (R x)) :
    Marks p (ForIn.forIn xs PUnit.unit body) ⟨⟩ (xs.flatMap D) (xs.flatMap R) := by
  induction xs with
  | nil => exact pure p _
  | cons x xs ih =>
    rw [List.forIn_cons, List.flatMap_cons, List.flatMap_cons]
    exact (h x List.mem_cons_self).bind (ih fun y hy => h y (List.mem_cons_of_mem _ hy))

/-- Two steps that set the same marks do the same. -/
theorem eq (h : Marks p step a ds rs) (h' : Marks p step' a ds' rs') (hds : ∀ i, i ∈ ds ↔ i ∈ ds')
    (hrs : rs.Perm rs') (hmark : Markable p ds rs) {s : Session κ σ} (hsource : s.source = p)
    (hfree : ∀ i, s.replacements i = none) : step s = step' s := by
  have hmark' : Markable p ds' rs' := ⟨fun d hd => hmark.element d ((hds d).2 hd),
    fun x hx => hmark.source x (hrs.mem_iff.2 hx), (hrs.map _).nodup_iff.1 hmark.once⟩
  rw [h hmark s hsource fun x _ => hfree x.1, h' hmark' s hsource fun x _ => hfree x.1,
    s.mark_eq hds hrs hmark.once]

end Marks

end ShaderLoom.Copy
