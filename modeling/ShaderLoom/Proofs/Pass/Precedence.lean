import ShaderLoom.Proofs.Meaning.OnceRecorded
import ShaderLoom.Proofs.Pass.Transfer

/-! Where the declarations of moved expressions go, as the statements see it. Where statements are
of the kinds that belong where they stand, what goes before an element of a block comes from that
element, or from what initializes it if it is a loop. -/
namespace ShaderLoom

open ShaderLoom.Flow (Nested)

namespace Program

variable {p : Program}

/-- Around a child of a statement is the statement, and around a child of another node what is
around that. -/
theorem statementOf_child (ht : p.TreeShaped) (hw : p.Walked) {i c : NodeId}
    (hi : p.inTree i = true) {x : Shape Symbol NodeId} (hx : p.shape? i = some x) (hc : c ∈ x.slots)
    (h0 : c ≠ 0) :
    p.inTree c = true ∧ p.statementOf c = if x.isStatement then i else p.statementOf i := by
  have hchild := mem_children_of_slot hx hc h0
  have hparent := ht.parent hi hchild
  refine ⟨ht.inTree_child hi hchild, ?_⟩
  rw [hw.statementOf_child (hparent ▸ Arena.ne_zero_of_shape hx), hparent, hx]
  rfl

/-- The statement around an expression that a statement holds is that statement. -/
theorem statementOf_reading (ht : p.TreeShaped) (hw : p.Walked) {s e : NodeId}
    (hs : p.inTree s = true) (h : Reading p.toArena s e) (h0 : e ≠ 0) :
    p.inTree e = true ∧ p.statementOf e = s := by
  have hself : ∀ {x : StmtShape NodeId}, p.shape? s = some (.stmt x) →
      e ∈ (Shape.stmt (ν := Symbol) x).slots →
      p.inTree e = true ∧ p.statementOf e = s := fun hx he => statementOf_child ht hw hs hx he h0
  cases h with
  | simple hx hes he => exact hself hx ((StmtShape.reads_slots hes).subset he)
  | initializer hx hv =>
    have hdecl := Arena.shape?_of_asVariable? hv
    obtain ⟨hd, hstmt⟩ :=
      statementOf_child ht hw hs hx (by simp [Shape.slots]) (Arena.ne_zero_of_shape hdecl)
    obtain ⟨he, houter⟩ := statementOf_child ht hw hd hdecl (by simp [Shape.slots]) h0
    exact ⟨he, houter.trans hstmt⟩
  | ifElse hx | forLoop hx | whileLoop hx => exact hself hx (by simp [Shape.slots])

/-- The statement around what a statement of a function holds is that statement. -/
theorem Rooted.statementOf_held (hp : p.Rooted p.scene.module) (hw : p.Walked) {g s r e : NodeId}
    {f : FunctionShape Symbol NodeId} (hg : g ∈ p.globals) (hf : p.function? g = some f)
    (hs : Nested p.toArena f.body s) (hr : Reading p.toArena s r) (he : p.Comprises r e)
    (h0 : e ≠ 0) : p.inTree s = true ∧ p.statementOf e = s := by
  have hr0 := he.ne_zero h0
  have hbody : f.body ≠ 0 := by
    intro hz
    have hb := hs.isBelow.trans (hr.below hr0)
    rw [hz] at hb
    exact hr0 hb.eq_zero
  have hfunction := Arena.shape?_of_function? hf
  have hin : p.inTree s = true := hp.tree.inTree_below (hp.tree.inTree_child
    (hp.tree.inTree_global hg (Arena.ne_zero_of_shape hfunction))
    (mem_children_of_slot hfunction (by simp [Shape.slots]) hbody)) hs.isBelow
  obtain ⟨hrin, hstmt⟩ := statementOf_reading hp.tree hw hin hr hr0
  exact ⟨hin, ((hp.statementOf_comprised hw hrin he).resolve_left h0).2.trans hstmt⟩

/-- An expression of a body is in an expression that the statement around it holds. -/
theorem Rooted.reading (hp : p.Rooted p.scene.module) (hw : p.Walked) {e : NodeId}
    (h : ∃ r, p.Held r ∧ p.Comprises r e) (h0 : e ≠ 0) (hs : p.statementOf e ≠ 0) :
    p.inTree (p.statementOf e) = true ∧ ∃ r, Reading p.toArena (p.statementOf e) r ∧
      p.Comprises r e := by
  obtain ⟨r, hr, he⟩ := h
  cases hr with
  | parameter hg hf hd hv =>
    exact absurd (hp.statementOf_outer hw (.inr ⟨_, _, ⟨hg, by simp [hf]⟩, hf, hd⟩) hv he h0) hs
  | statement hg hf hnested hr =>
    obtain ⟨hin, rfl⟩ := hp.statementOf_held hw hg hf hnested hr he h0
    exact ⟨hin, _, hr, he⟩

end Program

namespace Hoist

variable {p : Program} {i k e init c t b : NodeId}

theorem isLoopHeader_eq_false {x : StmtShape NodeId} (hx : p.shape? i = some (.stmt x))
    (hh : header? x = none) : isLoopHeader p i = false := by
  unfold isLoopHeader
  rw [hx]
  cases x <;> first | rfl | cases hh

theorem isElseOf_eq_false {x : StmtShape NodeId} (hx : p.shape? i = some (.stmt x))
    (hi : ∀ c b e, x ≠ .ifElse c b e) : isElseOf p i = false := by
  unfold isElseOf
  rw [hx]
  cases x <;> first | rfl | exact absurd rfl (hi _ _ _)

/-- What may stand in the header of a loop is neither a loop nor a conditional. -/
theorem of_isSimple (h : p.isSimple i) :
    isLoopHeader p i = false ∧ isElseOf p i = false ∧ p.shape? i ≠ none := by
  obtain ⟨x, hx, hkind⟩ := h
  refine ⟨isLoopHeader_eq_false hx ?_, isElseOf_eq_false hx ?_, by rw [hx]; nofun⟩
  · cases x <;> first | rfl | exact hkind.elim
  · rintro c b e rfl
    exact hkind

theorem isElseOf_forLoop (h : p.shape? k = some (.stmt (.forLoop init c t b))) :
    isElseOf p k = false :=
  isElseOf_eq_false h nofun

theorem isLoopHeader_of_forLoop (h : p.shape? k = some (.stmt (.forLoop init c t b))) :
    isLoopHeader p k = true :=
  isLoopHeader_iff.2 ⟨_, _, h, rfl⟩

/-- The declaration of an expression goes right before the statement: the expression is in the
statement, or in what initializes it. -/
def Precedes (p : Program) (i e : NodeId) : Prop :=
  (p.statementOf e = i ∧ isLoopHeader p i = false ∧ isElseOf p i = false) ∨
    ∃ c t b, p.shape? i = some (.stmt (.forLoop (p.statementOf e) c t b))

/-- How an expression relates to the place of its declaration. -/
def Place.From (p : Program) (e : NodeId) : Place → Prop
  | .before i => Precedes p i e
  | .condition i => p.statementOf e = i ∧ isLoopHeader p i = true
  | .continuing i => ∃ init c b, p.shape? i = some (.stmt (.forLoop init c (p.statementOf e) b))
  | .otherwise i => p.statementOf e = i ∧ isElseOf p i = true

theorem place_condition (h : isLoopHeader p (p.statementOf e) = true) :
    place p e = some (.condition (p.statementOf e)) := by
  simp [place, h]

theorem place_otherwise (h : isElseOf p (p.statementOf e) = true) :
    place p e = some (.otherwise (p.statementOf e)) := by
  obtain ⟨c, b, o, hs⟩ := isIf_of_isElseOf h
  simp [place, placeBefore, isLoopHeader_eq_false hs rfl, hs, h]

section Tidy

variable (ht : p.TreeShaped) (htidy : p.Tidy)
include ht htidy

/-- Loops are no parts of headers. -/
theorem parent_ne_forLoop (hi : isLoopHeader p i = true) (hpart : i = init ∨ i = t) :
    p.shape? (p.parent i) ≠ some (.stmt (.forLoop init c t b)) := by
  intro hs
  have h0 : i ≠ 0 := by
    obtain ⟨x, -, hx, -⟩ := isLoopHeader_iff.1 hi
    exact Arena.ne_zero_of_shape hx
  obtain ⟨hinit, ht', -⟩ := htidy _ _ (ht.parent_holds (Arena.ne_zero_of_shape hs)).2 hs
  have hsimple : p.isSimple i := by
    rcases hpart with rfl | rfl
    · exact hinit.resolve_left h0
    · exact ht'.resolve_left h0
  rw [(of_isSimple hsimple).1] at hi
  cases hi

/-- A loop that is initialized by a statement has a place before it in its block. -/
theorem placeBefore_forLoop {n : Nat} {x : Place}
    (hs : p.shape? k = some (.stmt (.forLoop init c t b))) (h : placeBefore p n k = some x) :
    x = .before k := by
  have hk := isLoopHeader_of_forLoop hs
  cases n with
  | zero => cases h
  | succ n =>
    simp only [placeBefore, hs, Option.isNone_some, isElseOf_forLoop hs, Bool.false_eq_true,
      if_false] at h
    split at h
    · exact (Option.some.inj h).symm
    · next init' c' t' b' hparent =>
      split at h
      · next hinit => exact absurd hparent (parent_ne_forLoop ht htidy hk (.inl hinit))
      split at h
      · next hcont => exact absurd hparent (parent_ne_forLoop ht htidy hk (.inr hcont))
      · cases h
    · cases h

theorem from_of_place {x : Place} (h : place p e = some x) : x.From p e := by
  unfold place at h
  split at h
  · next hloop =>
    cases h
    exact ⟨rfl, hloop⟩
  next hloop =>
  rw [placeBefore] at h
  split at h
  · cases h
  split at h
  · next helse =>
    cases h
    exact ⟨rfl, helse⟩
  next helse =>
  split at h
  · cases h
    exact .inl ⟨rfl, by simpa using hloop, by simpa using helse⟩
  · next init c t b hs =>
    split at h
    · next hinit =>
      obtain rfl := placeBefore_forLoop ht htidy hs h
      exact .inr ⟨c, t, b, hinit ▸ hs⟩
    split at h
    · next hcont =>
      cases h
      exact ⟨init, c, b, hcont ▸ hs⟩
    · cases h
  · cases h

/-- The declaration that goes right before an element of a block has its place there. -/
theorem place_before (hi : p.inTree i = true) {ss : List NodeId}
    (hparent : p.shape? (p.parent i) = some (.stmt (.block ss))) (hsome : p.shape? i ≠ none)
    (h0 : p.statementOf e ≠ 0) (h : Precedes p i e) : place p e = some (.before i) := by
  rcases h with ⟨rfl, hloop, helse⟩ | ⟨c, t, b, hs⟩
  · simp [place, placeBefore, hloop, helse, hsome, hparent]
  · have hsimple := (htidy _ _ hi hs).1.resolve_left h0
    obtain ⟨hloop, helse, hinit⟩ := of_isSimple hsimple
    have hpar : p.parent (p.statementOf e) = i :=
      ht.parent hi (Program.mem_children_of_slot hs (by simp [Shape.slots]) h0)
    have hsize : p.size ≠ 0 :=
      Nat.ne_of_gt (Nat.lt_of_lt_of_le (range_of_shape? hs).1 (range_of_shape? hs).2)
    obtain ⟨n, hn⟩ := Nat.exists_eq_succ_of_ne_zero hsize
    simp [place, placeBefore, hloop, helse, hinit, hpar, hs, hn, hparent, isElseOf_forLoop hs]

/-- The declaration that goes right before the continuing part of a loop has its place there. -/
theorem place_continuing (hi : p.inTree i = true)
    (hs : p.shape? i = some (.stmt (.forLoop init c t b))) (ht0 : t ≠ 0) (h : Precedes p t e) :
    place p e = some (.continuing i) := by
  obtain ⟨hloop, helse, hsome⟩ := of_isSimple ((htidy _ _ hi hs).2.1.resolve_left ht0)
  have hpar : p.parent t = i :=
    ht.parent hi (Program.mem_children_of_slot hs (by simp [Shape.slots]) ht0)
  have hne : t ≠ init := by
    rintro rfl
    have hnodup := ht.nodup_slots hi hs
    simp [Shape.slots, ht0] at hnodup
  rcases h with ⟨rfl, -, -⟩ | ⟨c, t', b, hloop'⟩
  · simp [place, placeBefore, hloop, helse, hsome, hpar, hs, hne]
  · rw [isLoopHeader_of_forLoop hloop'] at hloop
    cases hloop

end Tidy
end Hoist
end ShaderLoom
