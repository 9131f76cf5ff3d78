import ShaderLoom.Proofs.Copy.Plan
import ShaderLoom.Proofs.Copy.Trim
import ShaderLoom.Proofs.Meaning.Visit

/-! Leaving out what control cannot reach. One run takes out all of it: what is left is reachable,
has the behaviors that it had, and nothing but unreachable elements of blocks is missing. -/
namespace ShaderLoom

open ShaderLoom.Flow

theorem NodeMap.any_toList {β : Type} (m : NodeMap β) (f : NodeId → β → Bool) :
    m.any f = m.toList.any fun x => f x.1 x.2 := by
  have hloop : (forIn m ((none, ()) : Option Bool × Unit) fun x _ =>
      if f x.1 x.2 = true then (pure (ForInStep.done (some true, ())) : Id _)
        else pure (ForInStep.yield (none, ()))) =
      pure (if m.toList.any (fun x => f x.1 x.2) then some true else none, ()) := by
    rw [Std.TreeMap.forIn_eq_forIn_toList]
    induction m.toList with
    | nil => rfl
    | cons x xs ih =>
      rw [List.forIn_cons, List.any_cons]
      by_cases hx : f x.1 x.2 = true
      · simp [hx]
      · rw [Bool.not_eq_true] at hx
        rw [hx, Bool.false_or]
        exact ih
  unfold Std.TreeMap.any Std.DTreeMap.any Std.DTreeMap.Internal.Impl.any
  generalize hx : (forIn m.inner.inner ((none, ()) : Option Bool × Unit) _ : Id _) = x
  have hloop : x = pure (if m.toList.any (fun x => f x.1 x.2) then some true else none, ()) := by
    rw [← hx]
    exact hloop
  rw [hloop]
  cases m.toList.any fun x => f x.1 x.2 <;> rfl

/-- No entry of the map passes the test. -/
theorem NodeMap.any_eq_false_iff {β : Type} {m : NodeMap β} {f : NodeId → β → Bool} :
    m.any f = false ↔ ∀ k v, m[k]? = some v → f k v = false := by
  rw [NodeMap.any_toList, List.any_eq_false]
  simp only [Bool.not_eq_true, Prod.forall, Std.TreeMap.mem_toList_iff_getElem?_eq_some]
namespace Program.Trims

variable {p q : Program} {gone : NodeId → Prop} {origin : NodeId → NodeId}
    (h : Trims gone origin p q)
include h

theorem shapes {s t : NodeId} (hst : Comes origin s t) (hs : s ≠ 0) : p.inTree s = true ∧ t ≠ 0 ∧
    ∃ x y, p.shape? s = some x ∧ q.shape? t = some y ∧
      Shape.Rel (fun s t => s = t ∧ p.symbols.nameFor s = q.symbols.nameFor t) (Comes origin)
      (ComeLists gone origin) x y := by
  rcases hst with ⟨h0, _⟩ | ⟨_, rfl⟩
  · exact absurd h0 hs
  obtain ⟨hin, n, m, hn, hm, _, hrel⟩ := h.node t hs
  have ht : t ≠ 0 := Nat.ne_of_gt (Arena.range_of_node? hm).1
  exact ⟨hin, ht, n.shape, m.shape, by simp [Arena.shape?, hn], by simp [Arena.shape?, hm], hrel⟩

/-- A walk enters the copy of a statement. -/
theorem enters {s t : NodeId} {x : Shape Symbol NodeId} (hst : Comes origin s t)
    (hs : p.shape? s = some x) {live : Bool} {b : Behaviors} {ms : List Mark}
    (hv : Visit q.toArena (.one t) live b ms) :
    ∃ inner y, ms = ⟨t, live, b⟩ :: inner ∧ p.inTree s = true ∧ origin t = s ∧
      Shape.Rel (fun s t => s = t ∧ p.symbols.nameFor s = q.symbols.nameFor t) (Comes origin)
      (ComeLists gone origin) x y ∧
      Within q.toArena live (some y) b inner := by
  have h0 : s ≠ 0 := by
    rintro rfl
    simp [Arena.shape?] at hs
  obtain ⟨hin, ht0, x', y, hx, hy, hrel⟩ := h.shapes hst h0
  cases hs.symm.trans hx
  obtain ⟨inner, rfl, hwithin⟩ := hv.within ht0
  exact ⟨inner, y, rfl, hin, (hst.resolve_left fun h => h0 h.1).2, hrel, hy ▸ hwithin⟩

theorem isBlock_iff {s t : NodeId} (hst : Comes origin s t) : q.isBlock t ↔ p.isBlock s := by
  by_cases hs : s = 0
  · obtain ⟨_, rfl⟩ := hst.resolve_right fun h => h.1 hs
    simp [hs, Arena.isBlock, Arena.block?, Arena.shape?]
  · obtain ⟨_, _, x, y, hx, hy, hrel⟩ := h.shapes hst hs
    simp only [Arena.isBlock, Arena.block?, hx, hy, Option.bind_some]
    cases hrel <;> simp [Shape.block?]

end Program.Trims

namespace Flow

theorem alone_rel {N : Symbol → Symbol → Prop} {C : NodeId → NodeId → Prop}
    {L : List NodeId → List NodeId → Prop} {x y : Shape Symbol NodeId} (h : Shape.Rel N C L x y) :
    alone? (some y) = alone? (some x) := by
  cases h <;> rfl

/-- Walks through a statement and its copy, or through the statements of a block and what is left of
them. -/
inductive Matches (gone : NodeId → Prop) (origin : NodeId → NodeId) (p : Program) :
    Look → Look → Prop
  | one {s t} : Program.Comes origin s t → Matches gone origin p (.one s) (.one t)
  | all {i all ss ts sofar} : p.inTree i = true → p.shape? i = some (.stmt (.block all)) →
    (∀ s ∈ ss, s ∈ all) →
    Program.ComeLists gone origin ss ts → Matches gone origin p (.all ss sofar) (.all ts sofar)

/-- The second walk finds nothing out of reach, and it notes of copies what the first one notes of
what is within reach. -/
structure Agrees (origin : NodeId → NodeId) (ms ms' : List Mark) : Prop where
  copies : ∀ m' ∈ ms', m'.live = true ∧ ∃ m ∈ ms, m.node = origin m'.node ∧ m.live = true ∧
    m.behaviors = m'.behaviors
  reached : ∀ m ∈ ms, m.live = true → ∃ m' ∈ ms', origin m'.node = m.node

section

variable {p q : Program} {gone : NodeId → Prop} {origin : NodeId → NodeId}

theorem Agrees.nil : Agrees origin [] [] := ⟨by simp, by simp⟩

theorem Agrees.cons {s t : NodeId} {b b' : Behaviors} {ms ms' : List Mark} (hst : origin t = s)
    (hb : b' = b) (h : Agrees origin ms ms') :
    Agrees origin (⟨s, true, b⟩ :: ms) (⟨t, true, b'⟩ :: ms') := by
  refine ⟨List.forall_mem_cons.2 ⟨⟨rfl, _, List.mem_cons_self, hst.symm, rfl, hb.symm⟩,
    fun m' hm' => ?_⟩,
    List.forall_mem_cons.2 ⟨fun _ => ⟨_, List.mem_cons_self, hst⟩, fun m hm hlive => ?_⟩⟩
  · obtain ⟨hlive, m, hm, hsame⟩ := h.copies m' hm'
    exact ⟨hlive, m, List.mem_cons_of_mem _ hm, hsame⟩
  · obtain ⟨m', hm', hsame⟩ := h.reached m hm hlive
    exact ⟨m', List.mem_cons_of_mem _ hm', hsame⟩

theorem Agrees.append {m₁ m₁' m₂ m₂' : List Mark} (h₁ : Agrees origin m₁ m₁')
    (h₂ : Agrees origin m₂ m₂') : Agrees origin (m₁ ++ m₂) (m₁' ++ m₂') := by
  refine ⟨List.forall_mem_append.2 ⟨fun m' hm' => ?_, fun m' hm' => ?_⟩,
    List.forall_mem_append.2 ⟨fun m hm hlive => ?_, fun m hm hlive => ?_⟩⟩
  · obtain ⟨hlive, m, hm, hsame⟩ := h₁.copies m' hm'
    exact ⟨hlive, m, List.mem_append_left _ hm, hsame⟩
  · obtain ⟨hlive, m, hm, hsame⟩ := h₂.copies m' hm'
    exact ⟨hlive, m, List.mem_append_right _ hm, hsame⟩
  · obtain ⟨m', hm', hsame⟩ := h₁.reached m hm hlive
    exact ⟨m', List.mem_append_left _ hm', hsame⟩
  · obtain ⟨m', hm', hsame⟩ := h₂.reached m hm hlive
    exact ⟨m', List.mem_append_right _ hm', hsame⟩

/-- Notes about what is out of reach have no counterpart. -/
theorem Agrees.skip {m₁ m₂ m₂' : List Mark} (h₁ : ∀ m ∈ m₁, m.live = false)
    (h₂ : Agrees origin m₂ m₂') : Agrees origin (m₁ ++ m₂) m₂' := by
  refine ⟨fun m' hm' => ?_, List.forall_mem_append.2 ⟨fun m hm hlive => ?_, h₂.reached⟩⟩
  · obtain ⟨hlive, m, hm, hsame⟩ := h₂.copies m' hm'
    exact ⟨hlive, m, List.mem_append_right _ hm, hsame⟩
  · rw [h₁ m hm] at hlive
    cases hlive

/-- Nothing is reached from what is out of reach. -/
theorem Visit.dead {a : Arena} {look : Look} {live : Bool} {b : Behaviors} {ms : List Mark}
    (h : Visit a look live b ms) (hlive : live = false) : ∀ m ∈ ms, m.live = false := by
  induction h with
  | absent => simp
  | alone => simpa using hlive
  | block _ _ ih => exact List.forall_mem_cons.2 ⟨hlive, ih hlive⟩
  | ifElse _ _ _ ih ih' =>
    exact List.forall_mem_cons.2 ⟨hlive, List.forall_mem_append.2 ⟨ih hlive, ih' hlive⟩⟩
  | forLoop _ _ _ _ ih₁ ih₂ ih₃ =>
    exact List.forall_mem_cons.2
      ⟨hlive, List.forall_mem_append.2 ⟨List.forall_mem_append.2 ⟨ih₁ hlive, ih₂ hlive⟩, ih₃ hlive⟩⟩
  | whileLoop _ _ ih => exact List.forall_mem_cons.2 ⟨hlive, ih hlive⟩
  | loop _ _ _ _ ih ih' =>
    exact List.forall_mem_cons.2 ⟨hlive, List.forall_mem_append.2 ⟨ih hlive, ih' hlive⟩⟩
  | closing _ _ _ ih => exact List.forall_mem_cons.2 ⟨hlive, ih hlive⟩
  | done => simp
  | next _ _ ih ih' => exact List.forall_mem_append.2 ⟨ih (by simp [hlive]), ih' hlive⟩

/-- A walk through what is left of a statement does what the walk through the statement does, if
just the elements of blocks are gone that the record calls unreachable. -/
theorem Visit.trims (ht : Program.Trims gone origin p q)
    (hgone : ∀ {i ss d}, p.inTree i = true → p.shape? i = some (.stmt (.block ss)) → d ∈ ss →
      d ≠ 0 ∧ ((p.shape? d).any Shape.isStatement = true → (gone d ↔ p.facts.reachable d = false)))
    {look look' : Look} {live : Bool} {b : Behaviors} {ms : List Mark}
    (h : Visit p.toArena look live b ms) (hlive : live = true)
    (hms : ∀ m ∈ ms, p.facts.reachable m.node = m.live ∧
      (p.shape? m.node).any Shape.isStatement = true) (hm : Matches gone origin p look look')
    {b' : Behaviors} {ms' : List Mark} (h' : Visit q.toArena look' true b' ms') :
    b' = b ∧ Agrees origin ms ms' := by
  induction h generalizing look' b' ms' with
  | absent =>
    cases hm with
    | one hst =>
      obtain ⟨_, rfl⟩ := hst.resolve_right fun h => h.1 rfl
      obtain ⟨rfl, rfl⟩ := h'.zero
      exact ⟨rfl, .nil⟩
  | @alone s live b h0 ha =>
    subst hlive
    cases hm with
    | @one _ t hst =>
      obtain ⟨_, _, x, _, hx, _⟩ := ht.shapes hst h0
      obtain ⟨inner, y, rfl, _, ho, hrel, hwithin⟩ := ht.enters hst hx h'
      rw [hx, ← alone_rel hrel] at ha
      have hinner : b' = b ∧ inner = [] := by
        unfold Within at hwithin
        split at hwithin <;> simp_all [alone?]
      rw [hinner.2]
      exact ⟨hinner.1, .cons ho hinner.1 .nil⟩
  | @block s ss live b ms hs hv ih =>
    subst hlive
    cases hm with
    | @one _ t hst =>
      obtain ⟨inner, y, rfl, hin, ho, hrel, hwithin⟩ := ht.enters hst hs h'
      cases hrel with
      | block hl =>
        obtain ⟨hb, hall⟩ := ih rfl (fun m hm => hms m (List.mem_cons_of_mem _ hm))
          (.all hin hs (fun _ h => h) hl) hwithin
        exact ⟨hb, .cons ho hb hall⟩
  | @ifElse s c d o live b₁ b₂ m₁ m₂ hs hv₁ hv₂ ih₁ ih₂ =>
    subst hlive
    cases hm with
    | @one _ t hst =>
      obtain ⟨inner, y, rfl, hin, ho, hrel, hwithin⟩ := ht.enters hst hs h'
      cases hrel with
      | ifElse hc hd he =>
        obtain ⟨b₁', b₂', m₁', m₂', hv₁', hv₂', rfl, rfl⟩ := hwithin
        have hms₁ := List.forall_mem_append.1 fun m hm => hms m (List.mem_cons_of_mem _ hm)
        have h₁ := ih₁ rfl hms₁.1 (.one hd) hv₁'
        have h₂ := ih₂ rfl hms₁.2 (.one he) hv₂'
        exact ⟨by rw [h₁.1, h₂.1], .cons ho (by rw [h₁.1, h₂.1]) (h₁.2.append h₂.2)⟩
  | @forLoop s i c k d live b₁ b₂ b₃ m₁ m₂ m₃ hs hv₁ hv₂ hv₃ ih₁ ih₂ ih₃ =>
    subst hlive
    cases hm with
    | @one _ t hst =>
      obtain ⟨inner, y, rfl, hin, ho, hrel, hwithin⟩ := ht.enters hst hs h'
      cases hrel with
      | @forLoop _ i' _ c' _ k' _ d' hi hc hk hd =>
        obtain ⟨b₁', b₂', b₃', m₁', m₂', m₃', hv₁', hv₂', hv₃', rfl, rfl⟩ := hwithin
        have hms₁ := List.forall_mem_append.1 fun m hm => hms m (List.mem_cons_of_mem _ hm)
        have hms₂ := List.forall_mem_append.1 hms₁.1
        have h₁ := ih₁ rfl hms₂.1 (.one hi) hv₁'
        have h₂ := ih₂ rfl hms₂.2 (.one hd) hv₂'
        have h₃ := ih₃ rfl hms₁.2 (.one hk) hv₃'
        have hcond : (c' ≠ 0) = (c ≠ 0) := by
          rcases hc with ⟨rfl, rfl⟩ | hc
          · rfl
          · obtain ⟨_, hc0, _⟩ := ht.shapes (.inr hc) hc.1
            simp [hc.1, hc0]
        have hb : b₂'.ofLoop (c' ≠ 0) = b₂.ofLoop (c ≠ 0) := by simp only [h₂.1, hcond]
        exact ⟨hb, .cons ho hb ((h₁.2.append h₂.2).append h₃.2)⟩
  | @whileLoop s c d live b₁ m₁ hs hv₁ ih₁ =>
    subst hlive
    cases hm with
    | @one _ t hst =>
      obtain ⟨inner, y, rfl, hin, ho, hrel, hwithin⟩ := ht.enters hst hs h'
      cases hrel with
      | whileLoop hc hd =>
        obtain ⟨b₁', hv₁', rfl⟩ := hwithin
        have h₁ := ih₁ rfl (fun m hm => hms m (List.mem_cons_of_mem _ hm)) (.one hd) hv₁'
        exact ⟨by rw [h₁.1], .cons ho (by rw [h₁.1]) h₁.2⟩
  | @loop s d k live b₁ b₂ m₁ m₂ hs hblock hv₁ hv₂ ih₁ ih₂ =>
    subst hlive
    cases hm with
    | @one _ t hst =>
      obtain ⟨inner, y, rfl, hin, ho, hrel, hwithin⟩ := ht.enters hst hs h'
      cases hrel with
      | loop hd hk =>
        rcases hwithin with ⟨_, b₁', b₂', m₁', m₂', hv₁', hv₂', rfl, rfl⟩ | ⟨hnone, _⟩
        · have hms₁ := List.forall_mem_append.1 fun m hm => hms m (List.mem_cons_of_mem _ hm)
          have h₁ := ih₁ rfl hms₁.1 (.one hd) hv₁'
          have h₂ := ih₂ rfl hms₁.2 (.one hk) hv₂'
          exact ⟨by rw [h₁.1], .cons ho (by rw [h₁.1]) (h₁.2.append h₂.2)⟩
        · exact absurd ((ht.isBlock_iff hd).2 hblock) hnone
  | @closing s d k live b₁ m₁ hs hblock hv₁ ih₁ =>
    subst hlive
    cases hm with
    | @one _ t hst =>
      obtain ⟨inner, y, rfl, hin, ho, hrel, hwithin⟩ := ht.enters hst hs h'
      cases hrel with
      | loop hd hk =>
        rcases hwithin with ⟨hsome, _⟩ | ⟨_, b₁', hv₁', rfl⟩
        · exact absurd ((ht.isBlock_iff hd).1 hsome) hblock
        · have h₁ := ih₁ rfl (fun m hm => hms m (List.mem_cons_of_mem _ hm)) (.one hk) hv₁'
          exact ⟨rfl, .cons ho rfl h₁.2⟩
  | done =>
    cases hm with
    | all _ _ _ hl =>
      cases hl with
      | nil =>
        cases h'
        exact ⟨rfl, .nil⟩
      | insert hy _ => exact hy.elim
  | @next s ss sofar live b₁ b₂ m₁ m₂ hv₁ hv₂ ih₁ ih₂ =>
    subst hlive
    have hms₁ := List.forall_mem_append.1 hms
    cases hm with
    | @all i all _ _ _ hin hs hsub hl =>
      obtain ⟨hs0, hgone⟩ := hgone hin hs (hsub s List.mem_cons_self)
      obtain ⟨inner, rfl, _⟩ := hv₁.within hs0
      obtain ⟨hreach, hstmt⟩ := hms₁.1 _ List.mem_cons_self
      have hreach : p.facts.reachable s = (true && sofar.next) := hreach
      have hrest : ∀ d ∈ ss, d ∈ all := fun d hd => hsub d (List.mem_cons_of_mem _ hd)
      cases hl with
      | insert hy _ => exact hy.elim
      | keep hk hst hl =>
        -- What is not gone is reachable, so that the statements before it complete.
        have hnext : (true && sofar.next) = true := by
          have hr : p.facts.reachable s ≠ false := fun hr => hk ((hgone hstmt).2 hr)
          rw [← hreach]
          simpa using hr
        cases h' with
        | next hv₁' hv₂' =>
          rw [hnext] at hv₁'
          have h₁ := ih₁ hnext hms₁.1 (.one hst) hv₁'
          rw [h₁.1] at hv₂'
          have h₂ := ih₂ rfl hms₁.2 (.all hin hs hrest hl) hv₂'
          exact ⟨h₂.1, h₁.2.append h₂.2⟩
      | drop hk hl =>
        have hnext : (true && sofar.next) = false := by
          rw [← hreach]
          exact (hgone hstmt).1 hk
        have hskip : (if (true && sofar.next) = true then sofar.andThen b₁ else sofar) = sofar := by
          rw [hnext, if_neg Bool.false_ne_true]
        rw [hskip] at ih₂
        have h₂ := ih₂ rfl hms₁.2 (.all hin hs hrest hl) h'
        exact ⟨h₂.1, .skip (hv₁.dead hnext) h₂.2⟩

end
end Flow

namespace Unreachable

open Copy

variable {p : Program}

theorem mem_dropped (hp : p.Fit) {i : NodeId} : i ∈ dropped p ↔ p.inTree i = true ∧
    (p.shape? i).any Shape.isStatement = true ∧ p.facts.reachable i = false ∧
    (p.block? (p.parent i)).isSome := by
  simp only [dropped, List.mem_filter, hp.mem_treeIds, Bool.and_eq_true,
    Bool.not_eq_true', and_assoc]

/-- What is dropped is an element of a block's list. -/
theorem isElement_of_dropped (hp : p.Fit) {i : NodeId} (hi : i ∈ dropped p) : IsElement p i := by
  obtain ⟨hin, _, _, hblock⟩ := (mem_dropped hp).1 hi
  obtain ⟨ss, hss⟩ := Option.isSome_iff_exists.1 hblock
  obtain ⟨x, hx, hs⟩ := Option.bind_eq_some_iff.1 hss
  obtain ⟨n, hn, rfl⟩ := Option.map_eq_some_iff.1 hx
  have hparent : p.parent i ≠ 0 := Nat.ne_of_gt (Arena.range_of_node? hn).1
  have hmem := (hp.parent_holds hparent).1
  obtain ⟨n', hn', hslot, _⟩ := Arena.mem_children.1 hmem
  cases hn.symm.trans hn'
  refine ⟨⟨hp.node_of_inTree hin, hin⟩, ?_⟩
  rw [hn]
  unfold Shape.block? at hs
  split at hs
  · next hshape =>
    cases hs
    simpa [Node.holdsInList, hshape, Shape.lists, Shape.slots] using hslot
  · cases hs

/-- Registering what is left out changes nothing else. -/
theorem registers {ids : List NodeId} (hids : ∀ i ∈ ids, IsElement p i) (s : Session Empty Unit)
    (hs : s.source = p) :
    (forIn ids PUnit.unit fun id _ => do
      Work.edit (Edit.remove id)
      pure (ForInStep.yield PUnit.unit) : Work Empty Unit PUnit) s =
      .ok ⟨⟩ { s with removed := fun i => s.removed i || decide (i ∈ ids) } := by
  induction ids generalizing s with
  | nil => simp [pure, EStateM.pure]
  | cons i ids ih =>
    have hone : Work.edit (Edit.remove i) s =
        .ok () { s with removed := update s.removed i true } := by
      have hcheck : Edit.checkElement i s = .ok () s :=
        checkElement_ok.2 ⟨hs ▸ hids i List.mem_cons_self, rfl⟩
      have hremove : Edit.remove i s = .ok () { s with removed := update s.removed i true } := by
        simp only [Edit.remove, bind, EStateM.bind, hcheck]
        rfl
      simp only [Work.edit, hremove]
    have hrest := ih (fun j hj => hids j (List.mem_cons_of_mem _ hj))
      { s with removed := update s.removed i true } hs
    have htable : (fun j => update s.removed i true j || decide (j ∈ ids)) =
        fun j => s.removed j || decide (j ∈ i :: ids) := by
      funext j
      by_cases hj : j = i <;> simp [update, hj]
    rw [htable] at hrest
    rw [List.forIn_cons]
    simp only [bind, EStateM.bind, hone, pure, EStateM.pure]
    exact hrest

/-- Leaving out never fails, and its result is the program without what is dropped. -/
theorem apply_trims (hp : p.Fit) (hk : p.Known) (hv : p.valid = true) (inputs : Data) :
    ∃ (b : Builder) (origin : NodeId → NodeId), pass.apply p inputs = .ok ⟨b.build, {}⟩ ∧ b.Fit ∧
      b.build.Counted ∧
      b.build.Known ∧ b.diagnostics.hasErrors = false ∧
      Program.Trims (· ∈ dropped p) origin p b.build := by
  obtain ⟨s, origin, hs, hcopied, hfit, hcounted, hknown, hdiagnostics, htrims⟩ :=
    copyModule_trims hp hk fun i => decide (i ∈ dropped p)
  have hreg := registers (fun i hi => isElement_of_dropped hp hi) (Session.start p ()) rfl
  have htable : (fun i => (Session.start (κ := Empty) p ()).removed i || decide (i ∈ dropped p)) =
      fun i => decide (i ∈ dropped p) := by
    funext i
    simp [Session.start]
  rw [htable] at hreg
  have hwork : work p (Session.start p ()) = .ok {} s := by
    unfold work
    simp only [bind, EStateM.bind] at hreg ⊢
    rw [hreg]
    simp only [Work.edit, hs, pure, EStateM.pure]
  have hrun : pass.run p inputs = { outputs := {}, ending := .finished s.target s.copied } := by
    simp only [pass, Work.perform, hwork]
  have herrors : s.target.diagnostics.hasErrors = false := by
    rw [hdiagnostics]
    simp only [Program.valid, Diagnostics.hasErrors, Bool.not_eq_true', List.any_eq_false] at hv ⊢
    exact fun d hd => hv d (List.mem_filter.1 hd).1
  refine ⟨s.target, origin, ?_, hfit, hcounted, hknown, herrors, ?_⟩
  · simp [Pass.apply, Result.outcome, hv, hrun, hcopied]
  · simpa using htrims

section Settled

variable {b : Builder} {q : Program} {origin : NodeId → NodeId}
    {notes notes' : NodeId → Behaviors × List Mark}

/-- Elements of a block are dropped if, and only if, they are not reachable. -/
theorem dropped_iff (hp : p.Fit) (ht : p.TreeShaped) {i d : NodeId} {ss : List NodeId}
    (hi : p.inTree i = true) (hs : p.shape? i = some (.stmt (.block ss))) (hd : d ∈ ss) :
    d ≠ 0 ∧ ((p.shape? d).any Shape.isStatement = true →
      (d ∈ dropped p ↔ p.facts.reachable d = false)) := by
  obtain ⟨n, hn, hshape⟩ := Option.map_eq_some_iff.1 hs
  have h0 : d ≠ 0 := hp.present hn d (by simpa [hshape, Shape.required, Shape.slots] using hd)
  have hmem : d ∈ p.children i :=
    Arena.mem_children.2 ⟨n, hn, by simpa [hshape, Shape.slots] using hd, h0⟩
  refine ⟨h0, fun hstmt => ?_⟩
  rw [mem_dropped hp, ht.parent hi hmem]
  have hblock : p.block? i = some ss := by simp [Arena.block?, hs, Shape.block?]
  simp [ht.inTree_child hi hmem, hstmt, hblock]

/-- No declaration of the module is dropped. -/
theorem global_not_dropped (hp : p.Fit) (ht : p.TreeShaped) {g : NodeId} (hg : g ∈ p.globals) :
    g ∉ dropped p := by
  intro hd
  have hparent :=
    ht.parent p.inTree_root
      (Program.TreeShaped.mem_children_root hg (Nat.ne_of_gt (hp.globals g hg).1))
  have hblock := ((mem_dropped hp).1 hd).2.2.2
  simp [hparent, Arena.block?, hp.module, Shape.block?] at hblock

/-- The bodies of a function and of its copy have the same behaviors, and the same notes as far as
they are within reach. -/
theorem function_agrees (hp : p.Fit) (ht : p.TreeShaped)
    (htrims : Program.Trims (· ∈ dropped p) origin p q)
    (hproper : ∀ x : NodeId, p.facts.stmts[x]?.isSome → (p.shape? x).any Shape.isStatement = true)
    (hnotes : Resolve.Recounts p p.globals notes p.facts)
    (hnotes' : Resolve.Recounts q q.globals notes' q.facts) {g : NodeId} (hg : g ∈ q.globals)
    {x : NodeId} (hx : x ∈ p.globals) (hxg : Program.Comes origin x g)
    (hf : (q.function? g).isSome ∨ (p.function? x).isSome) :
    (q.function? g).isSome ∧ (p.function? x).isSome ∧ (notes' g).1 = (notes x).1 ∧
    Agrees origin (notes x).2 (notes' g).2 := by
  have hx0 : x ≠ 0 := Nat.ne_of_gt (hp.globals x hx).1
  obtain ⟨_, _, y, z, hy, hz, hrel⟩ := htrims.shapes hxg hx0
  have hshapes : ∃ f f', y = .decl (.function f) ∧ z = .decl (.function f') ∧
      Program.Comes origin f.body f'.body := by
    simp only [Arena.function?, hy, hz, Option.bind_some] at hf
    cases hrel <;> simp_all [Shape.function?]
  obtain ⟨f, f', rfl, rfl, hbody⟩ := hshapes
  have hfx : p.function? x = some f := by simp [Arena.function?, hy, Shape.function?]
  have hfg : q.function? g = some f' := by simp [Arena.function?, hz, Shape.function?]
  have hmarks : ∀ m ∈ (notes x).2,
      p.facts.reachable m.node = m.live ∧ (p.shape? m.node).any Shape.isStatement = true := by
    intro m hm
    obtain ⟨fn, hfn⟩ := hnotes.noted x hx (by simp [hfx]) m hm
    exact ⟨by simp [Facts.reachable, hfn], hproper _ (by simp [hfn])⟩
  have h := (hnotes.visit x hx f hfx).trims htrims (dropped_iff hp ht) rfl hmarks (.one hbody)
    (hnotes'.visit g hg f' hfg)
  exact ⟨by simp [hfg], by simp [hfx], h⟩

/-- A node of the record of the copy comes from one with the same behaviors, and both are
reachable. -/
theorem recorded_agrees (hp : p.Fit) (ht : p.TreeShaped)
    (htrims : Program.Trims (· ∈ dropped p) origin p q)
    (hproper : ∀ x : NodeId, p.facts.stmts[x]?.isSome → (p.shape? x).any Shape.isStatement = true)
    (hnotes : Resolve.Recounts p p.globals notes p.facts)
    (hnotes' : Resolve.Recounts q q.globals notes' q.facts) {x : NodeId} {s : StmtFacts}
    (hx : q.facts.stmts[x]? = some s) :
    s.reachable = true ∧ ∃ s', p.facts.stmts[origin x]? = some s' ∧ s'.reachable = true ∧
      s'.behaviors = s.behaviors := by
  obtain ⟨g, hg, hf, m', hm', rfl⟩ : ∃ g ∈ q.globals, (q.function? g).isSome ∧ ∃ m ∈ (notes' g).2,
      m.node = x := by
    by_contra hnone
    push Not at hnone
    rw [hnotes'.only x fun g hg hf m hm => hnone g hg hf m hm] at hx
    cases hx
  obtain ⟨y, hy, _, hyg⟩ := (Listed.mem htrims.globals hg).resolve_left fun h => h
  obtain ⟨_, hfy, _, hagree⟩ :=
    function_agrees hp ht htrims hproper hnotes hnotes' hg hy hyg (.inl hf)
  obtain ⟨fn', hfn'⟩ := hnotes'.noted g hg hf m' hm'
  obtain ⟨hlive, m, hm, hnode, hmlive, hb⟩ := hagree.copies m' hm'
  obtain ⟨fn, hfn⟩ := hnotes.noted y hy hfy m hm
  cases hx.symm.trans hfn'
  exact ⟨hlive, _, hnode ▸ hfn, hmlive, hb⟩

/-- Nothing more is dropped from the copy. -/
theorem dropped_eq_nil (hp : p.Fit) (ht : p.TreeShaped) (hq : q.Fit) (hqt : q.TreeShaped)
    (htrims : Program.Trims (· ∈ dropped p) origin p q)
    (hproper : ∀ x : NodeId, p.facts.stmts[x]?.isSome → (p.shape? x).any Shape.isStatement = true)
    (hnotes : Resolve.Recounts p p.globals notes p.facts)
    (hnotes' : Resolve.Recounts q q.globals notes' q.facts) : dropped q = [] := by
  refine List.eq_nil_iff_forall_not_mem.2 fun t htd => ?_
  obtain ⟨hin, hstmt, hdead, hblock⟩ := (mem_dropped hq).1 htd
  -- Its parent is a block that comes from a block, and it was not dropped from there.
  obtain ⟨ts, hts⟩ := Option.isSome_iff_exists.1 hblock
  obtain ⟨y, hy, hys⟩ := Option.bind_eq_some_iff.1 hts
  have hparent : q.parent t ≠ 0 := by
    intro h0
    simp [h0, Arena.shape?] at hy
  obtain ⟨hmem, hpin⟩ := hq.parent_holds hparent
  have hroot : q.parent t ≠ q.root := by
    intro hr
    rw [hr, hq.module] at hy
    cases hy
    simp [Shape.block?] at hys
  have ho := (htrims.traced _ hpin).resolve_left hroot
  obtain ⟨hpu, _, z, y', hz, hy', hrel⟩ := htrims.shapes (.inr ⟨ho, rfl⟩) ho
  cases hy.symm.trans hy'
  have hlists : ∃ ss, z = .stmt (.block ss) ∧ Program.ComeLists (· ∈ dropped p) origin ss ts := by
    unfold Shape.block? at hys
    split at hys
    · cases hys
      cases hrel
      exact ⟨_, rfl, ‹_›⟩
    · cases hys
  obtain ⟨ss, rfl, hl⟩ := hlists
  have ht0 : t ≠ 0 := Arena.ne_zero_of_mem_children hmem
  have hslot : t ∈ ts := by
    obtain ⟨n, hn, hc, _⟩ := Arena.mem_children.1 hmem
    have hshape : n.shape = y := by simpa [Arena.shape?, hn] using hy
    unfold Shape.block? at hys
    split at hys
    · next heq =>
      cases hys
      simpa [hshape, Shape.slots] using hc
    · cases hys
  obtain ⟨x, hx, hkept, hxt⟩ := (Listed.mem hl hslot).resolve_left fun h => h
  obtain ⟨hx0, rfl⟩ := hxt.resolve_left fun h => ht0 h.2
  obtain ⟨_, hiff⟩ := dropped_iff hp ht hpu hz hx
  obtain ⟨_, _, xs, ys, hxs, hys', hrelx⟩ := htrims.shapes (.inr ⟨hx0, rfl⟩) hx0
  have hxstmt : (p.shape? (origin t)).any Shape.isStatement = true := by
    rw [hys', Option.any_some] at hstmt
    rw [hxs, Option.any_some]
    cases hrelx <;> first | rfl | simp [Shape.isStatement] at hstmt
  have hlive : p.facts.reachable (origin t) = true := by
    simpa using fun h => hkept ((hiff hxstmt).2 h)
  -- So a walk reached its original, and a walk reaches the copy.
  obtain ⟨g, hg, hf, m, hm, hnode⟩ : ∃ g ∈ p.globals, (p.function? g).isSome ∧ ∃ m ∈ (notes g).2,
      m.node = origin t := by
    by_contra hnone
    push Not at hnone
    rw [Facts.reachable, hnotes.only _ fun g hg hf m hm => hnone g hg hf m hm] at hlive
    cases hlive
  have hmlive : m.live = true := by
    obtain ⟨fn, hfn⟩ := hnotes.noted g hg hf m hm
    rw [← hnode, Facts.reachable, hfn] at hlive
    simpa using hlive
  obtain ⟨g', hg', hgg'⟩ : ∃ g' ∈ q.globals, Program.Comes origin g g' := by
    have hl := htrims.globals
    have hdrop := global_not_dropped hp ht hg
    unfold Program.ComeLists at hl
    generalize p.globals = xs at hl hg
    generalize q.globals = ys at hl
    induction hl with
    | nil => cases hg
    | insert h _ _ => exact h.elim
    | keep _ hxy _ ih =>
      rcases List.mem_cons.1 hg with rfl | hg
      · exact ⟨_, List.mem_cons_self, hxy⟩
      · obtain ⟨g', hg', h⟩ := ih hg
        exact ⟨g', List.mem_cons_of_mem _ hg', h⟩
    | drop hx _ ih =>
      rcases List.mem_cons.1 hg with rfl | hg
      · exact absurd hx hdrop
      · exact ih hg
  obtain ⟨hf', _, _, hagree⟩ :=
    function_agrees hp ht htrims hproper hnotes hnotes' hg' hg hgg' (.inr hf)
  obtain ⟨m', hm', hsame⟩ := hagree.reached m hm hmlive
  obtain ⟨fn, hfn⟩ := hnotes'.noted g' hg' hf' m' hm'
  have hin' : q.inTree m'.node = true := by
    obtain ⟨f', hf'⟩ := Option.isSome_iff_exists.1 hf'
    obtain ⟨hg0, hbelow⟩ :=
      Resolve.covers_function hf' ((hnotes'.visit g' hg' f' hf').covers m' hm')
    exact hqt.inTree_below (hqt.inTree_global hg' hg0) hbelow
  have heq : m'.node = t := htrims.echoes.injective ht hp hq hin hin' hx0 (hsame.trans hnode)
  rw [heq] at hfn
  simp [Facts.reachable, hfn, (hagree.copies m' hm').1] at hdead

end Settled

/-- Leaving out unreachable statements settles in one run. The result is the program without its
dropped statements, the unreachable elements of its blocks, and every other node is where it was;
every statement in its record is reachable and, like every function, has the behaviors that it had.
So there is nothing left to do, and another run changes neither document nor text. -/
theorem apply_settles {m : Document.Module} (h : m.decode = .ok p) (hv : p.valid = true)
    (inputs : Data) :
    ∃ q origin, pass.apply p inputs = .ok ⟨q, {}⟩ ∧ Program.Trims (· ∈ dropped p) origin p q ∧
      (∀ x s, q.facts.stmts[x]? = some s → s.reachable = true ∧
        ∃ s', p.facts.stmts[origin x]? = some s' ∧ s'.behaviors = s.behaviors) ∧
      (∀ g ∈ q.globals, (q.function? g).isSome → ∃ f f', q.facts.functions[g]? = some f ∧
        p.facts.functions[origin g]? = some f' ∧ f'.behaviors = f.behaviors) ∧
      ∀ inputs', pass.shouldRun q inputs' = false ∧ ∃ q', pass.apply q inputs' = .ok ⟨q', {}⟩ ∧
        Document.ofProgram q' = Document.ofProgram q ∧ q'.text = q.text := by
  obtain ⟨b, hgood, hknown, _, hdiagnostics, rfl⟩ := Document.decode_good h
  have hp := hgood.toFit.build
  have hcounted : b.build.Counted := fun x hx => by
    simpa [Arena.held, Builder.held, Builder.build, Shape.slots] using hgood.once trivial x hx
  have ht := hp.treeShaped hcounted
  obtain ⟨t, origin, happly, hfit, hqc, hqk, herrors, htrims⟩ :=
    apply_trims hp hknown.build hv inputs
  have hq := hfit.build
  have hqt := hq.treeShaped hqc
  obtain ⟨notes, hnotes⟩ :=
    Resolve.recounts_build (by simp [hdiagnostics, Diagnostics.hasErrors]) ht
  obtain ⟨notes', hnotes'⟩ := Resolve.recounts_build herrors hqt
  have hproper := fun x => Resolve.proper_build hv (x := x)
  refine ⟨t.build, origin, happly, htrims, fun x s hx => ?_, fun g hg hf => ?_,
    fun inputs' => ⟨?_, ?_⟩⟩
  · obtain ⟨hlive, s', hs', _, hb⟩ := recorded_agrees hp ht htrims hproper hnotes hnotes' hx
    exact ⟨hlive, s', hs', hb⟩
  · obtain ⟨x, hx, _, hxg⟩ := (Listed.mem htrims.globals hg).resolve_left fun h => h
    obtain ⟨_, hfx, hsame, _⟩ :=
      function_agrees hp ht htrims hproper hnotes hnotes' hg hx hxg (.inl hf)
    obtain ⟨_, rfl⟩ := hxg.resolve_left fun h => Nat.ne_of_gt (hq.globals g hg).1 h.2
    obtain ⟨f, hf, hfb⟩ := Option.map_eq_some_iff.1 (hnotes'.behaviors g hg hf)
    obtain ⟨f', hf', hfb'⟩ := Option.map_eq_some_iff.1 (hnotes.behaviors _ hx hfx)
    exact ⟨f, f', hf, hf', by rw [hfb, hfb', hsame]⟩
  · refine NodeMap.any_eq_false_iff.2 fun x s hx => ?_
    simp [(recorded_agrees hp ht htrims hproper hnotes hnotes' hx).1]
  · by_cases hqv : t.build.valid = true
    · obtain ⟨u, origin', happly', hfit', _, _, _, htrims'⟩ := apply_trims hq hqk hqv inputs'
      have hnone := dropped_eq_nil hp ht hq hqt htrims hproper hnotes hnotes'
      obtain ⟨hdocument, htext⟩ := htrims'.reads (by simp [hnone]) hq hfit'.build
      exact ⟨u.build, happly', hdocument.symm, htext.symm⟩
    · exact ⟨t.build, by simp [Pass.apply, hqv], rfl, rfl⟩

/-- The function `fn f() { return; loop { discard; } }`. -/
def returnsEarly : Document.Module where
  globals := [
    some { kind := "Function", name := "f",
           body := some { kind := "Block", statements := [
             some { kind := "Return" },
             some { kind := "Loop"
                    body := some { kind := "Block"
                                   statements := [some { kind := "Discard" }] } }] } }]

theorem apply_settles_returnsEarly :
    ∃ p q origin, returnsEarly.decode = .ok p ∧ (dropped p).length = 2 ∧
    pass.apply p {} = .ok ⟨q, {}⟩ ∧ Program.Trims (· ∈ dropped p) origin p q ∧
    pass.shouldRun q {} = false := by
  have hok : (returnsEarly.decode.toOption.any fun p => p.valid && (dropped p).length == 2) =
      true := by
    decide +kernel
  cases hp : returnsEarly.decode with
  | error e => simp [hp, Except.toOption] at hok
  | ok p =>
    simp only [hp, Except.toOption, Option.any_some, Bool.and_eq_true, beq_iff_eq] at hok
    obtain ⟨q, origin, happly, htrims, _, _, hsettled⟩ := apply_settles hp hok.1 {}
    exact ⟨p, q, origin, rfl, hok.2, happly, htrims, (hsettled {}).1⟩

end Unreachable
end ShaderLoom
