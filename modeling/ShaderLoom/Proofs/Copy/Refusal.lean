import ShaderLoom.Proofs.Copy.Plan

/-! What a session refuses. Every registration looks at the session first and changes one of its
tables last, so that a registration that is refused leaves the session as it is, and whoever goes on
with the session goes on as if it had not been tried. Which registrations are refused is read off
the session: each reason is stated by itself. -/
namespace ShaderLoom.Copy

variable {κ σ α β : Type}

/-- What can be registered with a session. -/
inductive Registration (κ : Type) where
  | rewrite (r : Rewrite)
  | handler (node : NodeId) (h : κ)
  | family (tag : Tag) (h : κ)
  | symbolRule (rule : SymbolRule)

namespace Registration

def perform : Registration κ → Edit κ σ Unit
  | rewrite r => r.register
  | handler i h => Edit.replaceWith i h
  | family tag h => Edit.replaceAll tag h
  | symbolRule rule => Edit.setSymbolRule rule

/-- The node of the source that something is registered for. -/
def node? : Registration κ → Option NodeId
  | rewrite r => some r.node
  | handler i _ => some i
  | _ => none

/-- The node of the target that takes part, an absent one aside where that may be. -/
def target? : Registration κ → Option NodeId
  | rewrite (.replace _ t) => if t = 0 then none else some t
  | rewrite (.insert _ _ t) => some t
  | _ => none

/-- The node that has to be an element of a list. -/
def element? : Registration κ → Option NodeId
  | rewrite (.remove i) | rewrite (.insert .before i _) | rewrite (.insert .after i _) => some i
  | _ => none

/-- The node at an end of whose lists something is put. -/
def owner? : Registration κ → Option NodeId
  | rewrite (.insert .front i _) | rewrite (.insert .back i _) => some i
  | _ => none

/-- The node that gets a replacement. -/
def replaced? : Registration κ → Option NodeId
  | rewrite (.replace i _) | handler i _ => some i
  | _ => none

/-- Why a session refuses a registration. -/
inductive Refused (s : Session κ σ) : Registration κ → Misuse → Prop
  /-- The node is not in the tree of the source. -/
  | source {r i} (hr : r.node? = some i) (hi : ¬ InSource s.source i) :
    Refused s r (.nodeNotInSource i)
  /-- The target does not have the node. -/
  | target {r t} (hr : r.target? = some t) (ht : ¬ InTarget s.target t) :
    Refused s r (.nodeNotInDestination t)
  /-- The node stands in none of its parent's lists. -/
  | element {r i n} (hr : r.element? = some i) (hn : s.source.node? i = some n)
    (hi : ¬ IsElement s.source i) :
    Refused s r (.notAListElement n.shape.kind i)
  /-- No list of the owner is for nodes of the target's kind. -/
  | list {r i t n m} (hr : r.owner? = some i) (ht : r.target? = some t)
    (hn : s.source.node? i = some n)
    (hm : s.target.node? t = some m) (hk : ∀ k, n.shape.hasList k = true →
      k.admits m.shape = false) :
    Refused s r (.noMatchingList n.shape.kind i m.shape.kind)
  /-- The node has a replacement. -/
  | twice {r i} (hr : r.replaced? = some i) (hi : (s.replacements i).isSome) :
    Refused s r (.duplicateReplacement i)
  /-- A handler of an earlier family would apply to the same nodes. -/
  | overlap {tag h t h'} (ht : (t, h') ∈ s.handlers) (hrelated : tag.related t = true) :
    Refused s (.family tag h) (.overlappingHandlers tag.name t.name)
  | ruled {rule} (h : s.symbolRule.isSome) : Refused s (.symbolRule rule) .duplicateSymbolRule

end Registration

/-- The step succeeds where there is no reason against it; where there is one, it fails for such a
reason and leaves the session as it is. -/
def Judges (step : Edit κ σ α) (s : Session κ σ) (reason : Misuse → Prop) : Prop :=
  match step s with
  | .ok _ _ => ∀ e, ¬ reason e
  | .error e t => t = s ∧ reason e

namespace Judges

variable {s : Session κ σ} {step : Edit κ σ α} {next : α → Edit κ σ β}
    {reason reason' : Misuse → Prop}

theorem of_ok {a : α} {t : Session κ σ} (h : step s = .ok a t) (hno : ∀ e, ¬ reason e) :
    Judges step s reason := by
  rw [Judges, h]
  exact hno

theorem of_error {e : Misuse} (h : step s = .error e s) (he : reason e) : Judges step s reason := by
  rw [Judges, h]
  exact ⟨rfl, he⟩

theorem congr (h : Judges step s reason) (hr : ∀ e, reason e ↔ reason' e) :
    Judges step s reason' := by
  obtain rfl : reason = reason' := funext fun e => propext (hr e)
  exact h

theorem error (h : Judges step s reason) {e : Misuse} {t : Session κ σ} (hs : step s = .error e t) :
    t = s ∧ reason e := by
  rwa [Judges, hs] at h

theorem ok (h : Judges step s reason) {a : α} {t : Session κ σ} (hs : step s = .ok a t)
    (e : Misuse) : ¬ reason e := by
  rw [Judges, hs] at h
  exact h e

/-- A step fails just where there is a reason. -/
theorem fails_iff (h : Judges step s reason) : (∃ e t, step s = .error e t) ↔ ∃ e, reason e := by
  cases hs : step s with
  | ok a t =>
    rw [Judges, hs] at h
    exact iff_of_false (fun ⟨_, _, hfail⟩ => nomatch hfail) fun ⟨e, he⟩ => h e he
  | error e t => exact ⟨fun _ => ⟨e, (h.error hs).2⟩, fun _ => ⟨e, t, rfl⟩⟩

/-- A check comes first, which looks at the session alone. -/
theorem bind (h : Judges step s reason)
    (hnext : ∀ a t, step s = .ok a t → t = s ∧ Judges (next a) s reason') :
    Judges (step >>= next) s fun e => reason e ∨ reason' e := by
  cases hs : step s with
  | ok a t =>
    obtain ⟨rfl, hnext⟩ := hnext a t hs
    rw [Judges, hs] at h
    have hrun : (step >>= next) t = next a t := by simp only [Bind.bind, EStateM.bind, hs]
    unfold Judges at hnext ⊢
    rw [hrun]
    split at hnext
    · exact fun e he => he.elim (h e) (hnext e)
    · exact ⟨hnext.1, .inr hnext.2⟩
  | error e t =>
    obtain ⟨rfl, he⟩ := h.error hs
    exact of_error (by simp only [Bind.bind, EStateM.bind, hs]) (.inl he)

theorem always (f : Session κ σ → Session κ σ) :
    Judges (modify f : Edit κ σ Unit) s fun _ => False :=
  of_ok rfl fun _ => id

/-- A check and then a change. -/
theorem change (h : Judges step s reason) (hlook : ∀ a t, step s = .ok a t → t = s)
    (f : α → Session κ σ → Session κ σ) : Judges (step >>= fun a => modify (f a)) s reason :=
  (h.bind fun a t hs => ⟨hlook a t hs, always (f a)⟩).congr fun _ => by simp

variable {i t : NodeId} {p : Program}

theorem checkSource :
    Judges (Edit.checkSource i) s fun e => ¬ InSource s.source i ∧ e = .nodeNotInSource i := by
  unfold Edit.checkSource
  rw [Judges, get_bind]
  cases hn : s.source.node? i with
  | none => exact ⟨rfl, by simp [InSource, hn], rfl⟩
  | some n =>
    by_cases ht : s.source.inTree i = true
    · simp only [ht, if_true]
      exact fun e he => he.1 ⟨by simp [hn], ht⟩
    · simp only [ht]
      exact ⟨rfl, fun h => ht h.2, rfl⟩

theorem checkTarget :
    Judges (Edit.checkTarget t) s fun e => ¬ InTarget s.target t ∧ e = .nodeNotInDestination t := by
  unfold Edit.checkTarget
  rw [Judges, get_bind]
  cases hn : s.target.node? t with
  | none => exact ⟨rfl, by simp [InTarget, hn], rfl⟩
  | some n => exact fun e he => he.1 (by simp [InTarget, hn])

theorem checkElement :
    Judges (Edit.checkElement i) s fun e => ¬ InSource s.source i ∧ e = .nodeNotInSource i ∨
    ∃ n, s.source.node? i = some n ∧ ¬ IsElement s.source i ∧
      e = .notAListElement n.shape.kind i := by
  refine checkSource.bind fun n u h => ?_
  obtain ⟨hn, hin, rfl⟩ := checkSource_ok.1 h
  refine ⟨rfl, ?_⟩
  have hsource : InSource u.source i := ⟨by simp [hn], hin⟩
  rw [Judges, get_bind]
  cases hp : u.source.node? (u.source.parent i) with
  | none => exact ⟨rfl, n, hn, by simp [IsElement, hp], rfl⟩
  | some m =>
    by_cases hm : m.holdsInList i = true
    · simp only [hm, if_true]
      rintro e ⟨_, _, hno, _⟩
      exact hno ⟨hsource, by simp [hp, hm]⟩
    · simp only [hm]
      exact ⟨rfl, n, hn, by simp [IsElement, hp, hm], rfl⟩

theorem listFor :
    Judges (Edit.listFor i t) s fun e => ¬ InSource s.source i ∧ e = .nodeNotInSource i ∨
    ¬ InTarget s.target t ∧ e = .nodeNotInDestination t ∨
    ∃ n m, s.source.node? i = some n ∧ s.target.node? t = some m ∧ n.shape.listFor? m.shape = none ∧
      e = .noMatchingList n.shape.kind i m.shape.kind := by
  refine checkSource.bind fun n u h => ?_
  obtain ⟨hn, -, rfl⟩ := checkSource_ok.1 h
  refine ⟨rfl, checkTarget.bind fun m v h => ?_⟩
  obtain ⟨hm, rfl⟩ := checkTarget_ok.1 h
  refine ⟨rfl, ?_⟩
  cases hk : n.shape.listFor? m.shape with
  | none => exact of_error rfl ⟨n, m, hn, hm, hk, rfl⟩
  | some k =>
    refine of_ok (a := k) (t := v) rfl ?_
    rintro e ⟨n', m', hn', hm', hk', -⟩
    cases hn.symm.trans hn'
    cases hm.symm.trans hm'
    cases hk.symm.trans hk'

theorem register {r : Replacement κ} :
    Judges (Edit.register i r) s fun e => (s.replacements i).isSome ∧
      e = .duplicateReplacement i := by
  unfold Edit.register
  rw [Judges, get_bind]
  by_cases h : (s.replacements i).isSome
  · simp only [h, if_true]
    exact ⟨rfl, trivial, rfl⟩
  · simp only [h]
    exact fun e he => absurd he.1 Bool.false_ne_true

end Judges

namespace Registration

variable {s : Session κ σ}

theorem judges_replace (i t : NodeId) :
    Judges (Edit.replace i t) s (Refused s (.rewrite (.replace i t))) := by
  have hrest : Judges (do
      if t ≠ 0 then
        let _ ← Edit.checkTarget t
      Edit.register i (.fixed t)) s fun e => t ≠ 0 ∧ ¬ InTarget s.target t ∧
        e = .nodeNotInDestination t ∨
      (s.replacements i).isSome ∧ e = .duplicateReplacement i := by
    split
    · next h0 =>
      refine (Judges.checkTarget.bind fun n u h => ⟨(checkTarget_ok.1 h).2, .register⟩).congr
        fun e => ?_
      simp [h0]
    · next h0 => exact Judges.register.congr fun e => by simp [h0]
  refine (Judges.checkSource.bind fun n u h => ⟨(checkSource_ok.1 h).2.2, hrest⟩).congr fun e =>
    ⟨?_, fun h => ?_⟩
  · rintro (⟨hi, rfl⟩ | ⟨h0, ht, rfl⟩ | ⟨hi, rfl⟩)
    · exact .source rfl hi
    · exact .target (if_neg h0) ht
    · exact .twice rfl hi
  · cases h with
    | source hr hi => cases hr; exact .inl ⟨hi, rfl⟩
    | target hr ht =>
      obtain ⟨h0, rfl⟩ : t ≠ 0 ∧ t = _ := by simpa [target?] using hr
      exact .inr (.inl ⟨h0, ht, rfl⟩)
    | twice hr hi => cases hr; exact .inr (.inr ⟨hi, rfl⟩)
    | element hr | list hr => cases hr

theorem judges_handler (i : NodeId) (h : κ) :
    Judges (Edit.replaceWith i h) s (Refused s (.handler i h)) := by
  refine (Judges.checkSource.bind fun n u h => ⟨(checkSource_ok.1 h).2.2, .register⟩).congr fun e =>
    ⟨?_, fun h => ?_⟩
  · rintro (⟨hi, rfl⟩ | ⟨hi, rfl⟩)
    · exact .source rfl hi
    · exact .twice rfl hi
  · cases h with
    | source hr hi => cases hr; exact .inl ⟨hi, rfl⟩
    | twice hr hi => cases hr; exact .inr ⟨hi, rfl⟩
    | target hr | element hr | list hr => cases hr

theorem judges_remove (i : NodeId) :
    Judges (Edit.remove i) s (Refused s (.rewrite (.remove i))) := by
  refine (Judges.checkElement.change (fun _ _ h => (checkElement_ok.1 h).2) fun _ => _).congr
    fun e => ⟨?_, fun h => ?_⟩
  · rintro (⟨hi, rfl⟩ | ⟨n, hn, hi, rfl⟩)
    · exact .source rfl hi
    · exact .element rfl hn hi
  · cases h with
    | source hr hi => cases hr; exact .inl ⟨hi, rfl⟩
    | element hr hn hi => cases hr; exact .inr ⟨_, hn, hi, rfl⟩
    | target hr | list hr | twice hr => cases hr

/-- Something put next to a list element. -/
theorem judges_beside {side : Side} (hside : side = .before ∨ side = .after) (i t : NodeId)
    (f : Session κ σ → Session κ σ) : Judges (do
      Edit.checkElement i
      let _ ← Edit.checkTarget t
      modify f) s (Refused s (.rewrite (.insert side i t))) := by
  have htarget : Judges (do let _ ← Edit.checkTarget t; modify f) s fun e =>
      ¬ InTarget s.target t ∧ e = .nodeNotInDestination t :=
    Judges.checkTarget.change (fun _ _ h => (checkTarget_ok.1 h).2) fun _ => f
  refine (Judges.checkElement.bind fun _ u h => ⟨(checkElement_ok.1 h).2, htarget⟩).congr fun e =>
    ⟨?_, fun h => ?_⟩
  · rintro ((⟨hi, rfl⟩ | ⟨n, hn, hi, rfl⟩) | ⟨ht, rfl⟩)
    · exact .source rfl hi
    · rcases hside with rfl | rfl <;> exact .element rfl hn hi
    · exact .target rfl ht
  · cases h with
    | source hr hi => cases hr; exact .inl (.inl ⟨hi, rfl⟩)
    | target hr ht => cases hr; exact .inr ⟨ht, rfl⟩
    | element hr hn hi =>
      rcases hside with rfl | rfl <;> cases hr <;> exact .inl (.inr ⟨_, hn, hi, rfl⟩)
    | list hr => rcases hside with rfl | rfl <;> cases hr
    | twice hr => cases hr

/-- Something put at an end of a list. -/
theorem judges_end {side : Side} (hside : side = .front ∨ side = .back) (i t : NodeId)
    (f : ListKind → Session κ σ → Session κ σ) : Judges (do
      let kind ← Edit.listFor i t
      modify (f kind)) s (Refused s (.rewrite (.insert side i t))) := by
  have hnone : ∀ n m : Node, n.shape.listFor? m.shape = none ↔ ∀ k, n.shape.hasList k = true →
      k.admits m.shape = false := by
    intro n m
    rw [Option.eq_none_iff_forall_ne_some]
    refine forall_congr' fun k => ?_
    rw [Ne, Shape.listFor?_eq_some, not_and, Bool.not_eq_true]
  refine (Judges.listFor.change (fun _ _ h => (listFor_ok.1 h).2.2) f).congr fun e =>
    ⟨?_, fun h => ?_⟩
  · rintro (⟨hi, rfl⟩ | ⟨ht, rfl⟩ | ⟨n, m, hn, hm, hk, rfl⟩)
    · exact .source rfl hi
    · exact .target rfl ht
    · rcases hside with rfl | rfl <;> exact .list rfl rfl hn hm ((hnone n m).1 hk)
  · cases h with
    | source hr hi => cases hr; exact .inl ⟨hi, rfl⟩
    | target hr ht => cases hr; exact .inr (.inl ⟨ht, rfl⟩)
    | list hr ht hn hm hk =>
      rcases hside with rfl | rfl <;> cases hr <;> cases ht <;>
        exact .inr (.inr ⟨_, _, hn, hm, (hnone _ _).2 hk, rfl⟩)
    | element hr => rcases hside with rfl | rfl <;> cases hr
    | twice hr => cases hr

theorem judges_family (tag : Tag) (h : κ) :
    Judges (Edit.replaceAll tag h) s (Refused s (.family tag h)) := by
  unfold Edit.replaceAll
  rw [Judges, get_bind]
  generalize hfind : List.find? _ s.handlers = found
  cases found with
  | some x =>
    exact ⟨rfl, .overlap (List.mem_of_find?_eq_some hfind) (by simpa using List.find?_some hfind)⟩
  | none =>
    intro e hrefused
    cases hrefused with
    | overlap ht hrelated => exact List.find?_eq_none.1 hfind _ ht hrelated
    | source hr | target hr | element hr | list hr | twice hr => cases hr

theorem judges_symbolRule (rule : SymbolRule) :
    Judges (Edit.setSymbolRule rule) s (Refused s (.symbolRule (κ := κ) rule)) := by
  unfold Edit.setSymbolRule
  rw [Judges, get_bind]
  by_cases h : s.symbolRule.isSome
  · simp only [h, if_true]
    exact ⟨rfl, .ruled h⟩
  · simp only [h]
    intro e hrefused
    cases hrefused with
    | ruled h' => exact h h'
    | source hr | target hr | element hr | list hr | twice hr => cases hr

/-- A registration fails for the reasons there are against it and for no others. -/
theorem judges (r : Registration κ) (s : Session κ σ) : Judges r.perform s (Refused s r) := by
  cases r with
  | rewrite r =>
    cases r with
    | replace i t => exact judges_replace i t
    | remove i => exact judges_remove i
    | insert side i t =>
      cases side with
      | before => exact judges_beside (.inl rfl) i t _
      | after => exact judges_beside (.inr rfl) i t _
      | front => exact judges_end (.inl rfl) i t _
      | back => exact judges_end (.inr rfl) i t _
  | handler i h => exact judges_handler i h
  | family tag h => exact judges_family tag h
  | symbolRule rule => exact judges_symbolRule rule

/-- The session after registrations that are all tried, whatever becomes of those before. -/
def attemptAll (rs : List (Registration κ)) (s : Session κ σ) : Session κ σ :=
  rs.foldl (fun s r => match r.perform s with | .ok _ t | .error _ t => t) s

theorem attemptAll_cons (r : Registration κ) (rs : List (Registration κ)) (s : Session κ σ) :
    attemptAll (r :: rs) s = attemptAll rs (match r.perform s with | .ok _ t | .error _ t => t) :=
  rfl

/-- Trying a registration that is refused is trying nothing. -/
theorem attemptAll_refused {r : Registration κ} {e : Misuse} {t : Session κ σ}
    (h : r.perform s = .error e t) (rs : List (Registration κ)) :
    attemptAll (r :: rs) s = attemptAll rs s := by
  obtain ⟨rfl, -⟩ := (r.judges s).error h
  rw [attemptAll_cons, h]

/-- A registration is refused just where there is a reason, and for such a reason. The session is
what it was before, and what is registered later and the copy of the module come out as if it had
not been tried. -/
theorem perform_refuses (r : Registration κ) (s : Session κ σ) :
    ((∃ e t, r.perform s = .error e t) ↔ ∃ e, Refused s r e) ∧
    ∀ e t, r.perform s = .error e t → t = s ∧ Refused s r e ∧
      ∀ (rs : List (Registration κ)) (act : Act κ σ),
      Edit.copyModule (Edit.copy act) (attemptAll (r :: rs) s) = Edit.copyModule (Edit.copy act)
      (attemptAll rs s) := by
  have h := r.judges s
  refine ⟨h.fails_iff, fun e t hfail => ⟨(h.error hfail).1, (h.error hfail).2, fun rs act => ?_⟩⟩
  rw [attemptAll_refused hfail]

end Registration
end ShaderLoom.Copy
