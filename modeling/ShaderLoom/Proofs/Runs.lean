/-! Steps with a state that may fail, and what is known once they are done. Beside the state runs a
note of a type `γ`, which no step reads: it is chosen anew after every step, and says about a state
what the state itself does not show. A failure has to satisfy `E`: nothing satisfies it where steps
are to succeed, and everything where only success matters. -/
namespace ShaderLoom

theorem bind_eq_ok {ε α β : Type} {x : Except ε α} {f : α → Except ε β} {b : β} :
    x >>= f = .ok b ↔ ∃ a, x = .ok a ∧ f a = .ok b := by
  cases x <;> simp [Bind.bind, Except.bind]

variable {ε σ γ α β ι : Type} {E : ε → Prop}

/-- The step fails with a failure in `E`, or its answer and state satisfy `Q` with some new note. -/
def Runs (step : EStateM ε σ α) (w : σ × γ) (E : ε → Prop) (Q : α → σ × γ → Prop) : Prop :=
  match step w.1 with
  | .ok a s => ∃ g, Q a (s, g)
  | .error e _ => E e

namespace Runs

variable {w : σ × γ} {Q : α → σ × γ → Prop}

theorem of_ok {step : EStateM ε σ α} {a : α} {s : σ} (h : step w.1 = .ok a s) (g : γ)
    (hq : Q a (s, g)) : Runs step w E Q := by
  rw [Runs, h]
  exact ⟨g, hq⟩

theorem ok {step : EStateM ε σ α} (h : Runs step w E Q) {a : α} {s : σ} (hs : step w.1 = .ok a s) :
    ∃ g, Q a (s, g) := by
  rw [Runs, hs] at h
  exact h

theorem of_error {step : EStateM ε σ α} {e : ε} {s : σ} (h : step w.1 = .error e s) (he : E e) :
    Runs step w E Q := by
  rw [Runs, h]
  exact he

theorem unknown (step : EStateM ε σ α) (w : σ × γ) :
    Runs step w (fun _ => True) fun _ _ => True := by
  unfold Runs
  split
  · exact ⟨w.2, trivial⟩
  · trivial

/-- Only what a step does with its state matters. -/
theorem congr {step step' : EStateM ε σ α} (he : step w.1 = step' w.1) (h : Runs step' w E Q) :
    Runs step w E Q := by
  unfold Runs at *
  rwa [he]

/-- Notes that were made before a step have no effect on it. -/
theorem of_session {step : EStateM ε σ α} {s : σ} {g : γ} (g' : γ) (h : Runs step (s, g') E Q) :
    Runs step (s, g) E Q := by
  unfold Runs at h ⊢
  exact h

/-- A step whose failures are impossible gives an answer. -/
theorem succeeds {step : EStateM ε σ α} (h : Runs step w (fun _ => False) Q) :
    ∃ a s g, step w.1 = .ok a s ∧ Q a (s, g) := by
  unfold Runs at h
  split at h
  · next a s hs =>
    obtain ⟨g, hg⟩ := h
    exact ⟨a, s, g, hs, hg⟩
  · exact h.elim

theorem mono {step : EStateM ε σ α} {Q' : α → σ × γ → Prop} (h : Runs step w E Q)
    (hq : ∀ a w', Q a w' → Q' a w') : Runs step w E Q' := by
  unfold Runs at h ⊢
  split at h
  · obtain ⟨g, hg⟩ := h
    exact ⟨g, hq _ _ hg⟩
  · exact h

/-- The notes after a step may be changed. -/
theorem renote {step : EStateM ε σ α} {Q' : α → σ × γ → Prop} (h : Runs step w E Q)
    (hq : ∀ a w', Q a w' → ∃ g, Q' a (w'.1, g)) : Runs step w E Q' := by
  unfold Runs at h ⊢
  split at h
  · obtain ⟨g, hg⟩ := h
    exact hq _ _ hg
  · exact h

/-- What is known of a step in two ways holds together, where the second does not depend on
notes. -/
theorem and {step : EStateM ε σ α} {D : ε → Prop} {P : α → σ → Prop} (h : Runs step w E Q)
    (h' : Runs step w D fun a w' => P a w'.1) : Runs step w E fun a w' => Q a w' ∧ P a w'.1 := by
  unfold Runs at h h' ⊢
  split at h
  · next hs =>
    rw [hs] at h'
    obtain ⟨g, hg⟩ := h
    obtain ⟨_, hp⟩ := h'
    exact ⟨g, hg, hp⟩
  · exact h

/-- The note may be changed at any time. -/
theorem pure {a : α} (g : γ) (h : Q a (w.1, g)) : Runs (pure a : EStateM ε σ α) w E Q :=
  ⟨g, h⟩

theorem bind {step : EStateM ε σ β} {next : β → EStateM ε σ α}
    (h : Runs step w E fun b w' => Runs (next b) w' E Q) : Runs (step >>= next) w E Q := by
  unfold Runs at h ⊢
  simp only [Bind.bind, EStateM.bind]
  cases hs : step w.1 with
  | ok b s =>
    rw [hs] at h
    obtain ⟨g, hg⟩ := h
    exact hg
  | error e s =>
    rw [hs] at h
    exact h

theorem throw {e : ε} (h : E e) : Runs (throw e : EStateM ε σ α) w E Q := h

theorem get {Q : σ → σ × γ → Prop} (h : Q w.1 w) : Runs (get : EStateM ε σ σ) w E Q :=
  ⟨w.2, h⟩

theorem set {Q : PUnit → σ × γ → Prop} {s : σ} (g : γ) (h : Q ⟨⟩ (s, g)) :
    Runs (set s : EStateM ε σ PUnit) w E Q :=
  ⟨g, h⟩

theorem modify {Q : PUnit → σ × γ → Prop} {f : σ → σ} (g : γ) (h : Q ⟨⟩ (f w.1, g)) :
    Runs (modify f : EStateM ε σ PUnit) w E Q :=
  ⟨g, h⟩

theorem modifyGet {f : σ → α × σ} (g : γ) (h : Q (f w.1).1 ((f w.1).2, g)) :
    Runs (modifyGet f : EStateM ε σ α) w E Q :=
  ⟨g, h⟩

/-- A loop that never breaks off keeps what holds of the elements to come. -/
theorem forIn {body : ι → PUnit → EStateM ε σ (ForInStep PUnit)} {xs : List ι}
    {Q : PUnit → σ × γ → Prop} (I : List ι → σ × γ → Prop) (h : I xs w)
    (hstep : ∀ x rest w, x ∈ xs → I (x :: rest) w →
      Runs (body x ⟨⟩) w E fun r w' => r = .yield ⟨⟩ ∧ I rest w')
    (hend : ∀ w, I [] w → Q ⟨⟩ w) : Runs (forIn xs PUnit.unit body) w E Q := by
  induction xs generalizing w with
  | nil => exact ⟨w.2, hend _ h⟩
  | cons x xs ih =>
    rw [List.forIn_cons]
    refine bind ((hstep x xs w (by simp) h).mono ?_)
    rintro _ w' ⟨rfl, hw⟩
    exact ih hw fun y rest w hy => hstep y rest w (List.mem_cons_of_mem x hy)

/-- One turn of such a loop. -/
theorem yield {step : EStateM ε σ PUnit} {P : σ × γ → Prop} (h : Runs step w E fun _ w' => P w') :
    Runs (do step; Pure.pure (ForInStep.yield PUnit.unit)) w E fun r w' => r = .yield ⟨⟩ ∧ P w' :=
  bind (h.mono fun _ w' hw => pure w'.2 ⟨rfl, hw⟩)

/-- The same for a fold whose accumulator is part of what is kept. -/
theorem foldlM {step : β → ι → EStateM ε σ β} {xs : List ι} {b : β} {Q : β → σ × γ → Prop}
    (I : List ι → β → σ × γ → Prop) (h : I xs b w)
    (hstep : ∀ x rest b w, x ∈ xs → I (x :: rest) b w →
      Runs (step b x) w E fun b' w' => I rest b' w') (hend : ∀ b w, I [] b w → Q b w) :
    Runs (xs.foldlM step b) w E Q := by
  induction xs generalizing w b with
  | nil => exact pure w.2 (hend _ _ h)
  | cons x xs ih =>
    rw [List.foldlM_cons]
    refine bind ((hstep x xs b w (by simp) h).mono fun b' w' hw => ?_)
    exact ih hw fun y rest b w hy => hstep y rest b w (List.mem_cons_of_mem x hy)

end Runs

-- The lemmas say what a step does: unification is not to run it.
attribute [irreducible] Runs

end ShaderLoom
